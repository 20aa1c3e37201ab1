import Bourse.Proofs.OrderId
import Bourse.Proofs.Trace

/-!
# An order id is used once

* `Moment.assigned?`: the id that an order gets when it is placed; it names the sender, the sequence
  and the version of the chain id then in force (`assigned?_eq_some`);
* `Assigned`: the ids that a trace assigned are distinct, and they are the used ones; each input
  keeps this (`Assigned.next`);
* `order_ids_single_use`: so no two orders ever get one id, and a placement that is refused uses
  none up.
-/

namespace Bourse.Market

variable {past : List Moment} {m : Market} {x y : Moment} {o o' : PlaceOrder} {id : OrderId}

/-- The id of the order that was admitted at the moment. -/
def Moment.assigned? [Build] (x : Moment) : Option OrderId :=
  (x.market.event x.input).admitted.map (·.id)

/-- The order was placed, and not refused. -/
def Moment.Places [Build] (x : Moment) (o : PlaceOrder) : Prop :=
  x.input = .deliver (.placeOrder o) ∧ (x.market.deliver (.placeOrder o)).1.success = true

/-- The version of the chain id in force. -/
def Moment.version (x : Moment) : Int := x.market.params.chainIdVersion

/-- The order that a placement admits bears the id of the message. -/
theorem gate_id [Build] {done : Executed} {m' : Market}
    (run : m.apply (.placeOrder o) = (.ok done, m')) :
    ∃ order, m.gate (.placeOrder o) = some order ∧
      order.id = .assemble o.sender o.sequence m.params.chainIdVersion := by
  obtain ⟨l, acted, -⟩ := Market.apply_ok run
  obtain ⟨pair, a, found, passed, -⟩ := Ledger.placeOrder_ok acted
  obtain ⟨principal, fee, -, -, -, -, order⟩ := pass_ok passed
  exact ⟨a.order, gate_placeOrder found passed, by rw [order]; rfl⟩

theorem assigned?_of_places [Build] (places : x.Places o) :
    x.assigned? = some (.assemble o.sender o.sequence x.version) := by
  obtain ⟨m, i⟩ := x
  obtain ⟨rfl, accepted⟩ := places
  obtain ⟨done, checked, run⟩ := apply_of_accepted accepted
  obtain ⟨order, admitted, named⟩ := gate_id run
  rw [Moment.assigned?, event, eventOf_ok checked run, admitted, Option.map_some, named]
  rfl

/-- An id is assigned where an order is placed, and nowhere else. -/
theorem assigned?_eq_some [Build] : x.assigned? = some id ↔
    ∃ o, x.Places o ∧ id = .assemble o.sender o.sequence x.version := by
  constructor
  · intro assigned
    obtain ⟨m, i⟩ := x
    cases i with
    | beginBlock | setPair | accounts | params | tokens => cases assigned
    | endBlock header =>
        obtain ⟨_, -, run⟩ | ⟨report, batch, -, run⟩ := m.endBlock_cases header
        · rw [Moment.assigned?, event, eventAt_error run] at assigned
          cases assigned
        · rw [Moment.assigned?, event, eventAt_ok run] at assigned
          cases assigned
    | deliver msg =>
        obtain ⟨_, refused, -⟩ | ⟨done, checked, accepted, run⟩ := m.deliver_cases msg
        · rw [Moment.assigned?, event, eventOf_refused (by rw [refused]; rfl)] at assigned
          cases assigned
        · cases msg with
          | createPair | delistPair | raisePrecision | cancelOrder =>
              rw [Moment.assigned?, event, eventOf_ok checked run] at assigned
              cases assigned
          | placeOrder o =>
              have places : Moment.Places ⟨m, .deliver (.placeOrder o)⟩ o :=
                ⟨rfl, by rw [accepted]; rfl⟩
              exact ⟨o, places, Option.some.inj (assigned.symm.trans (assigned?_of_places places))⟩
  · rintro ⟨o, places, rfl⟩
    exact assigned?_of_places places

/-- The ids that were assigned are distinct, and they are the used ones. -/
structure Assigned [Build] (past : List Moment) (m : Market) : Prop where
  once : (past.filterMap Moment.assigned?).Nodup
  used : ∀ k, k ∈ m.ledger.store.tables.usedIds ↔ k ∈ past.filterMap Moment.assigned?

/-- The next input assigns no used id. -/
theorem Assigned.next [Build] (assigned : Assigned past m) (intact : m.Intact) {i : Input}
    (fits : i.Fits) : Assigned (past ++ [⟨m, i⟩]) (m.after i) := by
  have spends := intact.spends (m.call_after fits)
  have here : [(⟨m, i⟩ : Moment)].filterMap Moment.assigned? =
      (m.event i).admitted.toList.map (·.id) := by
    rw [List.filterMap_cons, Moment.assigned?]
    cases (m.event i).admitted <;> rfl
  refine ⟨?_, fun k => ?_⟩
  · rw [List.filterMap_append, here, List.nodup_append]
    refine ⟨assigned.once, ?_, fun k mem k' mem' same => ?_⟩
    · cases (m.event i).admitted <;> simp
    · obtain ⟨o, admitted, rfl⟩ := List.mem_map.1 mem'
      exact spends.fresh o (Option.mem_toList.1 admitted) ((assigned.used _).2 (same ▸ mem))
  · rw [spends.used, assigned.used, List.filterMap_append, List.mem_append, here, List.mem_map]
    simp only [Option.mem_toList, Option.mem_def]

theorem Trace.assigned [Build] (trace : Trace past m) : Assigned past m := by
  induction trace with
  | start tokens params range => exact ⟨.nil, by simp⟩
  | next i trace fits ih => exact ih.next trace.intact fits

/-- Along every run, whatever becomes of the parameters, the markets and the orders, no two orders
that are placed get one id. Ids are one if sender, sequence and version of the chain id are, so a
sender's sequence is only accepted again under another version. Exactly the ids that were assigned
are used, and a placement that is refused changes nothing. -/
theorem order_ids_single_use [Build] (trace : Trace past m) :
    (past.filterMap Moment.assigned?).Nodup ∧
    (∀ x y o o', Moment.Places x o → Moment.Places y o' → (x.assigned? = y.assigned? ↔
      o.sender = o'.sender ∧ o.sequence = o'.sequence ∧ x.version = y.version)) ∧
    (past.Pairwise fun x y => ∀ o o', x.Places o → y.Places o' → o.sender = o'.sender →
      o.sequence = o'.sequence → x.version ≠ y.version) ∧
    (∀ id, m.ledger.store.tables.isIdUsed id = true ↔ ∃ x ∈ past, ∃ o, x.Places o ∧
      id = .assemble o.sender o.sequence x.version) ∧
    ∀ o, (m.deliver (.placeOrder o)).1.success = false → (m.deliver (.placeOrder o)).2 = m := by
  have assigned := trace.assigned
  refine ⟨assigned.once, fun x y o o' places places' => ?_, ?_, fun id => ?_, fun o refused => ?_⟩
  · rw [assigned?_of_places places, assigned?_of_places places', Option.some.injEq]
    exact OrderId.assemble_inj
  · refine (List.pairwise_filterMap.1 assigned.once).imp ?_
    intro x y apart o o' places places' sender sequence version
    apply apart _ (assigned?_of_places places) _ (assigned?_of_places places')
    rw [sender, sequence, version]
  · rw [Tables.isIdUsed, Bool.or_eq_true, ← Std.ExtTreeSet.mem_iff_contains,
      ← Std.ExtTreeMap.mem_iff_contains,
      or_iff_left_of_imp (trace.intact.tables.claimed id), assigned.used, List.mem_filterMap]
    simp only [assigned?_eq_some]
  · exact trace.intact.refused refused

section Reoffered

attribute [local instance] Build.checked

/-- `a` offers the other 2, under the sequence of its first offer. -/
def offer2 : PlaceOrder := ⟨⟨"a"⟩, 1, "btc/cet", .limit, 0, 6, 2, .sell, .goodTillExpire⟩

/-- The chain restarts with the offer of 7. -/
def restarted : Market := { asked with params := { asked.params with chainIdVersion := 1 } }

def reoffered : Market := (restarted.deliver (.placeOrder offer2)).2

def reofferedPast : List Moment := [
  ⟨traders, .deliver listing⟩, ⟨listed, .deliver offer7⟩, ⟨asked, .params restarted.params⟩,
  ⟨restarted, .deliver (.placeOrder offer2)⟩]

theorem reoffered_trace : Trace reofferedPast reoffered := by
  have start : Trace [] traders := .start traders.tokens .default traders_range
  have listed : Trace _ listed := start.next (.deliver listing) trivial
  have asked : Trace _ asked := listed.next (.deliver offer7) trivial
  exact (asked.next (.params restarted.params) trivial).next (.deliver (.placeOrder offer2)) trivial

/-- Under the version after the restart `a` may use its sequence again, and then no other time. -/
theorem reoffered_single_use :
    reofferedPast.filterMap Moment.assigned? = [⟨"a-1-0"⟩, ⟨"a-1-1"⟩] ∧
      (reofferedPast.filterMap Moment.assigned?).Nodup ∧
      (reoffered.deliver (.placeOrder offer2)).2 = reoffered := by
  obtain ⟨once, -, -, -, refused⟩ := order_ids_single_use reoffered_trace
  exact ⟨by decide +kernel, once, refused offer2 (by decide +kernel)⟩

end Reoffered

end Bourse.Market
