import Bourse.Proofs.Counters

/-!
# The life cycle of an order

What one input may make of the order under an id, in a market that some run led to.

* `Tallied.born`: an order that is new was placed by a message, and has nothing filled;
* `Tallied.lives`: one that stays is as it was, or traded in part;
* `Tallied.ends`: one that is gone was filled, or cancelled by its sender, or delisted;
* `order_life_cycle`: no order goes any other way, and none that rests is immediate.
-/

namespace Bourse.Market

variable {past : List Moment} {m : Market} {i : Input} {o o' : Order} {k : OrderId}

/-- A message that places an order to rest settles nothing. -/
theorem batch_of_rests [Build] {p : PlaceOrder} (rests : p.timeInForce = .goodTillExpire) :
    (m.event (.deliver (.placeOrder p))).batch = {} := by
  rw [event]
  obtain ⟨fault, refused, -⟩ | ⟨done, checked, -, run⟩ := m.deliver_cases (.placeOrder p)
  · rw [eventOf_refused (by rw [refused]; rfl)]
  · rw [eventOf_ok checked run]
    obtain ⟨l, acted, -⟩ := Market.apply_ok run
    obtain ⟨_, _, -, -, ⟨-, acted⟩ | ⟨kind, -⟩⟩ := Ledger.placeOrder_ok acted
    · obtain ⟨_, _, -, -, batch, -⟩ := Ledger.rest_ok acted
      exact batch
    · rw [rests] at kind
      cases kind

/-- What takes out an order that it did not place is its sender's cancellation, or the delisting of
its market. -/
theorem removes_of_unassigned [Build] (unassigned : Moment.assigned? ⟨m, i⟩ ≠ some o.id)
    (removed : Moment.Removes ⟨m, i⟩ o) :
    (∃ c, i = .deliver (.cancelOrder c) ∧ (m.deliver (.cancelOrder c)).1.success = true ∧
      c.order = o.id ∧ c.sender = o.sender) ∨
    ∃ header report, i = .endBlock header ∧ (m.endBlock header).1 = .ok report ∧
      o.pair ∈ report.delisted := by
  cases i with
  | beginBlock | setPair | accounts | params | tokens => exact removed.elim
  | endBlock header =>
      obtain ⟨report, ended, delisted⟩ := removed
      exact .inr ⟨header, report, rfl, ended, delisted⟩
  | deliver msg =>
      cases msg with
      | createPair | delistPair | raisePrecision => exact removed.elim
      | cancelOrder c =>
          obtain ⟨accepted, named, owned⟩ := removed
          exact .inl ⟨c, rfl, accepted, named, owned⟩
      | placeOrder p => exact absurd removed.2 unassigned

section Step

variable [Build] (tallied : Tallied past m) (intact : m.Intact) (fits : i.Fits) (typed : i.InRange)

include tallied intact fits typed

/-- An order that is new was placed to rest, and nothing of it is filled. -/
theorem Tallied.born (absent : m.order? k = none) (found : (m.after i).order? k = some o) :
    ∃ p, i = .deliver (.placeOrder p) ∧ (m.deliver (.placeOrder p)).1.success = true ∧
      p.timeInForce = .goodTillExpire ∧
      k = .assemble p.sender p.sequence m.params.chainIdVersion ∧
      o.status = .opened ∧ o.remaining = o.quantity ∧ o.quantity = p.quantity := by
  have intact' := intact.call (call_after m fits)
  obtain rfl := intact'.tables.order_id k o found
  have accounted := intact.accounted tallied.open typed
  have mem := (Store.mem_resting intact'.tables).2 found
  obtain ⟨-, o₀, start, rfl⟩ := accounted.kept o mem
  rw [Order.id_after] at absent ⊢
  obtain resting | admitted := List.mem_append.1 start
  · rw [show m.order? o₀.id = some o₀ from (Store.mem_resting intact.tables).1 resting] at absent
    cases absent
  have admitted := Option.mem_toList.1 admitted
  have new := newborn_of_event typed admitted
  have rests := rests_of_admitted accounted admitted start ⟨_, mem, Order.id_after⟩
  obtain ⟨p, pair, a, rfl, accepted, -, -, passed, rfl⟩ := admitted_cases admitted
  obtain ⟨_, _, -, -, -, -, order⟩ := pass_ok passed
  have rests : p.timeInForce = .goodTillExpire := by rwa [order] at rests
  rw [batch_of_rests rests]
  refine ⟨p, rfl, accepted, rests, ?_, new.opened, new.remaining, ?_⟩
  · rw [order]
    rfl
  · rw [Order.after_nil, order]
    rfl

/-- An order that stays lost what this step's trades took of it. -/
theorem Tallied.lives (found : m.order? k = some o) (found' : (m.after i).order? k = some o') :
    o'.terms = o.terms ∧
      o'.remaining + Trade.stockOf (m.event i).batch.trades k = o.remaining ∧
      ((∀ t ∈ (m.event i).batch.trades, ¬t.Names k) ∧ o' = o ∨
        (∃ t ∈ (m.event i).batch.trades, t.Names k) ∧ o'.status = .partiallyFilled) := by
  have intact' := intact.call (call_after m fits)
  have accounted := intact.accounted tallied.open typed
  have distinct := (intact.spends (call_after m fits)).distinct intact.tables
  obtain rfl := intact.tables.order_id k o found
  have resting := (Store.mem_resting intact.tables).2 found
  have start := List.mem_append_left (m.event i).admitted.toList resting
  have same := intact'.tables.order_id o.id o' found'
  have mem := (Store.mem_resting intact'.tables).2 (by rw [same]; exact found')
  have unfilled := (accounted.kept o' mem).1
  obtain rfl := accounted.eq_after distinct mem start same
  refine ⟨Order.terms_after, Order.remaining_after (accounted.fits o start)
    (tallied.open.words o resting), ?_⟩
  by_cases named : ∃ t ∈ (m.event i).batch.trades, t.Names o.id
  · exact .inr ⟨named, by rw [Order.status_after named, if_neg unfilled]⟩
  · have idle : ∀ t ∈ (m.event i).batch.trades, ¬t.Names o.id := fun t mem named' =>
      named ⟨t, mem, named'⟩
    exact .inl ⟨idle, Order.after_of_idle idle⟩

/-- An order that is gone was filled, cancelled by its sender, or delisted. -/
theorem Tallied.ends (found : m.order? k = some o) (gone : (m.after i).order? k = none) :
    Trade.stockOf (m.event i).batch.trades k = o.remaining ∨
      (∃ c, i = .deliver (.cancelOrder c) ∧ (m.deliver (.cancelOrder c)).1.success = true ∧
        c.order = k ∧ c.sender = o.sender) ∨
      ∃ header report, i = .endBlock header ∧ (m.endBlock header).1 = .ok report ∧
        o.pair ∈ report.delisted := by
  have intact' := intact.call (call_after m fits)
  have accounted := intact.accounted tallied.open typed
  have spends := intact.spends (call_after m fits)
  obtain rfl := intact.tables.order_id k o found
  have resting := (Store.mem_resting intact.tables).2 found
  have start := List.mem_append_left (m.event i).admitted.toList resting
  obtain ⟨o', mem, same⟩ | filled | removed := accounted.ended o start
  · have stays : (m.after i).order? o'.id = some o' := (Store.mem_resting intact'.tables).1 mem
    rw [same, gone] at stays
    cases stays
  · have taken := Order.remaining_after (accounted.fits o start) (tallied.open.words o resting)
    rw [filled, Nat.zero_add] at taken
    exact .inl taken
  · refine .inr (removes_of_unassigned (fun assigned => ?_) removed)
    obtain ⟨o', admitted, same⟩ := Option.map_eq_some_iff.1 assigned
    exact absurd (same ▸ Store.used_of_resting intact.tables resting) (spends.fresh o' admitted)

end Step

/-- In every market that a run leads to, one input changes the order under an id in one of these
ways only. An order that is new was placed by a message to rest, under its id, and is open in full.
One that stays is as it was, or lost what the trades of this step took of it and is partially
filled. One that is gone was filled by them for all that remained, or cancelled by its own sender,
or its market was delisted by the end of the block. An immediate order never rests. -/
theorem order_life_cycle [Build] (trace : Trace past m) (past_typed : ∀ x ∈ past, x.input.InRange)
    (fits : i.Fits) (typed : i.InRange) (k : OrderId) :
    (∀ o, m.order? k = none → (m.after i).order? k = some o →
      ∃ p, i = .deliver (.placeOrder p) ∧ (m.deliver (.placeOrder p)).1.success = true ∧
        p.timeInForce = .goodTillExpire ∧
        k = .assemble p.sender p.sequence m.params.chainIdVersion ∧
        o.status = .opened ∧ o.remaining = o.quantity ∧ o.quantity = p.quantity) ∧
    (∀ o o', m.order? k = some o → (m.after i).order? k = some o' →
      o'.terms = o.terms ∧
      o'.remaining + Trade.stockOf (m.event i).batch.trades k = o.remaining ∧
      ((∀ t ∈ (m.event i).batch.trades, ¬t.Names k) ∧ o' = o ∨
        (∃ t ∈ (m.event i).batch.trades, t.Names k) ∧ o'.status = .partiallyFilled)) ∧
    (∀ o, m.order? k = some o → (m.after i).order? k = none →
      Trade.stockOf (m.event i).batch.trades k = o.remaining ∨
      (∃ c, i = .deliver (.cancelOrder c) ∧ (m.deliver (.cancelOrder c)).1.success = true ∧
        c.order = k ∧ c.sender = o.sender) ∨
      ∃ header report, i = .endBlock header ∧ (m.endBlock header).1 = .ok report ∧
        o.pair ∈ report.delisted) ∧
    ∀ o, m.order? k = some o → o.timeInForce ≠ .immediateOrCancel := by
  have tallied := trace.tallied past_typed
  have intact := trace.intact
  refine ⟨fun o absent found => tallied.born intact fits typed absent found,
    fun o o' found found' => tallied.lives intact fits typed found found',
    fun o found gone => tallied.ends intact fits typed found gone, fun o found immediate => ?_⟩
  obtain rfl := intact.tables.order_id k o found
  obtain ⟨o₀, rfl, -, rests, -⟩ := tallied.origin o ((Store.mem_resting intact.tables).2 found)
  have same : (o₀.after (tradesOf past)).timeInForce = o₀.timeInForce :=
    (congrArg Order.timeInForce Order.terms_after :)
  rw [same, rests] at immediate
  cases immediate

section Quoted

attribute [local instance] Build.checked

def quotedPast : List Moment := [
  ⟨traders, .deliver listing⟩, ⟨listed, .deliver offer7⟩, ⟨asked, .deliver bid4⟩]

theorem quoted_trace : Trace quotedPast quoted := by
  have start : Trace [] traders := .start traders.tokens .default traders_range
  have listed : Trace _ listed := start.next (.deliver listing) trivial
  exact (listed.next (.deliver offer7) trivial).next (.deliver bid4) trivial

theorem quoted_typed : ∀ x ∈ quotedPast, x.input.InRange := by
  have offered : offer7.InRange := (by decide : 7 < Word.size)
  have bid : bid4.InRange := (by decide : 4 < Word.size)
  exact List.forall_mem_cons.2 ⟨trivial, List.forall_mem_cons.2 ⟨offered,
    List.forall_mem_singleton.2 bid⟩⟩

/-- The bid takes 4 from the offer of 7 and is gone, and the offer stays with the other 3. -/
theorem quoted_life_cycle :
    let trades := (quoted.event (.endBlock ⟨1, 0⟩)).batch.trades
    Trade.stockOf trades ⟨"b-1-0"⟩ = 4 ∧
      ∃ o o', quoted.order? ⟨"a-1-0"⟩ = some o ∧ o.remaining = 7 ∧
        (quoted.after (.endBlock ⟨1, 0⟩)).order? ⟨"a-1-0"⟩ = some o' ∧ o'.remaining = 3 ∧
        o'.terms = o.terms ∧ o'.remaining + Trade.stockOf trades ⟨"a-1-0"⟩ = o.remaining := by
  have before : (quoted.order? ⟨"a-1-0"⟩).map Order.remaining = some 7 := by decide +kernel
  have later : ((quoted.after (.endBlock ⟨1, 0⟩)).order? ⟨"a-1-0"⟩).map Order.remaining =
      some 3 := by
    decide +kernel
  obtain ⟨o, found, whole⟩ := Option.map_eq_some_iff.1 before
  obtain ⟨o', found', left⟩ := Option.map_eq_some_iff.1 later
  obtain ⟨-, lives, -⟩ :=
    order_life_cycle quoted_trace quoted_typed (i := .endBlock ⟨1, 0⟩) trivial trivial ⟨"a-1-0"⟩
  obtain ⟨terms, taken, -⟩ := lives o o' found found'
  exact ⟨by decide +kernel, o, o', found, whole, found', left, terms, taken⟩

end Quoted

end Bourse.Market
