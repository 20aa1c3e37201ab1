import Bourse.Proofs.Release
import Bourse.Proofs.Runs

/-!
# The life of an order's escrow

* `Intact.spends`: what a call admits, draws and returns;
* `Followed`: every resting order holds what the trades since its admission left it, and an order
  that ended does not come back; a call keeps this (`Followed.call`);
* `escrow_spent_once`: so along every run each unit that an admitted order froze is either drawn by
  a trade or returned when the order ends, once.
-/

namespace Bourse

namespace Market

variable {m m' : Market} {e : Event} {h : History} {base d : Denom} {x : Address} {k : OrderId}

theorem gate_placeOrder {msg : PlaceOrder} {pair : Pair} {a : Admission}
    (found : m.ledger.store.lookup msg.symbol = .ok pair)
    (passed : msg.pass m.params pair
      (m.ledger.store.referencePrice pair.stock m.params.baseCurrency) m.tokens
      m.ledger.clearing.accounts m.header.height = .ok a) :
    m.gate (.placeOrder msg) = some a.order := by
  simp only [gate, found, bind, Except.bind, passed]
  rfl

/-- What a message that succeeds admits and settles. -/
theorem Intact.apply_spends [Build] {msg : Message} {done : Executed} (intact : m.Intact)
    (checked : msg.check = .ok ()) (run : m.apply msg = (.ok done, m')) :
    Ledger.Spends m.params.baseCurrency m.ledger (m.gate msg) done.batch m'.ledger := by
  obtain ⟨l, acted, rfl⟩ := Market.apply_ok run
  have wf := intact.opened
  have committed : ∀ {admitted}, Ledger.Spends m.params.baseCurrency
      (m.ledger.withStore m.ledger.store.openJournal) admitted done.batch l →
      Ledger.Spends m.params.baseCurrency m.ledger admitted done.batch
        (l.withStore l.store.commit) :=
    fun spends => ⟨spends.spent, spends.fresh, spends.used⟩
  cases msg with
  | placeOrder o =>
      obtain ⟨pair, a, found, passed, spends⟩ := Ledger.placeOrder_spends wf checked acted
      rw [gate_placeOrder found passed]
      exact committed spends
  | createPair | delistPair | raisePrecision | cancelOrder =>
      exact committed (Ledger.execute_spends (by simp) acted)

/-- What a call admits, draws and returns. -/
theorem Intact.spends [Build] (intact : m.Intact) (call : Call m e m') :
    Ledger.Spends m.params.baseCurrency m.ledger e.admitted e.batch m'.ledger := by
  cases call with
  | beginBlock | setPair | accounts | params | tokens => exact Ledger.spends_nothing _ rfl rfl
  | deliver msg =>
      obtain ⟨-, same, nothing⟩ | ⟨done, checked, -, run⟩ := intact.deliver_cases msg
      · rw [nothing, same]
        exact Ledger.spends_nothing _ rfl rfl
      · rw [eventOf_ok checked run]
        exact intact.apply_spends checked run
  | endBlock header =>
      obtain ⟨_, -, run⟩ | ⟨report, batch, -, run⟩ := m.endBlock_cases header
      · rw [eventAt_error run, intact.closeBlock_error run]
        exact Ledger.spends_nothing _ rfl rfl
      · rw [eventAt_ok run]
        obtain ⟨l, acted, same⟩ := Market.closeBlock_ok run
        have wf := intact.opened
        have spends := Ledger.endBlock_spends wf acted
        rw [same]
        exact ⟨spends.spent, spends.fresh, spends.used⟩

/-- The ids of the resting orders. -/
theorem Intact.rests_iff (intact : m.Intact) :
    m.rests k ↔ k ∈ m.ledger.store.resting.map (·.id) := by
  rw [rests, order?_eq, Option.isSome_iff_exists, List.mem_map]
  constructor
  · rintro ⟨o, found⟩
    obtain rfl := intact.tables.order_id k o found
    exact ⟨o, intact.tables.mem_values.2 found, rfl⟩
  · rintro ⟨o, mem, rfl⟩
    exact ⟨o, intact.tables.mem_values.1 mem⟩

/-- What rests after a call rested before, or was admitted in it. -/
theorem Intact.rests_before [Build] (intact : m.Intact) (call : Call m e m') (rests : m'.rests k) :
    m.rests k ∨ ∃ o ∈ e.admitted, o.id = k := by
  obtain ⟨o, mem, rfl⟩ := List.mem_map.1 ((intact.call call).rests_iff.1 rests)
  obtain ⟨o₀, mem₀, terms, -⟩ := (intact.spends call).spent.origin mem
  rw [Order.id_of_terms terms]
  obtain mem₀ | mem₀ := List.mem_append.1 mem₀
  · exact .inl (intact.rests_iff.2 (List.mem_map_of_mem mem₀))
  · exact .inr ⟨o₀, Option.mem_toList.1 mem₀, rfl⟩

/-- The resting orders hold what is left of the orders that were admitted; what ended does not
come back. -/
structure Followed (h : History) (m : Market) : Prop where
  drawn : Drawn h.admitted m.ledger.store.resting h.trades
  ids : (h.admitted.map (·.id)).Nodup
  used : ∀ o ∈ h.admitted, o.id ∈ m.ledger.store.tables.usedIds
  ended : ∀ o ∈ h.ended, o ∈ h.admitted ∧ ¬m.rests o.id
  once : (h.ended.map (·.id)).Nodup

theorem mem_endedBy {o : Order} (mem : o ∈ h.endedBy m e m') :
    (o ∈ h.admitted ∧ m.rests o.id ∨ o ∈ e.admitted) ∧ ¬m'.rests o.id := by
  obtain ⟨mem, ended⟩ := List.mem_filter.1 mem
  refine ⟨(List.mem_append.1 mem).imp (fun mem => ?_) Option.mem_toList.1, by simpa using ended⟩
  obtain ⟨mem, rests⟩ := List.mem_filter.1 mem
  exact ⟨mem, by simpa using rests⟩

section Calls

variable [Build] (followed : Followed h m) (intact : m.Intact) (step : Call m e m')

include followed intact step

/-- No order is admitted twice. -/
theorem Followed.fresh : ∀ o ∈ e.admitted, ∀ o' ∈ h.admitted, o'.id ≠ o.id :=
  fun o mem o' mem' same => (intact.spends step).fresh o mem (same ▸ followed.used o' mem')

theorem Followed.next_ids : ((h.admitted ++ e.admitted.toList).map (·.id)).Nodup :=
  Store.nodup_admitted followed.ids followed.used (intact.spends step).fresh

/-- So far with the order that the call admits. -/
theorem Followed.drawn_next : Drawn (h.admitted ++ e.admitted.toList)
    (m.ledger.store.resting ++ e.admitted.toList) h.trades := by
  refine followed.drawn.frame (followed.next_ids intact step)
    (fun o mem => List.mem_append_left _ mem) fun o mem => ?_
  obtain mem | mem := List.mem_append.1 mem
  · exact .inl mem
  · exact .inr ⟨List.mem_append_right _ mem,
      followed.fresh intact step o (Option.mem_toList.1 mem)⟩

/-- A call keeps it. -/
theorem Followed.call : Followed (h.next m e m') m' := by
  have spends := intact.spends step
  have ids := followed.next_ids intact step
  constructor
  · exact (followed.drawn_next intact step).trans spends.spent.toDrawn ids
  · exact ids
  · intro o mem
    refine (spends.used o.id).2 ((List.mem_append.1 mem).imp (followed.used o) fun mem => ?_)
    exact ⟨o, Option.mem_toList.1 mem, rfl⟩
  · intro o mem
    obtain mem | mem := List.mem_append.1 mem
    · obtain ⟨mem, ended⟩ := followed.ended o mem
      refine ⟨List.mem_append_left _ mem, fun rests => ?_⟩
      obtain rests | ⟨o', mem', same⟩ := intact.rests_before step rests
      · exact ended rests
      · exact followed.fresh intact step o' mem' o mem same.symm
    · obtain ⟨origin, ended⟩ := mem_endedBy mem
      refine ⟨List.mem_append.2 (origin.imp And.left Option.mem_toList.2), ended⟩
  · have sub : (h.endedBy m e m').Sublist (h.admitted ++ e.admitted.toList) :=
      List.filter_sublist.trans (List.filter_sublist.append_right _)
    change ((h.ended ++ h.endedBy m e m').map (·.id)).Nodup
    rw [List.map_append, List.nodup_append]
    refine ⟨followed.once, ids.sublist (sub.map _), fun k mem k' mem' same => ?_⟩
    obtain ⟨o, before, rfl⟩ := List.mem_map.1 mem
    obtain ⟨o', now, rfl⟩ := List.mem_map.1 mem'
    have same : o.id = o'.id := same
    obtain ⟨admitted, ended⟩ := followed.ended o before
    obtain ⟨⟨-, rests⟩ | new, -⟩ := mem_endedBy now
    · exact ended (same ▸ rests)
    · exact followed.fresh intact step o' new o admitted same

/-- A call returns what is left of the orders that end in it. -/
theorem Followed.released : Effect.unfreezes e.batch.effects x d =
    Order.escrow ((h.endedBy m e m').map (Order.left (h.trades ++ e.batch.trades)))
      m.params.baseCurrency x d := by
  have spends := intact.spends step
  have intact' := intact.call step
  -- The orders before the call have the stakes of what is left of those that were admitted.
  have stakes : (((h.admitted.filter fun o => m.rests o.id) ++ e.admitted.toList).map
      (Order.left h.trades) |>.map Order.stake).Perm
      ((m.ledger.store.resting ++ e.admitted.toList).map Order.stake) := by
    have old := followed.drawn.stakes followed.ids (Store.nodup_resting intact.tables)
      (P := m.rests) fun k => intact.rests_iff
    have new : e.admitted.toList.map (Order.left h.trades) = e.admitted.toList := by
      refine (List.map_congr_left fun o mem => ?_).trans (List.map_id _)
      obtain ⟨paid, charged⟩ := followed.drawn.idle
        (followed.fresh intact step o (Option.mem_toList.1 mem))
      exact Order.left_of_idle paid charged
    rw [List.map_append, List.map_append, List.map_append, new]
    exact old.append_right _
  rw [spends.spent.released (spends.distinct intact.tables) (Store.nodup_resting intact'.tables)
    (P := m'.rests) fun k => intact'.rests_iff]
  refine (Order.escrow_of_stakes ?_).symm
  refine .trans (.of_eq ?_) (Order.stakes_left_filter (P := fun k => ¬m'.rests k) stakes)
  rw [History.endedBy, List.filter_map, List.map_map, List.map_map, List.map_map]
  refine List.map_congr_left fun o _ => ?_
  rw [Function.comp_apply, Order.left_append]
  rfl

end Calls

theorem Run.followed [Build] (run : Run h m) : Followed h m := by
  induction run with
  | start tokens params range =>
      have none : ({} : Store).resting = [] := by
        rw [Store.resting, Maps.values_eq]
        exact List.map_eq_nil_iff.2 (Std.ExtTreeMap.toList_eq_nil_iff.2 rfl)
      refine ⟨.of_subset fun o mem => ?_, List.nodup_nil, by simp, by simp, List.nodup_nil⟩
      change o ∈ ({} : Store).resting at mem
      rwa [none] at mem
  | call run step ih => exact ih.call run.intact step

/-- Along every run, each order that was admitted has frozen what its trades took and what it still
holds, for as long as it rests; the orders that end in a call have what is left of them returned by
it, to each owner in each denomination, and nothing else is; and no order ends twice or comes
back. -/
theorem escrow_spent_once [Build] (run : Run h m) :
    (∀ o₀ ∈ h.admitted, o₀.paid h.trades ≤ o₀.frozenPrincipal ∧
      o₀.charged h.trades ≤ o₀.frozenFee ∧ ∀ o, m.order? o₀.id = some o →
        o.frozenPrincipal = o₀.frozenPrincipal - o₀.paid h.trades ∧
        o.frozenFee = o₀.frozenFee - o₀.charged h.trades) ∧
    (∀ k, m.rests k → k ∈ h.admitted.map (·.id)) ∧
    (∀ e m', Call m e m' → ∀ x d, Effect.unfreezes e.batch.effects x d =
      Order.escrow ((h.endedBy m e m').map (Order.left (h.trades ++ e.batch.trades)))
        m.params.baseCurrency x d) ∧
    (h.ended.map (·.id)).Nodup ∧ ∀ o ∈ h.ended, ¬m.rests o.id := by
  have followed := run.followed
  have intact := run.intact
  refine ⟨fun o₀ mem => ?_, fun k rests => ?_, fun e m' step x d => ?_, followed.once,
    fun o mem => (followed.ended o mem).2⟩
  · obtain ⟨paid, charged⟩ := followed.drawn.covers o₀ mem
    refine ⟨paid, charged, fun o found => ?_⟩
    rw [order?_eq] at found
    have id := intact.tables.order_id _ o found
    have stored := intact.tables.mem_values.2 (id ▸ found)
    obtain ⟨-, principal, fee⟩ :=
      Order.stake_eq.1 (followed.drawn.origin_unique followed.ids stored mem id)
    exact ⟨principal, fee⟩
  · obtain ⟨o, mem, rfl⟩ := List.mem_map.1 (intact.rests_iff.1 rests)
    obtain ⟨o₀, mem₀, terms, -⟩ := followed.drawn.origin mem
    exact List.mem_map.2 ⟨o₀, mem₀, (Order.id_of_terms terms).symm⟩
  · exact followed.released intact step

section Checked

attribute [local instance] Build.checked

/-- The bid of 4 takes as much from the offer of 7 and ends, and what it has left returns. -/
theorem quoted_escrow_spent :
    (∀ x d, Effect.unfreezes (quoted.eventAt ⟨1, 0⟩).batch.effects x d =
      Order.escrow ((quotedHistory.endedBy quoted (quoted.eventAt ⟨1, 0⟩)
          (quoted.endBlock ⟨1, 0⟩).2).map
        (Order.left (quotedHistory.trades ++ (quoted.eventAt ⟨1, 0⟩).batch.trades))) "cet" x d) ∧
    (quotedHistory.endedBy quoted (quoted.eventAt ⟨1, 0⟩) (quoted.endBlock ⟨1, 0⟩).2).map (·.id) =
      [⟨"b-1-0"⟩] := by
  have spent := escrow_spent_once quoted_run
  refine ⟨spent.2.2.1 _ _ (.endBlock ⟨1, 0⟩), ?_⟩
  decide +kernel

end Checked

end Market

end Bourse
