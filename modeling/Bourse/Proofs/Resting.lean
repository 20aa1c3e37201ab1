import Bourse.Proofs.Matching
import Bourse.Proofs.Writes

/-!
# A matching pass on the store

* `writeBack_orders`: after a pass, the stored orders of its market are those left in its book, and
  all others are as they were;
* `matchPair_balanced`: what the pass settles is what the stored orders hold less afterwards;
* `cancel_balanced`: so it is when an order is cancelled.
-/

namespace Bourse

namespace Store

variable {s s' : Store} {o : Order} {id k : OrderId} {l : List Order} {pair : PairId} {b₀ : Book}
  {p : Pass} {v : Venue} {base : Denom}

section WriteBack

theorem removeAll_orders {u : PUnit}
    (run : (l.forM fun o => Action.change fun s => s.removeFilled o) s = .ok u s') :
    s.tables.Aside s'.tables ∧ ∀ k, s'.tables.orders[k]? =
      if k ∈ l.map (·.id) then none else s.tables.orders[k]? := by
  induction l generalizing s with
  | nil =>
      rw [Action.forM_nil_ok] at run
      simp [run, Tables.Aside.refl]
  | cons o rest ih =>
      obtain ⟨t, first, run⟩ := Action.forM_cons_ok.1 run
      obtain ⟨found, removed⟩ := removeFilled_ok.1 (Action.change_ok.1 first)
      obtain ⟨-, rfl⟩ := removeOrder_ok.1 removed
      obtain ⟨aside, orders⟩ := ih run
      refine ⟨(Tables.aside_eraseOrder _ _).trans aside, fun k => ?_⟩
      rw [orders k, write, Tables.eraseOrder_orders, Maps.getElem?_erase, List.map_cons]
      by_cases here : o.id = k
      · simp [here]
      · simp [here, Ne.symm here]

theorem updateAll_orders {u : PUnit}
    (run : (l.forM fun o => Action.change fun s => s.updateOrder o) s = .ok u s') :
    s.tables.Aside s'.tables ∧ ∀ k,
      (∃ o ∈ l, o.id = k ∧ s'.tables.orders[k]? = some o) ∨
        (∀ o ∈ l, o.id ≠ k) ∧ s'.tables.orders[k]? = s.tables.orders[k]? := by
  induction l generalizing s with
  | nil =>
      rw [Action.forM_nil_ok] at run
      simp [run, Tables.Aside.refl]
  | cons o rest ih =>
      obtain ⟨t, first, run⟩ := Action.forM_cons_ok.1 run
      obtain ⟨before, -, -, rfl⟩ := updateOrder_ok.1 (Action.change_ok.1 first)
      obtain ⟨aside, orders⟩ := ih run
      have here : s.tables.Aside (s.tables.replaceOrder o) := ⟨rfl, rfl, rfl⟩
      refine ⟨here.trans aside, fun k => ?_⟩
      have replaced : (s.tables.replaceOrder o).orders[k]? =
          if o.id = k then some o else s.tables.orders[k]? := Maps.getElem?_insert _ _ _ _
      obtain ⟨o', mem, found⟩ | ⟨none, kept⟩ := orders k
      · exact .inl ⟨o', List.mem_cons_of_mem o mem, found⟩
      · rw [kept, write, replaced]
        by_cases here : o.id = k
        · exact .inl ⟨o, List.mem_cons_self, here, by rw [if_pos here]⟩
        · refine .inr ⟨fun o' mem => ?_, by rw [if_neg here]⟩
          obtain rfl | mem := List.mem_cons.1 mem
          · exact here
          · exact none o' mem

/-- The book of a market holds its stored orders. -/
theorem mem_loaded (wf : s.tables.WellFormed) (load : s.loadBook pair = .ok b₀) :
    o ∈ b₀.all ↔ s.tables.orders[o.id]? = some o ∧ o.pair = pair := by
  rw [(Book.ofOrders_ok load).2.2.mem_iff]
  exact wf.mem_ordersOf

theorem writeBack_ok {c : Crossing} {u : Unit} (run : writeBack pair c s = .ok u s') :
    ∃ t t', (c.filled.forM fun o => Action.change fun s => s.removeFilled o) s = .ok ⟨⟩ t ∧
      (c.updated.forM fun o => Action.change fun s => s.updateOrder o) t = .ok ⟨⟩ t' ∧
      (c.lastPrice = none ∧ s' = t' ∨
        ∃ price q, c.lastPrice = some price ∧ t'.pair? pair = some q ∧
          s' = t'.setPair { q with lastPrice := price }) := by
  obtain ⟨_, t, removed, run⟩ := Action.bind_ok.1 run
  obtain ⟨_, t', updated, run⟩ := Action.bind_ok.1 run
  refine ⟨t, t', removed, updated, ?_⟩
  cases noted : c.lastPrice with
  | some price =>
      simp only [noted] at run
      obtain ⟨q, found, same⟩ := setLastPrice_ok (Action.change_ok.1 run)
      exact .inr ⟨price, q, rfl, found, same⟩
  | none =>
      simp only [noted] at run
      exact .inl ⟨rfl, (Action.pure_ok.1 run).2.symm⟩

/-- After a pass the stored orders of the market are those left in the book. -/
theorem writeBack_orders (wf : s.tables.WellFormed) (load : s.loadBook pair = .ok b₀)
    (start : p.From b₀) {u : Unit} (run : writeBack pair p.finish s = .ok u s') (k : OrderId) :
    s'.tables.orders[k]? =
      if k ∈ b₀.all.map (·.id) then p.book.find? k else s.tables.orders[k]? := by
  obtain ⟨t, t', removed, updated, last⟩ := writeBack_ok run
  have stored : s'.tables.orders = t'.tables.orders := by
    obtain ⟨-, rfl⟩ | ⟨_, _, -, -, rfl⟩ := last <;> rfl
  rw [stored]
  obtain ⟨booked, -, apart⟩ := start.apart (Book.ofOrders_ok load).1.ids
  have left : p.finish.filled = p.crossing.filled := rfl
  have kept := (removeAll_orders removed).2 k
  rw [left] at kept
  obtain ⟨o, mem, id, found⟩ | ⟨absent, found⟩ := (updateAll_orders updated).2 k
  · -- An order that was written back is the one in the book.
    obtain ⟨touched, -, booked'⟩ := List.mem_filterMap.1 mem
    have inBook := (Book.find?_eq_some booked).1 booked'
    have still : p.book.find? k = some o := (Book.find?_eq_some booked).2 ⟨inBook.1, id⟩
    rw [found, if_pos (start.known.2 (.inl (id ▸ List.mem_map_of_mem inBook.1))), still]
  · rw [found, kept]
    have untouched : ∀ o ∈ p.book.all, o.id = k → k ∉ p.touched := by
      rintro o mem rfl touched
      have listed : o ∈ p.finish.updated := List.mem_filterMap.2
        ⟨o.id, Std.ExtTreeSet.mem_toList.2 touched, (Book.find?_eq_some booked).2 ⟨mem, rfl⟩⟩
      exact absent o listed rfl
    by_cases inBook : k ∈ p.book.all.map (·.id)
    · obtain ⟨o, mem, rfl⟩ := List.mem_map.1 inBook
      have old := (start.untouched o mem).resolve_left (untouched o mem rfl)
      rw [if_neg (apart _ inBook), if_pos (start.known.2 (.inl inBook)),
        (Book.find?_eq_some booked).2 ⟨mem, rfl⟩]
      exact ((mem_loaded wf load).1 old).1
    · have gone : p.book.find? k = none := by
        cases hit : p.book.find? k with
        | none => rfl
        | some o =>
            obtain ⟨mem, rfl⟩ := (Book.find?_eq_some booked).1 hit
            exact absurd (List.mem_map_of_mem mem) inBook
      by_cases filled : k ∈ p.crossing.filled.map (·.id)
      · rw [if_pos filled, if_pos (start.known.2 (.inr filled)), gone]
      · rw [if_neg filled, if_neg fun mem => (start.known.1 mem).elim inBook filled]

/-- The entries of orders in a table. -/
def entries (orders : List Order) : List (OrderId × Order) := orders.map fun o => (o.id, o)

theorem entries_fst (orders : List Order) : (entries orders).map Prod.fst = orders.map (·.id) := by
  rw [entries, List.map_map]
  rfl

theorem entries_snd (orders : List Order) : (entries orders).map Prod.snd = orders := by
  rw [entries, List.map_map]
  exact List.map_id orders

theorem writeBack_values (wf : s.tables.WellFormed) (load : s.loadBook pair = .ok b₀)
    (start : p.From b₀) {u : Unit} (run : writeBack pair p.finish s = .ok u s') :
    (s'.tables.orders.values ++ b₀.all).Perm (s.tables.orders.values ++ p.book.all) := by
  have sound := (Book.ofOrders_ok load).1
  have booked := (start.apart sound.ids).1
  have known : ∀ o ∈ p.book.all, o.id ∈ b₀.all.map (·.id) := fun o mem =>
    start.known.2 (.inl (List.mem_map_of_mem mem))
  have result := writeBack_orders wf load start run
  have before := Maps.toList_split (m := s.tables.orders) (l := entries b₀.all)
    (by rw [entries_fst]; exact sound.ids)
    (by
      simp only [entries, List.forall_mem_map]
      exact fun o mem => ((mem_loaded wf load).1 mem).1)
    (by
      simp only [entries, List.forall_mem_map]
      exact fun o mem => List.mem_map_of_mem (f := fun o : Order => o.id) mem)
    (by
      rintro k mem v found
      obtain ⟨o, loaded, rfl⟩ := List.mem_map.1 mem
      obtain rfl := Option.some.inj (((mem_loaded wf load).1 loaded).1.symm.trans found)
      exact List.mem_map_of_mem loaded)
  have after := Maps.toList_split (m := s'.tables.orders) (l := entries p.book.all)
    (by rw [entries_fst]; exact booked)
    (by
      simp only [entries, List.forall_mem_map]
      intro o mem
      rw [result, if_pos (known o mem)]
      exact (Book.find?_eq_some booked).2 ⟨mem, rfl⟩)
    (by
      simp only [entries, List.forall_mem_map]
      exact known)
    (by
      rintro k mem v found
      rw [result, if_pos mem] at found
      obtain ⟨inBook, rfl⟩ := (Book.find?_eq_some booked).1 found
      exact List.mem_map_of_mem inBook)
  have agree : ∀ k ∉ b₀.all.map (·.id), s'.tables.orders[k]? = s.tables.orders[k]? :=
    fun k other => by rw [result, if_neg other]
  have perm := (Maps.perm_of_agree agree before after).map Prod.snd
  rwa [List.map_append, List.map_append, entries_snd, entries_snd, ← Maps.values_eq,
    ← Maps.values_eq] at perm

end WriteBack

section Balance

/-- The resting orders of all markets. -/
def resting (s : Store) : List Order := s.tables.orders.values

theorem mem_resting (wf : s.tables.WellFormed) : o ∈ s.resting ↔ s.order? o.id = some o :=
  wf.mem_values

/-- The resting orders have different ids. -/
theorem nodup_resting (wf : s.tables.WellFormed) : (s.resting.map (·.id)).Nodup := by
  have keys : s.resting.map (·.id) = s.tables.orders.keys := by
    rw [resting, Maps.values_eq, List.map_map, ← Std.ExtTreeMap.map_fst_toList_eq_keys]
    refine List.map_congr_left fun entry mem => ?_
    rw [Std.ExtTreeMap.mem_toList_iff_getElem?_eq_some] at mem
    exact wf.order_id entry.1 entry.2 mem
  rw [keys]
  refine (Std.ExtTreeMap.distinct_keys (t := s.tables.orders)).imp fun {k l} distinct same => ?_
  exact distinct (same ▸ Std.ReflCmp.compare_self)

theorem loaded_resting (wf : s.tables.WellFormed) (load : s.loadBook pair = .ok b₀) :
    ∀ o ∈ b₀.all, o ∈ s.resting :=
  fun _ mem => (mem_resting wf).2 ((mem_loaded wf load).1 mem).1

/-- With a new order, that one rests beside what rested. -/
theorem resting_putOrder (run : s.putOrder o = .ok s') : s'.resting.Perm (o :: s.resting) := by
  obtain ⟨-, fresh, rfl⟩ := putOrder_ok.1 run
  have perm := (Maps.toList_insert_perm s.tables.orders o.id o).map Prod.snd
  rwa [← Maps.values_eq, List.map_cons, ← Maps.values_eq,
    Maps.erase_of_none (Std.ExtTreeMap.getElem?_eq_none fresh)] at perm

/-- With an order taken out, what rested is that one and what rests. -/
theorem resting_removeOrder (run : s.removeOrder id = .ok (o, s')) :
    s.resting.Perm (o :: s'.resting) := by
  obtain ⟨found, rfl⟩ := removeOrder_ok.1 run
  have perm := (Maps.toList_erase_perm found).map Prod.snd
  rwa [← Maps.values_eq, List.map_cons, ← Maps.values_eq, ← Tables.eraseOrder_orders] at perm

/-- What left the book filled holds nothing. -/
theorem escrow_orders (start : p.From b₀) (base : Denom) (x : Address) (d : Denom) :
    Order.escrow p.orders base x d = Order.escrow p.book.all base x d := by
  have spent : ∀ l : List Order, (∀ o ∈ l, o.remaining = 0 ∧ o.Closed) →
      Order.escrow l base x d = 0 := by
    intro l
    induction l with
    | nil => exact fun _ => rfl
    | cons o rest ih =>
        intro filled
        obtain ⟨empty, closed⟩ := filled o List.mem_cons_self
        rw [Order.escrow_cons, closed.heldFor empty, ih fun o mem => filled o (.tail _ mem)]
  rw [Pass.orders, Order.escrow_append, spent _ start.filled, Nat.add_zero]

/-- Writing a pass back changes what is held as the pass did. -/
theorem writeBack_escrow (wf : s.tables.WellFormed) (load : s.loadBook pair = .ok b₀)
    (start : p.From b₀) {u : Unit} (run : writeBack pair p.finish s = .ok u s') (base : Denom)
    (x : Address) (d : Denom) :
    Order.escrow s'.resting base x d + Order.escrow b₀.all base x d =
      Order.escrow s.resting base x d + Order.escrow p.orders base x d := by
  have perm : Order.escrow (s'.resting ++ b₀.all) base x d =
      Order.escrow (s.resting ++ p.book.all) base x d :=
    Order.escrow_perm (writeBack_values wf load start run)
  rw [Order.escrow_append, Order.escrow_append] at perm
  rw [escrow_orders start]
  exact perm

theorem matchPair_ok [Build] {seq seq' : Nat} {c : Crossing}
    (run : matchPair v seq pair s = .ok (c, seq') s') :
    ∃ b₀, s.loadBook pair = .ok b₀ ∧ c = (Pass.resting v seq b₀).finish ∧
      seq' = (Pass.resting v seq b₀).nextFill ∧
      (c.trades = [] ∧ s' = s ∨ c.trades ≠ [] ∧ writeBack pair c s = .ok () s') := by
  obtain ⟨b₀, t, asked, run⟩ := Action.bind_ok.1 run
  obtain ⟨load, rfl⟩ := Action.ask_ok.1 asked
  obtain ⟨c', t, asked, run⟩ := Action.bind_ok.1 run
  obtain ⟨ended, rfl⟩ := Action.ask_ok.1 asked
  have finish := Pass.matchResting_outcome ended
  refine ⟨b₀, load, ?_⟩
  by_cases bare : c'.trades = []
  · simp only [Crossing.isEmpty, bare, List.isEmpty_nil, ↓reduceIte] at run
    obtain ⟨out, rfl⟩ := Action.pure_ok.1 run
    obtain ⟨rfl, rfl⟩ := Prod.mk.inj out
    exact ⟨finish, rfl, .inl ⟨bare, rfl⟩⟩
  · have full : c'.isEmpty = false := by simpa [Crossing.isEmpty] using bare
    simp only [full, Bool.false_eq_true, ↓reduceIte] at run
    obtain ⟨_, t, written, run⟩ := Action.bind_ok.1 run
    obtain ⟨out, rfl⟩ := Action.pure_ok.1 run
    obtain ⟨rfl, rfl⟩ := Prod.mk.inj out
    exact ⟨finish, rfl, .inr ⟨bare, written⟩⟩

theorem matchPair_nets [Build] {seq seq' : Nat} {c : Crossing}
    (run : matchPair v seq pair s = .ok (c, seq') s') : Nets v c.trades c.effects := by
  obtain ⟨b₀, load, rfl, -⟩ := matchPair_ok run
  exact (resting_balanced (Book.ofOrders_ok load).1 v seq).net

/-- What a pass settles is what the stored orders hold less afterwards. -/
theorem matchPair_balanced [Build] {seq seq' : Nat} {c : Crossing} (wf : s.tables.WellFormed)
    (run : matchPair v seq pair s = .ok (c, seq') s') :
    Balanced v s.resting s'.resting c.trades c.effects := by
  obtain ⟨b₀, load, rfl, -, written⟩ := matchPair_ok run
  have sound := (Book.ofOrders_ok load).1
  have balanced := resting_balanced sound v seq
  have start := resting_from sound v seq
  obtain ⟨bare, rfl⟩ | ⟨-, written⟩ := written
  · rw [Pass.resting_idle sound bare]
    exact balanced_start v s'.resting
  · refine ⟨fun x d => ?_, balanced.net⟩
    have := balanced.held x d
    have := writeBack_escrow wf load start written v.baseCurrency x d
    omega

theorem nets_releases (v : Venue) (o : Order) : Nets v [] (o.releases v.baseCurrency) := by
  intro x d
  rw [Order.credits_releases, Order.debits_releases, Trade.netSum_nil, Int.add_zero]

/-- A cancellation settles what the order held. -/
theorem cancel_balanced {reason : CancelReason} {out : Order × List Effect}
    (run : s.cancel id reason v.baseCurrency = .ok (out, s')) :
    Balanced v s.resting s'.resting [] out.2 := by
  obtain ⟨o, found, rfl, rfl⟩ := cancel_ok run
  refine ⟨fun x d => ?_, nets_releases v o⟩
  rw [Order.debits_releases, ← Order.escrow_cons]
  exact (Order.escrow_perm (resting_removeOrder (removeOrder_ok.2 ⟨found, rfl⟩))).symm

end Balance

end Store

end Bourse
