import Bourse.Store.Tables
import Bourse.Proofs.Maps
import Mathlib.Data.List.Nodup
import Mathlib.Data.Set.Basic

/-!
# Well-formed tables

Everything is stored under its own id, the index lists exactly the stored orders of each pair, no
entry of it is empty, and the id of every stored order was claimed (`WellFormed`). Every write keeps
this, and the index is then a function of the orders (`WellFormed.ext`).
-/

namespace Bourse.Tables

variable {t t' : Tables} {o before : Order} {p q : PairId} {id k : OrderId} {now : Int}
  {r : DelistRequest}

/-- No pair has an empty entry in the index. -/
def Listed (t : Tables) : Prop :=
  ∀ (p : PairId) (ids : Std.ExtTreeSet OrderId), t.byPair[p]? = some ids → ids ≠ ∅

structure WellFormed (t : Tables) : Prop where
  pair_id : ∀ (p : PairId) (pair : Pair), t.pairs[p]? = some pair → pair.id = p
  order_id : ∀ (k : OrderId) (o : Order), t.orders[k]? = some o → o.id = k
  mem_indexed : ∀ p k, k ∈ t.indexed p ↔ ∃ o : Order, t.orders[k]? = some o ∧ o.pair = p
  listed : t.Listed
  claimed : ∀ k, k ∈ t.orders → k ∈ t.usedIds

section Index

theorem indexed_eq (t : Tables) (p : PairId) : t.indexed p = (t.byPair[p]?).getD ∅ := by
  simp [indexed, Std.ExtTreeMap.getD_eq_getD_getElem?]

theorem indexed_addToIndex :
    (t.addToIndex p id).indexed q = if p = q then (t.indexed p).insert id else t.indexed q := by
  rw [indexed_eq, addToIndex, Maps.getElem?_insert]
  split
  · rfl
  · rw [indexed_eq]

theorem indexed_dropFromIndex :
    (t.dropFromIndex p id).indexed q = if p = q then (t.indexed p).erase id else t.indexed q := by
  rw [indexed_eq, dropFromIndex]
  by_cases bare : ((t.indexed p).erase id).isEmpty
  · simp only [bare, ↓reduceIte, Maps.getElem?_erase]
    split
    · exact (Std.ExtTreeSet.isEmpty_iff.1 bare).symm
    · rw [indexed_eq]
  · simp only [bare, Bool.false_eq_true, ↓reduceIte, Maps.getElem?_insert]
    split
    · rfl
    · rw [indexed_eq]

theorem Listed.addToIndex (listed : t.Listed) : (t.addToIndex p id).Listed := by
  intro q ids found
  rw [Tables.addToIndex, Maps.getElem?_insert] at found
  split at found
  · rw [← Option.some.inj found]
    exact Std.ExtTreeSet.insert_ne_empty
  · exact listed q ids found

/-- A pair without orders has no entry that could be dropped. -/
theorem Listed.dropPairFromIndex (listed : t.Listed) (bare : t.indexed p = ∅) :
    t.dropPairFromIndex p = t := by
  have absent : t.byPair[p]? = none := by
    cases entry : t.byPair[p]? with
    | none => rfl
    | some ids =>
        rw [indexed_eq, entry] at bare
        exact absurd bare (listed p ids entry)
  rw [Tables.dropPairFromIndex, Maps.erase_of_none absent]

theorem Listed.dropFromIndex (listed : t.Listed) : (t.dropFromIndex p id).Listed := by
  intro q ids found
  rw [Tables.dropFromIndex] at found
  by_cases bare : ((t.indexed p).erase id).isEmpty
  · simp only [bare, ↓reduceIte, Maps.getElem?_erase] at found
    split at found
    · cases found
    · exact listed q ids found
  · simp only [bare, Bool.false_eq_true, ↓reduceIte, Maps.getElem?_insert] at found
    split at found
    · rw [← Option.some.inj found]
      exact fun none => bare (Std.ExtTreeSet.isEmpty_iff.2 none)
    · exact listed q ids found

end Index

/-- The index is no freedom: it follows from the orders. -/
theorem WellFormed.ext (wf : t.WellFormed) (wf' : t'.WellFormed) (pairs : t.pairs = t'.pairs)
    (orders : t.orders = t'.orders) (delists : t.delists = t'.delists)
    (used : t.usedIds = t'.usedIds) : t = t' := by
  have indexed : ∀ p, t.indexed p = t'.indexed p := by
    intro p
    apply Std.ExtTreeSet.ext_mem
    intro k
    rw [wf.mem_indexed, wf'.mem_indexed, orders]
  have byPair : t.byPair = t'.byPair := by
    apply Std.ExtTreeMap.ext_getElem?
    intro p
    have same := indexed p
    rw [indexed_eq, indexed_eq] at same
    cases left : t.byPair[p]? with
    | none =>
        cases right : t'.byPair[p]? with
        | none => rfl
        | some ids => exact absurd (by simpa [left, right] using same.symm) (wf'.listed p ids right)
    | some ids =>
        cases right : t'.byPair[p]? with
        | none => exact absurd (by simpa [left, right] using same) (wf.listed p ids left)
        | some ids' => simpa [left, right] using same
  cases t
  cases t'
  simp_all

theorem wellFormed_empty : ({} : Tables).WellFormed where
  pair_id := by simp
  order_id := by simp
  mem_indexed := by simp [indexed_eq]
  listed := by simp [Listed]
  claimed := by simp

section Reading

theorem WellFormed.mem_ordersOf (wf : t.WellFormed) :
    o ∈ t.ordersOf p ↔ t.orders[o.id]? = some o ∧ o.pair = p := by
  simp only [ordersOf, List.mem_filterMap, Std.ExtTreeSet.mem_toList, wf.mem_indexed]
  constructor
  · rintro ⟨k, ⟨o', found, pair⟩, stored⟩
    obtain rfl := Option.some.inj (found.symm.trans stored)
    exact ⟨wf.order_id k o' stored ▸ stored, pair⟩
  · rintro ⟨stored, pair⟩
    exact ⟨o.id, ⟨o, stored, pair⟩, stored⟩

theorem WellFormed.mem_values (wf : t.WellFormed) :
    o ∈ t.orders.values ↔ t.orders[o.id]? = some o := by
  rw [Maps.values_eq, List.mem_map]
  constructor
  · rintro ⟨⟨k, o'⟩, stored, rfl⟩
    rw [Std.ExtTreeMap.mem_toList_iff_getElem?_eq_some] at stored
    exact wf.order_id k o' stored ▸ stored
  · exact fun stored => ⟨(o.id, o), Std.ExtTreeMap.mem_toList_iff_getElem?_eq_some.2 stored, rfl⟩

/-- The orders of a market are listed once. -/
theorem WellFormed.nodup_ordersOf (wf : t.WellFormed) (p : PairId) :
    ((t.ordersOf p).map (·.id)).Nodup := by
  have distinct : (t.indexed p).toList.Nodup := by
    refine (Std.ExtTreeSet.distinct_toList (t := t.indexed p)).imp fun {k l} distinct same => ?_
    exact distinct (same ▸ Std.ReflCmp.compare_self)
  rw [ordersOf, List.map_filterMap]
  refine List.Nodup.filterMap (fun k l id hit hit' => ?_) distinct
  obtain ⟨o, stored, rfl⟩ := Option.map_eq_some_iff.1 hit
  obtain ⟨o', stored', same⟩ := Option.map_eq_some_iff.1 hit'
  rw [← wf.order_id k o stored, ← wf.order_id l o' stored', same]

theorem WellFormed.ordersOf_ascending (wf : t.WellFormed) (p : PairId) :
    (t.ordersOf p).Pairwise fun a b => compare a.id b.id = .lt := by
  rw [ordersOf, List.pairwise_filterMap]
  refine (t.indexed p).ordered_toList.imp fun {k l} less a stored b stored' => ?_
  rw [wf.order_id k a stored, wf.order_id l b stored']
  exact less

/-- The orders of a market are listed from what is stored of them. -/
theorem WellFormed.ordersOf_eq (wf : t.WellFormed) (wf' : t'.WellFormed)
    (same : ∀ o : Order, o.pair = p → (t'.orders[o.id]? = some o ↔ t.orders[o.id]? = some o)) :
    t'.ordersOf p = t.ordersOf p := by
  have stored : ∀ (k : OrderId) (o : Order), o.pair = p →
      (t'.orders[k]? = some o ↔ t.orders[k]? = some o) := by
    intro k o pair
    constructor
    · intro found
      obtain rfl := wf'.order_id k o found
      exact (same o pair).1 found
    · intro found
      obtain rfl := wf.order_id k o found
      exact (same o pair).2 found
  have indexed : t'.indexed p = t.indexed p := by
    apply Std.ExtTreeSet.ext_mem
    intro k
    rw [wf.mem_indexed, wf'.mem_indexed]
    exact exists_congr fun o => and_congr_left fun pair => stored k o pair
  rw [ordersOf, ordersOf, indexed]
  refine List.filterMap_congr fun k mem => ?_
  obtain ⟨o, found, pair⟩ := (wf.mem_indexed p k).1 (Std.ExtTreeSet.mem_toList.1 mem)
  rw [found, (stored k o pair).2 found]

/-- The active markets are those with orders. -/
theorem WellFormed.mem_activePairs (wf : t.WellFormed) :
    p ∈ t.activePairs ↔ ∃ o, o ∈ t.ordersOf p := by
  rw [activePairs, Std.ExtTreeMap.mem_keys, Std.ExtTreeMap.mem_iff_isSome_getElem?]
  have some : (∃ o, o ∈ t.ordersOf p) ↔ ∃ k, k ∈ t.indexed p := by
    constructor
    · rintro ⟨o, mem⟩
      obtain ⟨found, pair⟩ := wf.mem_ordersOf.1 mem
      exact ⟨o.id, (wf.mem_indexed p o.id).2 ⟨o, found, pair⟩⟩
    · rintro ⟨k, mem⟩
      obtain ⟨o, found, pair⟩ := (wf.mem_indexed p k).1 mem
      exact ⟨o, wf.mem_ordersOf.2 ⟨wf.order_id k o found ▸ found, pair⟩⟩
  rw [some, indexed_eq]
  cases entry : t.byPair[p]? with
  | none => simp
  | some ids =>
      have full := wf.listed p ids entry
      rw [Ne, Std.ExtTreeSet.eq_empty_iff_forall_not_mem, not_forall_not] at full
      simpa using full

/-- The index of a market without orders is empty. -/
theorem WellFormed.indexed_eq_empty (wf : t.WellFormed) (none : t.ordersOf p = []) :
    t.indexed p = ∅ := by
  apply Std.ExtTreeSet.ext_mem
  intro k
  simp only [wf.mem_indexed, Std.ExtTreeSet.not_mem_empty, iff_false]
  rintro ⟨o, found, market⟩
  have mem := wf.mem_ordersOf.2 ⟨wf.order_id k o found ▸ found, market⟩
  exact absurd (none ▸ mem) List.not_mem_nil

theorem takeWhile_eq_filter {α : Type} {P : α → Bool} {l : List α}
    (falls : l.Pairwise fun a b => P b = true → P a = true) : l.takeWhile P = l.filter P := by
  induction l with
  | nil => rfl
  | cons a rest ih =>
      obtain ⟨first, falls⟩ := List.pairwise_cons.1 falls
      cases holds : P a with
      | true => rw [List.takeWhile_cons_of_pos holds, List.filter_cons_of_pos holds, ih falls]
      | false =>
          rw [List.takeWhile_cons_of_neg (by simp [holds]),
            List.filter_cons_of_neg (by simp [holds]), eq_comm, List.filter_eq_nil_iff]
          intro b mem holds'
          simp [first b mem holds'] at holds

/-- Requests are listed by time, so the due ones come first. -/
theorem mem_dueDelists : r ∈ t.dueDelists now ↔ r ∈ t.delists ∧ r.isDue now = true := by
  have falls : t.delists.toList.Pairwise fun a b => b.isDue now = true → a.isDue now = true := by
    refine t.delists.ordered_toList.imp fun {a b} less due => ?_
    have le : a.effectiveTime ≤ b.effectiveTime := by
      rcases Ordering.then_eq_lt.1 less with less | ⟨same, -⟩
      · exact (compare_lt_iff_lt.1 less).le
      · exact (compare_eq_iff_eq.1 same).le
    simp only [DelistRequest.isDue, decide_eq_true_eq] at due ⊢
    exact le.trans due
  rw [dueDelists, takeWhile_eq_filter falls, List.mem_filter, Std.ExtTreeSet.mem_toList]

theorem dueDelists_ascending (t : Tables) (now : Int) :
    (t.dueDelists now).Pairwise fun a b => compare a b = .lt :=
  t.delists.ordered_toList.sublist (List.takeWhile_sublist _)

/-- An id that rests was claimed, so it is the claimed ones that are taken. -/
theorem WellFormed.isIdUsed_iff (wf : t.WellFormed) : t.isIdUsed k = true ↔ k ∈ t.usedIds := by
  rw [isIdUsed, Bool.or_eq_true, ← Std.ExtTreeSet.mem_iff_contains,
    ← Std.ExtTreeMap.mem_iff_contains]
  exact or_iff_left_of_imp (wf.claimed k)

end Reading

section Writes

theorem WellFormed.filePair (wf : t.WellFormed) {pair : Pair} (own : pair.id = p) :
    (t.filePair p pair).WellFormed where
  pair_id q pair' found := by
    rw [Tables.filePair, Maps.getElem?_insert] at found
    split at found
    · simp_all
    · exact wf.pair_id q pair' found
  order_id := wf.order_id
  mem_indexed := wf.mem_indexed
  listed := wf.listed
  claimed := wf.claimed

theorem WellFormed.insertPair (wf : t.WellFormed) (pair : Pair) :
    (t.insertPair pair).WellFormed :=
  wf.filePair rfl

theorem WellFormed.erasePair (wf : t.WellFormed) (p : PairId) : (t.erasePair p).WellFormed where
  pair_id q pair found := by
    rw [Tables.erasePair, Maps.getElem?_erase] at found
    split at found
    · cases found
    · exact wf.pair_id q pair found
  order_id := wf.order_id
  mem_indexed := wf.mem_indexed
  listed := wf.listed
  claimed := wf.claimed

theorem WellFormed.withDelists (wf : t.WellFormed) (delists : Std.ExtTreeSet DelistRequest) :
    ({ t with delists } : Tables).WellFormed :=
  ⟨wf.pair_id, wf.order_id, wf.mem_indexed, wf.listed, wf.claimed⟩

theorem WellFormed.useId (wf : t.WellFormed) (id : OrderId) : (t.useId id).WellFormed where
  pair_id := wf.pair_id
  order_id := wf.order_id
  mem_indexed := wf.mem_indexed
  listed := wf.listed
  claimed k stored := Std.ExtTreeSet.mem_insert.2 (.inr (wf.claimed k stored))

theorem insertOrder_orders : (t.insertOrder o).orders = t.orders.insert o.id o := rfl

theorem fileOrder_orders : (t.fileOrder id o).orders = t.orders.insert id o := rfl

theorem fileOrder_indexed : (t.fileOrder id o).indexed q = (t.addToIndex o.pair id).indexed q := rfl

theorem WellFormed.fileOrder (wf : t.WellFormed) (own : o.id = id) (fresh : id ∉ t.orders)
    (claimed : id ∈ t.usedIds) : (t.fileOrder id o).WellFormed where
  pair_id := wf.pair_id
  order_id k o' found := by
    rw [fileOrder_orders, Maps.getElem?_insert] at found
    split at found
    · simp_all
    · exact wf.order_id k o' found
  mem_indexed q k := by
    have absent : t.orders[id]? = none := Std.ExtTreeMap.getElem?_eq_none fresh
    rw [fileOrder_indexed, indexed_addToIndex, fileOrder_orders, Maps.getElem?_insert]
    by_cases here : o.pair = q <;> by_cases same : id = k <;>
      simp_all [wf.mem_indexed, Std.ExtTreeSet.mem_insert, Std.LawfulEqCmp.compare_eq_iff_eq]
  listed := wf.listed.addToIndex
  claimed k stored := by
    rw [fileOrder_orders, Std.ExtTreeMap.mem_insert, Std.LawfulEqCmp.compare_eq_iff_eq] at stored
    exact stored.elim (fun same => same ▸ claimed) (wf.claimed k)

theorem WellFormed.insertOrder (wf : t.WellFormed) (fresh : o.id ∉ t.orders)
    (claimed : o.id ∈ t.usedIds) : (t.insertOrder o).WellFormed :=
  wf.fileOrder rfl fresh claimed

theorem eraseOrder_orders : (t.eraseOrder id).orders = t.orders.erase id := by
  rw [eraseOrder]
  cases found : t.orders[id]? with
  | none => exact (Maps.erase_of_none found).symm
  | some o => rfl

theorem eraseOrder_pairs : (t.eraseOrder id).pairs = t.pairs := by
  rw [eraseOrder]
  split <;> rfl

theorem eraseOrder_delists : (t.eraseOrder id).delists = t.delists := by
  rw [eraseOrder]
  split <;> rfl

theorem eraseOrder_usedIds : (t.eraseOrder id).usedIds = t.usedIds := by
  rw [eraseOrder]
  split <;> rfl

theorem WellFormed.eraseOrder (wf : t.WellFormed) (id : OrderId) :
    (t.eraseOrder id).WellFormed where
  pair_id := by rw [eraseOrder_pairs]; exact wf.pair_id
  order_id k o found := by
    rw [eraseOrder_orders, Maps.getElem?_erase] at found
    split at found
    · cases found
    · exact wf.order_id k o found
  mem_indexed q k := by
    rw [eraseOrder_orders, Maps.getElem?_erase]
    cases found : t.orders[id]? with
    | none =>
        have kept : t.eraseOrder id = t := by rw [Tables.eraseOrder, found]
        rw [kept, wf.mem_indexed]
        by_cases same : id = k <;> simp_all
    | some o =>
        have dropped : (t.eraseOrder id).indexed q = (t.dropFromIndex o.pair id).indexed q := by
          rw [Tables.eraseOrder, found]
          rfl
        rw [dropped, indexed_dropFromIndex]
        by_cases here : o.pair = q <;> by_cases same : id = k <;>
          simp_all [wf.mem_indexed, Std.ExtTreeSet.mem_erase, Std.LawfulEqCmp.compare_eq_iff_eq]
  listed := by
    rw [Tables.eraseOrder]
    split
    · exact wf.listed.dropFromIndex
    · exact wf.listed
  claimed k stored := by
    rw [eraseOrder_orders] at stored
    rw [eraseOrder_usedIds]
    exact wf.claimed k (Std.ExtTreeMap.mem_of_mem_erase stored)

theorem WellFormed.replaceOrder (wf : t.WellFormed) (found : t.orders[o.id]? = some before)
    (same : before.pair = o.pair) : (t.replaceOrder o).WellFormed where
  pair_id := wf.pair_id
  order_id k o' found' := by
    rw [Tables.replaceOrder, Maps.getElem?_insert] at found'
    split at found'
    · simp_all
    · exact wf.order_id k o' found'
  mem_indexed q k := by
    have indexed : (t.replaceOrder o).indexed q = t.indexed q := rfl
    rw [indexed, wf.mem_indexed, Tables.replaceOrder, Maps.getElem?_insert]
    by_cases hit : o.id = k
    · simp [← hit, found, same]
    · simp [hit]
  listed := wf.listed
  claimed k stored := by
    rw [Tables.replaceOrder, Std.ExtTreeMap.mem_insert, Std.LawfulEqCmp.compare_eq_iff_eq] at stored
    refine stored.elim (fun hit => ?_) (wf.claimed k)
    exact hit ▸ wf.claimed _ (Std.ExtTreeMap.mem_iff_isSome_getElem?.2 (by simp [found]))

end Writes

end Bourse.Tables
