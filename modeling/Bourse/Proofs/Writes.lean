import Bourse.Resting
import Bourse.Proofs.Action
import Bourse.Proofs.Tables

/-!
# What each write of the store does

One lemma for each write, on when it is not refused and which tables it leaves. `Aside` says that a
write was aside from everything but the orders and their index.
-/

namespace Bourse

/-- At most the orders and their index differ. -/
structure Tables.Aside (t t' : Tables) : Prop where
  pairs : t'.pairs = t.pairs
  delists : t'.delists = t.delists
  usedIds : t'.usedIds = t.usedIds

theorem Tables.Aside.refl (t : Tables) : t.Aside t := ⟨rfl, rfl, rfl⟩

theorem Tables.Aside.trans {t t' t'' : Tables} (first : t.Aside t') (second : t'.Aside t'') :
    t.Aside t'' :=
  ⟨second.pairs.trans first.pairs, second.delists.trans first.delists,
    second.usedIds.trans first.usedIds⟩

theorem Tables.aside_eraseOrder (t : Tables) (id : OrderId) : t.Aside (t.eraseOrder id) :=
  ⟨t.eraseOrder_pairs, t.eraseOrder_delists, t.eraseOrder_usedIds⟩

namespace Store

variable {s s' : Store} {o : Order} {p : Pair} {id : OrderId} {pair q : PairId} {price : Decimal}
  {base : Denom} {r : DelistRequest}

section Orders

theorem claimId_ok : s.claimId id = .ok s' ↔
    id ∉ s.tables.usedIds ∧ id ∉ s.tables.orders ∧
      s' = s.write (.idUsed id) (s.tables.useId id) := by
  rw [claimId, Std.ExtTreeSet.mem_iff_contains, Std.ExtTreeMap.mem_iff_contains]
  by_cases used : s.tables.usedIds.contains id <;> by_cases stored : s.tables.orders.contains id <;>
    simp [Tables.isIdUsed, used, stored, eq_comm]

theorem putOrder_ok : s.putOrder o = .ok s' ↔
    o.id ∉ s.tables.usedIds ∧ o.id ∉ s.tables.orders ∧
      s' = (s.write (.idUsed o.id) (s.tables.useId o.id)).write (.order o.id none)
        ((s.tables.useId o.id).insertOrder o) := by
  rw [putOrder, Check.bind_ok]
  simp only [claimId_ok, Check.pure_ok]
  constructor
  · rintro ⟨t, ⟨unused, absent, rfl⟩, rfl⟩
    exact ⟨unused, absent, rfl⟩
  · rintro ⟨unused, absent, rfl⟩
    exact ⟨_, ⟨unused, absent, rfl⟩, rfl⟩

theorem removeOrder_ok : s.removeOrder id = .ok (o, s') ↔
    s.order? id = some o ∧ s' = s.write (.order id (some o)) (s.tables.eraseOrder id) := by
  rw [removeOrder]
  cases s.order? id with
  | none => simp
  | some found =>
      simp only [Except.ok.injEq, Prod.mk.injEq, Option.some.injEq]
      exact ⟨fun ⟨same, eq⟩ => ⟨same, same ▸ eq.symm⟩, fun ⟨same, eq⟩ => ⟨same, same ▸ eq.symm⟩⟩

theorem updateOrder_ok : s.updateOrder o = .ok s' ↔
    ∃ before, s.order? o.id = some before ∧ before.pair = o.pair ∧
      s' = s.write (.order o.id (some before)) (s.tables.replaceOrder o) := by
  rw [updateOrder]
  cases s.order? o.id with
  | none => simp
  | some before => by_cases same : before.pair = o.pair <;> simp [same, eq_comm (a := s')]

theorem removeFilled_ok : s.removeFilled o = .ok s' ↔
    ∃ found, s.removeOrder o.id = .ok (found, s') := by
  rw [removeFilled]
  cases s.removeOrder o.id with
  | error fault => simp
  | ok out => simp [Prod.ext_iff]

theorem cancel_ok {reason : CancelReason} {out : Order × List Effect}
    (run : s.cancel id reason base = .ok (out, s')) :
    ∃ o, s.order? id = some o ∧
      out = ({ o.released with status := reason.status }, o.releases base) ∧
      s' = s.write (.order id (some o)) (s.tables.eraseOrder id) := by
  obtain ⟨⟨o, t⟩, removed, run⟩ := Check.bind_ok.1 run
  obtain ⟨found, rfl⟩ := removeOrder_ok.1 removed
  obtain ⟨same, eq⟩ := Prod.mk.inj (Check.pure_ok.1 run)
  exact ⟨o, found, same.symm, eq.symm⟩

end Orders

section Pairs

theorem hasPair_eq (s : Store) (p : PairId) : s.hasPair p = (s.pair? p).isSome :=
  Std.ExtTreeMap.contains_eq_isSome_getElem?

theorem insertPair_ok : s.insertPair p = .ok s' ↔ s.pair? p.id = none ∧ s' = s.setPair p := by
  rw [insertPair, hasPair_eq]
  cases s.pair? p.id <;> simp [eq_comm]

theorem updatePair_ok (run : s.updatePair p = .ok s') :
    (s.pair? p.id).isSome ∧ s' = s.setPair p := by
  rw [updatePair, hasPair_eq] at run
  split at run
  · next has => exact ⟨has, (Except.ok.inj run).symm⟩
  · cases run

theorem pair?_setPair : (s.setPair p).pair? q = if p.id = q then some p else s.pair? q :=
  Maps.getElem?_insert _ _ _ _

theorem setLastPrice_ok (run : s.setLastPrice pair price = .ok s') :
    ∃ p, s.pair? pair = some p ∧ s' = s.setPair { p with lastPrice := price } := by
  rw [setLastPrice] at run
  cases found : s.pair? pair with
  | none => simp [found] at run
  | some p =>
      simp only [found] at run
      exact ⟨p, rfl, (updatePair_ok run).2⟩

theorem putDelist_tables (s : Store) (r : DelistRequest) :
    (s.putDelist r).2.tables = { s.tables with delists := s.tables.delists.insert r } := by
  rw [putDelist]
  split
  · next known => rw [Maps.insert_of_mem (Std.ExtTreeSet.mem_iff_contains.2 known)]
  · rfl

theorem removeDelist_tables (s : Store) (r : DelistRequest) :
    (s.removeDelist r).2.tables = { s.tables with delists := s.tables.delists.erase r } := by
  rw [removeDelist]
  split
  · rfl
  · next absent => rw [Maps.erase_of_not_mem (mt Std.ExtTreeSet.mem_iff_contains.1 absent)]

/-- Requests are removed one by one. -/
theorem removeDelists_tables (l : List DelistRequest) (s : Store) :
    ∃ delists, (∀ r, r ∈ delists ↔ r ∈ s.tables.delists ∧ r ∉ l) ∧
      (l.foldl (fun s r => (s.removeDelist r).2) s).tables = { s.tables with delists } := by
  induction l generalizing s with
  | nil => exact ⟨s.tables.delists, by simp, rfl⟩
  | cons r rest ih =>
      obtain ⟨delists, mem, eq⟩ := ih (s.removeDelist r).2
      refine ⟨delists, fun k => ?_, by rw [List.foldl_cons, eq, removeDelist_tables]⟩
      rw [mem, removeDelist_tables, Std.ExtTreeSet.mem_erase, Ne,
        Std.LawfulEqCmp.compare_eq_iff_eq, List.mem_cons, not_or, eq_comm (a := r)]
      tauto

/-- A pair leaves with its entry in the index and with the requests that name it. -/
theorem removePair_tables {out : Option Pair} (run : s.removePair pair = .ok (out, s')) :
    s.tables.indexed pair = ∅ ∧
      ∃ delists, (∀ r, r ∈ delists ↔ r ∈ s.tables.delists ∧ r.pair ≠ pair) ∧
        s'.tables = { s.tables with
          pairs := s.tables.pairs.erase pair
          byPair := s.tables.byPair.erase pair
          delists } := by
  rw [removePair] at run
  split at run
  · cases run
  · next bare =>
      obtain ⟨delists, mem, eq⟩ := removeDelists_tables
        (s.tables.delists.toList.filter fun r => r.pair == pair)
        { s with tables := s.tables.dropPairFromIndex pair }
      refine ⟨by simpa using bare, delists, fun r => ?_, ?_⟩
      · rw [mem, Tables.dropPairFromIndex, List.mem_filter, Std.ExtTreeSet.mem_toList, beq_iff_eq]
        tauto
      · dsimp only at run
        rw [Tables.dropPairFromIndex] at run eq
        generalize List.foldl _ _ _ = t at run eq
        cases known : t.pair? pair with
        | some p =>
            simp only [known, Except.ok.injEq, Prod.mk.injEq] at run
            rw [← run.2, write, eq]
            rfl
        | none =>
            simp only [known, Except.ok.injEq, Prod.mk.injEq] at run
            rw [pair?, eq] at known
            rw [← run.2, eq, Maps.erase_of_none known]

theorem removePair_ok {out : Option Pair} (run : s.removePair pair = .ok (out, s')) :
    s.tables.indexed pair = ∅ ∧ s'.tables.orders = s.tables.orders ∧
      s'.tables.usedIds = s.tables.usedIds ∧ s'.tables.pairs = s.tables.pairs.erase pair := by
  obtain ⟨bare, delists, -, tables⟩ := removePair_tables run
  rw [tables]
  exact ⟨bare, rfl, rfl, rfl⟩

theorem removePair_delists {out : Option Pair} (run : s.removePair pair = .ok (out, s')) :
    r ∈ s'.tables.delists ↔ r ∈ s.tables.delists ∧ r.pair ≠ pair := by
  obtain ⟨-, delists, mem, tables⟩ := removePair_tables run
  rw [tables]
  exact mem r

/-- A pair without orders can be removed. -/
theorem removePair_total (bare : s.tables.indexed pair = ∅) :
    ∃ out s', s.removePair pair = .ok (out, s') := by
  rw [removePair, if_neg (by simp [bare])]
  dsimp only
  split
  · exact ⟨_, _, rfl⟩
  · exact ⟨_, _, rfl⟩

end Pairs

end Store

end Bourse
