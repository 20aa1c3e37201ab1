import Bourse.Proofs.Writes

/-!
# The journal undoes every write

* `Write`: the ten writes of the store; `Reachable`: the stores that they, `openJournal`, `commit`
  and `rollback` lead to, in any order;
* `Extends`: a store after writes, whose journal leads back; `Write.extends`: every write does so;
* `rollback_eq_commit`: hence a rollback restores the tables exactly;
* `Reachable.sound`: the tables of a reachable store are well-formed.
-/

namespace Bourse.Store

/-- One write that was not refused. -/
inductive Write : Store → Store → Prop
  | setPair (s : Store) (p : Pair) : Write s (s.setPair p)
  | insertPair {s s' : Store} {p : Pair} : s.insertPair p = .ok s' → Write s s'
  | updatePair {s s' : Store} {p : Pair} : s.updatePair p = .ok s' → Write s s'
  | removePair {s s' : Store} {id : PairId} {p : Option Pair} :
      s.removePair id = .ok (p, s') → Write s s'
  | claimId {s s' : Store} {id : OrderId} : s.claimId id = .ok s' → Write s s'
  | putOrder {s s' : Store} {o : Order} : s.putOrder o = .ok s' → Write s s'
  | updateOrder {s s' : Store} {o : Order} : s.updateOrder o = .ok s' → Write s s'
  | removeOrder {s s' : Store} {id : OrderId} {o : Order} :
      s.removeOrder id = .ok (o, s') → Write s s'
  | putDelist (s : Store) (r : DelistRequest) : Write s (s.putDelist r).2
  | removeDelist (s : Store) (r : DelistRequest) : Write s (s.removeDelist r).2

inductive Reachable : Store → Prop
  | empty : Reachable {}
  | write {s s' : Store} : Reachable s → Write s s' → Reachable s'
  | openJournal {s : Store} : Reachable s → Reachable s.openJournal
  | commit {s : Store} : Reachable s → Reachable s.commit
  | rollback {s : Store} : Reachable s → Reachable s.rollback

/-- `s'` is `s` after writes: well-formed if `s` is, and its journal leads back to `s`. -/
def Extends (s s' : Store) : Prop :=
  s.tables.WellFormed → s'.tables.WellFormed ∧
    ∃ undos, s'.journal = s.journal.map (undos ++ ·) ∧
      undos.foldl Undo.apply s'.tables = s.tables

variable {s s' s'' : Store}

instance : Std.Refl Extends := ⟨fun s wf => ⟨wf, [], by simp, rfl⟩⟩

theorem Extends.trans (first : Extends s s') (second : Extends s' s'') : Extends s s'' := by
  intro wf
  obtain ⟨wf', undos, journal, back⟩ := first wf
  obtain ⟨wf'', undos', journal', back'⟩ := second wf'
  refine ⟨wf'', undos' ++ undos, ?_, by rw [List.foldl_append, back', back]⟩
  rw [journal', journal, Option.map_map]
  congr 1
  funext rest
  simp

instance : Trans Extends Extends Extends := ⟨Extends.trans⟩

/-- A write is undone if applying its inverse leads back. -/
theorem extends_write {undo : Undo} {tables : Tables}
    (keeps : s.tables.WellFormed → tables.WellFormed)
    (back : s.tables.WellFormed → undo.apply tables = s.tables) :
    Extends s (s.write undo tables) :=
  fun wf => ⟨keeps wf, [undo], rfl, back wf⟩

section Writes

/-- A pair that was overwritten or removed can be put back, and one that is new taken out. -/
theorem restore_pair {t : Tables} {id : PairId} (wf : s.tables.WellFormed) (wf' : t.WellFormed)
    (pairs : ∀ q, id ≠ q → t.pairs[q]? = s.tables.pairs[q]?) (orders : t.orders = s.tables.orders)
    (delists : t.delists = s.tables.delists) (usedIds : t.usedIds = s.tables.usedIds) :
    Undo.apply t (.pair id (s.pair? id)) = s.tables := by
  cases found : s.pair? id with
  | none =>
      refine (wf'.erasePair id).ext wf ?_ orders delists usedIds
      apply Std.ExtTreeMap.ext_getElem?
      intro q
      rw [Tables.erasePair, Maps.getElem?_erase]
      split
      · next same => rw [← same, ← found, pair?]
      · next other => exact pairs q other
  | some before =>
      refine (wf'.filePair (wf.pair_id id before found)).ext wf ?_ orders delists usedIds
      apply Std.ExtTreeMap.ext_getElem?
      intro q
      rw [Tables.filePair, Maps.getElem?_insert]
      split
      · next same => rw [← same, ← found, pair?]
      · next other => exact pairs q other

theorem setPair_extends (s : Store) (p : Pair) : Extends s (s.setPair p) := by
  apply extends_write (fun wf => wf.insertPair p)
  intro wf
  refine restore_pair wf (wf.insertPair p) (fun q other => ?_) rfl rfl rfl
  rw [Tables.insertPair, Tables.filePair, Maps.getElem?_insert, if_neg other]

theorem removeDelist_extends (s : Store) (r : DelistRequest) : Extends s (s.removeDelist r).2 := by
  rw [removeDelist]
  split
  · next found =>
      apply extends_write (fun wf => wf.withDelists _)
      intro wf
      have back := Maps.insert_erase (Std.ExtTreeSet.mem_iff_contains.2 found)
      simp only [Undo.apply, Tables.insertDelist, back]
  · exact Std.Refl.refl s

theorem removeDelists_extends (l : List DelistRequest) (s : Store) :
    Extends s (l.foldl (fun s r => (s.removeDelist r).2) s) := by
  induction l generalizing s with
  | nil => exact Std.Refl.refl s
  | cons r rest ih => exact (removeDelist_extends s r).trans (ih _)

theorem putDelist_extends (s : Store) (r : DelistRequest) : Extends s (s.putDelist r).2 := by
  rw [putDelist]
  split
  · exact Std.Refl.refl s
  · next absent =>
      apply extends_write (fun wf => wf.withDelists _)
      intro wf
      have back := Maps.erase_insert (mt Std.ExtTreeSet.mem_iff_contains.1 absent)
      simp only [Undo.apply, Tables.eraseDelist, back]

theorem removePair_extends {id : PairId} {p : Option Pair} (run : s.removePair id = .ok (p, s')) :
    Extends s s' := by
  rw [removePair] at run
  split at run
  · cases run
  · next bare =>
      intro wf
      -- The drop is not journalled, so it must not change anything.
      have kept := wf.listed.dropPairFromIndex (p := id) (by simpa using bare)
      have swept :=
        removeDelists_extends (s.tables.delists.toList.filter fun r => r.pair == id) s
      dsimp only at run
      rw [kept] at run
      generalize (s.tables.delists.toList.filter fun r => r.pair == id).foldl
        (fun s r => (s.removeDelist r).2) s = t at run swept
      cases found : t.pair? id with
      | none =>
          simp only [found, Except.ok.injEq, Prod.mk.injEq] at run
          exact run.2 ▸ swept wf
      | some pair =>
          simp only [found, Except.ok.injEq, Prod.mk.injEq] at run
          rw [← run.2]
          refine swept.trans (extends_write (fun wf => wf.erasePair id) fun wf => ?_) wf
          rw [← found]
          refine restore_pair wf (wf.erasePair id) (fun q other => ?_) rfl rfl rfl
          rw [Tables.erasePair, Maps.getElem?_erase, if_neg other]

theorem claimId_extends {id : OrderId} (run : s.claimId id = .ok s') : Extends s s' := by
  obtain ⟨unused, -, rfl⟩ := claimId_ok.1 run
  apply extends_write (fun wf => wf.useId id)
  intro wf
  rw [Undo.apply, Tables.freeId, Tables.useId, Maps.erase_insert unused]

theorem putOrder_extends {o : Order} (run : s.putOrder o = .ok s') : Extends s s' := by
  obtain ⟨unused, fresh, rfl⟩ := putOrder_ok.1 run
  have claim := claimId_extends (claimId_ok.2 ⟨unused, fresh, rfl⟩)
  have used : o.id ∈ (s.tables.useId o.id).usedIds := Std.ExtTreeSet.mem_insert_self
  refine claim.trans (extends_write (fun wf => wf.insertOrder fresh used) fun wf => ?_)
  refine ((wf.insertOrder fresh used).eraseOrder o.id).ext wf ?_ ?_ ?_ ?_
  · exact Tables.eraseOrder_pairs
  · rw [Tables.eraseOrder_orders, Tables.insertOrder_orders]
    apply Std.ExtTreeMap.ext_getElem?
    intro k
    rw [Maps.getElem?_erase, Maps.getElem?_insert]
    split
    · next same => rw [← same]; exact (Std.ExtTreeMap.getElem?_eq_none fresh).symm
    · rfl
  · exact Tables.eraseOrder_delists
  · exact Tables.eraseOrder_usedIds

/-- An order that was replaced or removed can be put back. -/
theorem restore_order {t : Tables} {id : OrderId} {before : Order} (wf : s.tables.WellFormed)
    (found : s.order? id = some before) (wf' : t.WellFormed) (aside : s.tables.Aside t)
    (orders : ∀ k, id ≠ k → t.orders[k]? = s.tables.orders[k]?) :
    (t.eraseOrder id).fileOrder id before = s.tables := by
  have used : id ∈ s.tables.usedIds :=
    wf.claimed id (Std.ExtTreeMap.mem_iff_isSome_getElem?.2 (by rw [← order?, found]; rfl))
  have restored := (wf'.eraseOrder id).fileOrder (wf.order_id id before found)
    (by simp [Tables.eraseOrder_orders])
    (by rw [Tables.eraseOrder_usedIds, aside.usedIds]; exact used)
  refine restored.ext wf ?_ ?_ ?_ ?_
  · exact Tables.eraseOrder_pairs.trans aside.pairs
  · apply Std.ExtTreeMap.ext_getElem?
    intro k
    rw [Tables.fileOrder_orders, Tables.eraseOrder_orders, Maps.getElem?_insert,
      Maps.getElem?_erase]
    split
    · next hit => rw [← hit, ← found, order?]
    · next other => exact orders k other
  · exact Tables.eraseOrder_delists.trans aside.delists
  · exact Tables.eraseOrder_usedIds.trans aside.usedIds

theorem updateOrder_extends {o : Order} (run : s.updateOrder o = .ok s') : Extends s s' := by
  obtain ⟨before, found, same, rfl⟩ := updateOrder_ok.1 run
  apply extends_write (fun wf => wf.replaceOrder found same)
  intro wf
  apply restore_order wf found (wf.replaceOrder found same) ⟨rfl, rfl, rfl⟩
  intro k other
  rw [Tables.replaceOrder, Maps.getElem?_insert, if_neg other]

theorem removeOrder_extends {id : OrderId} {o : Order} (run : s.removeOrder id = .ok (o, s')) :
    Extends s s' := by
  obtain ⟨found, rfl⟩ := removeOrder_ok.1 run
  apply extends_write (fun wf => wf.eraseOrder id)
  intro wf
  apply restore_order wf found (wf.eraseOrder id) (s.tables.aside_eraseOrder id)
  intro k other
  rw [Tables.eraseOrder_orders, Maps.getElem?_erase, if_neg other]

theorem insertPair_extends {p : Pair} (run : s.insertPair p = .ok s') : Extends s s' := by
  obtain ⟨-, rfl⟩ := insertPair_ok.1 run
  exact setPair_extends s p

theorem updatePair_extends {p : Pair} (run : s.updatePair p = .ok s') : Extends s s' := by
  obtain ⟨-, rfl⟩ := updatePair_ok run
  exact setPair_extends s p

/-- Every write notes how it is undone. -/
theorem Write.extends (write : Write s s') : Extends s s' := by
  cases write with
  | setPair p => exact setPair_extends s p
  | insertPair run => exact insertPair_extends run
  | updatePair run => exact updatePair_extends run
  | removePair run => exact removePair_extends run
  | claimId run => exact claimId_extends run
  | putOrder run => exact putOrder_extends run
  | updateOrder run => exact updateOrder_extends run
  | removeOrder run => exact removeOrder_extends run
  | putDelist r => exact putDelist_extends s r
  | removeDelist r => exact removeDelist_extends s r

end Writes

/-- Writes on a new journal are taken back in full; a journal that was open is gone. -/
theorem rollback_eq_commit (wf : s.tables.WellFormed) (writes : Extends s.openJournal s') :
    s'.rollback = s.commit := by
  obtain ⟨-, undos, journal, back⟩ := writes wf
  have noted : s'.journal = some undos := by simpa [openJournal] using journal
  rw [rollback, noted]
  change (⟨undos.foldl Undo.apply s'.tables, none⟩ : Store) = s.commit
  rw [back]
  rfl

theorem rollback_of_extends (wf : s.tables.WellFormed) (idle : s.journal = none)
    (writes : Extends s.openJournal s') : s'.rollback = s := by
  rw [rollback_eq_commit wf writes, commit, ← idle]

/-- The tables are well-formed, and so are those that the open journal leads back to. -/
structure Sound (s : Store) : Prop where
  tables : s.tables.WellFormed
  journal : ∀ undos, s.journal = some undos →
    (undos.foldl Undo.apply s.tables).WellFormed

theorem Reachable.sound (reachable : Reachable s) : s.Sound := by
  induction reachable with
  | empty => exact ⟨Tables.wellFormed_empty, nofun⟩
  | write _ write ih =>
      obtain ⟨wf, undos, journal, back⟩ := write.extends ih.tables
      refine ⟨wf, fun all noted => ?_⟩
      obtain ⟨rest, before, rfl⟩ := Option.map_eq_some_iff.1 (journal.symm.trans noted)
      rw [List.foldl_append, back]
      exact ih.journal rest before
  | openJournal _ ih => exact ⟨ih.tables, fun undos noted => by cases noted; exact ih.tables⟩
  | commit _ ih => exact ⟨ih.tables, nofun⟩
  | @rollback s _ ih =>
      cases noted : s.journal with
      | none =>
          rw [show s.rollback = s by rw [Store.rollback, noted]]
          exact ih
      | some undos =>
          rw [show s.rollback = ⟨undos.foldl Undo.apply s.tables, none⟩ by
            rw [Store.rollback, noted]]
          exact ⟨ih.journal undos noted, nofun⟩

end Bourse.Store
