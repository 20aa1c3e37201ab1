import Bourse.Proofs.Journal

/-!
# The store after any sequence of operations

* `Edit`: a call of one of the ten writes, which may be refused; `Command`: an edit or a step of the
  journal; `run`: the store after commands, from the empty one;
* `reachable_iff`: these are the reachable stores;
* `run_consistent`: whatever the commands were, the tables and their index agree (`Consistent`);
* `mem_usedIds_edits`: the ids that are used are those ever asked for, in a call granted or refused;
* `run_rollback`: whatever the edits since the journal was opened were, a rollback undoes them.
-/

namespace Bourse.Store

/-- A call of one of the writes. -/
inductive Edit
  | insertPair (p : Pair)
  | setPair (p : Pair)
  | updatePair (p : Pair)
  | removePair (id : PairId)
  | claimId (id : OrderId)
  | putOrder (o : Order)
  | updateOrder (o : Order)
  | removeOrder (id : OrderId)
  | putDelist (r : DelistRequest)
  | removeDelist (r : DelistRequest)

/-- What is written, or why nothing is. -/
def Edit.attempt (s : Store) : Edit → Except Fault Store
  | insertPair p => s.insertPair p
  | setPair p => .ok (s.setPair p)
  | updatePair p => s.updatePair p
  | removePair id => return (← s.removePair id).2
  | claimId id => s.claimId id
  | putOrder o => s.putOrder o
  | updateOrder o => s.updateOrder o
  | removeOrder id => return (← s.removeOrder id).2
  | putDelist r => .ok (s.putDelist r).2
  | removeDelist r => .ok (s.removeDelist r).2

/-- The store after a call; a refused one leaves it as it was. -/
def edit (s : Store) (e : Edit) : Store :=
  match e.attempt s with
  | .ok s' => s'
  | .error _ => s

inductive Command
  | edit (e : Edit)
  | openJournal
  | commit
  | rollback

def perform (s : Store) : Command → Store
  | .edit e => s.edit e
  | .openJournal => s.openJournal
  | .commit => s.commit
  | .rollback => s.rollback

def run (commands : List Command) : Store := commands.foldl perform {}

variable {s s' : Store}

section Edits

theorem Edit.write {e : Edit} (done : e.attempt s = .ok s') : Write s s' := by
  cases e with
  | insertPair p => exact .insertPair done
  | setPair p => exact Except.ok.inj done ▸ .setPair s p
  | updatePair p => exact .updatePair done
  | removePair id =>
      obtain ⟨⟨p, t⟩, removed, done⟩ := Check.bind_ok.1 done
      exact Check.pure_ok.1 done ▸ .removePair removed
  | claimId id => exact .claimId done
  | putOrder o => exact .putOrder done
  | updateOrder o => exact .updateOrder done
  | removeOrder id =>
      obtain ⟨⟨o, t⟩, removed, done⟩ := Check.bind_ok.1 done
      exact Check.pure_ok.1 done ▸ .removeOrder removed
  | putDelist r => exact Except.ok.inj done ▸ .putDelist s r
  | removeDelist r => exact Except.ok.inj done ▸ .removeDelist s r

theorem Write.edit (write : Write s s') : ∃ e : Edit, e.attempt s = .ok s' := by
  cases write with
  | setPair p => exact ⟨.setPair p, rfl⟩
  | insertPair done => exact ⟨.insertPair _, done⟩
  | updatePair done => exact ⟨.updatePair _, done⟩
  | removePair done => exact ⟨.removePair _, Check.bind_ok.2 ⟨_, done, rfl⟩⟩
  | claimId done => exact ⟨.claimId _, done⟩
  | putOrder done => exact ⟨.putOrder _, done⟩
  | updateOrder done => exact ⟨.updateOrder _, done⟩
  | removeOrder done => exact ⟨.removeOrder _, Check.bind_ok.2 ⟨_, done, rfl⟩⟩
  | putDelist r => exact ⟨.putDelist r, rfl⟩
  | removeDelist r => exact ⟨.removeDelist r, rfl⟩

theorem edit_cases (s : Store) (e : Edit) : Write s (s.edit e) ∨ s.edit e = s := by
  rw [edit]
  cases done : e.attempt s with
  | ok s' => exact .inl (e.write done)
  | error fault => exact .inr rfl

theorem edits_extend (s : Store) (edits : List Edit) : Extends s (edits.foldl edit s) := by
  induction edits generalizing s with
  | nil => exact Std.Refl.refl s
  | cons e rest ih =>
      have first : Extends s (s.edit e) := by
        rcases edit_cases s e with write | same
        · exact write.extends
        · rw [same]
          exact Std.Refl.refl s
      exact first.trans (ih (s.edit e))

end Edits

section Commands

theorem Reachable.perform (reachable : Reachable s) (c : Command) : Reachable (s.perform c) := by
  cases c with
  | edit e =>
      rw [Store.perform]
      rcases edit_cases s e with write | same
      · exact reachable.write write
      · rw [same]
        exact reachable
  | openJournal => exact reachable.openJournal
  | commit => exact reachable.commit
  | rollback => exact reachable.rollback

theorem run_append (commands : List Command) (c : Command) :
    run (commands ++ [c]) = (run commands).perform c :=
  List.foldl_append

theorem Reachable.performs (reachable : Reachable s) (commands : List Command) :
    Reachable (commands.foldl Store.perform s) := by
  induction commands generalizing s with
  | nil => exact reachable
  | cons c rest ih => exact ih (reachable.perform c)

theorem run_reachable (commands : List Command) : Reachable (run commands) :=
  Reachable.empty.performs commands

/-- The reachable stores are those after some commands. -/
theorem reachable_iff : Reachable s ↔ ∃ commands, s = run commands := by
  constructor
  · intro reachable
    induction reachable with
    | empty => exact ⟨[], rfl⟩
    | @write s s' _ write ih =>
        obtain ⟨before, rfl⟩ := ih
        obtain ⟨e, done⟩ := write.edit
        refine ⟨before ++ [.edit e], ?_⟩
        rw [run_append, perform, edit, done]
    | openJournal _ ih =>
        obtain ⟨before, rfl⟩ := ih
        exact ⟨before ++ [.openJournal], by rw [run_append, perform]⟩
    | commit _ ih =>
        obtain ⟨before, rfl⟩ := ih
        exact ⟨before ++ [.commit], by rw [run_append, perform]⟩
    | rollback _ ih =>
        obtain ⟨before, rfl⟩ := ih
        exact ⟨before ++ [.rollback], by rw [run_append, perform]⟩
  · rintro ⟨commands, rfl⟩
    exact run_reachable commands

end Commands

/-- The tables and their index agree, the id of a stored order is used, and a used id is not given
again. Which ids are used, `mem_usedIds_edits` says. -/
structure Consistent (s : Store) : Prop where
  pair_id : ∀ {p q}, s.pair? p = some q → q.id = p
  order_id : ∀ {k o}, s.order? k = some o → o.id = k
  mem_ordersOf : ∀ {p o}, o ∈ s.tables.ordersOf p ↔ s.order? o.id = some o ∧ o.pair = p
  ordersOf_sorted : ∀ p, (s.tables.ordersOf p).Pairwise fun a b => compare a.id b.id = .lt
  mem_activePairs : ∀ {p}, p ∈ s.tables.activePairs ↔ ∃ k o, s.order? k = some o ∧ o.pair = p
  activePairs_sorted : s.tables.activePairs.Pairwise fun a b => compare a b = .lt
  isIdUsed_iff : ∀ {k}, s.tables.isIdUsed k = true ↔ k ∈ s.tables.usedIds
  stored_used : ∀ {k o}, s.order? k = some o → k ∈ s.tables.usedIds
  claimId_iff : ∀ {k}, (∃ s', s.claimId k = .ok s') ↔ k ∉ s.tables.usedIds
  putOrder_iff : ∀ {o}, (∃ s', s.putOrder o = .ok s') ↔ o.id ∉ s.tables.usedIds
  mem_dueDelists : ∀ {now r},
    r ∈ s.tables.dueDelists now ↔ r ∈ s.tables.delists ∧ r.effectiveTime ≤ now
  dueDelists_sorted : ∀ now, (s.tables.dueDelists now).Pairwise fun a b =>
    a.effectiveTime < b.effectiveTime ∨
      a.effectiveTime = b.effectiveTime ∧ compare a.pair b.pair = .lt

theorem consistent_of_wellFormed (wf : s.tables.WellFormed) : s.Consistent where
  pair_id := fun {p q} => wf.pair_id p q
  order_id := fun {k o} => wf.order_id k o
  mem_ordersOf := wf.mem_ordersOf
  ordersOf_sorted := wf.ordersOf_ascending
  mem_activePairs := fun {p} => by
    rw [wf.mem_activePairs]
    constructor
    · rintro ⟨o, mem⟩
      exact ⟨o.id, o, wf.mem_ordersOf.1 mem⟩
    · rintro ⟨k, o, found, pair⟩
      exact ⟨o, wf.mem_ordersOf.2 ⟨wf.order_id k o found ▸ found, pair⟩⟩
  activePairs_sorted := s.tables.byPair.ordered_keys
  isIdUsed_iff := wf.isIdUsed_iff
  stored_used := fun {k o} found =>
    wf.claimed k (Std.ExtTreeMap.mem_iff_isSome_getElem?.2 (by rw [← order?, found]; rfl))
  claimId_iff := fun {k} => by
    simp only [claimId_ok]
    constructor
    · rintro ⟨_, unused, -⟩
      exact unused
    · exact fun unused => ⟨_, unused, mt (wf.claimed k) unused, rfl⟩
  putOrder_iff := fun {o} => by
    simp only [putOrder_ok]
    constructor
    · rintro ⟨_, unused, -⟩
      exact unused
    · exact fun unused => ⟨_, unused, mt (wf.claimed o.id) unused, rfl⟩
  mem_dueDelists := by
    simp only [Tables.mem_dueDelists, DelistRequest.isDue, decide_eq_true_eq, implies_true]
  dueDelists_sorted now := by
    refine (s.tables.dueDelists_ascending now).imp fun {a b} less => ?_
    rcases Ordering.then_eq_lt.1 less with less | ⟨same, less⟩
    · exact .inl (compare_lt_iff_lt.1 less)
    · exact .inr ⟨compare_eq_iff_eq.1 same, less⟩

/-- The store is consistent after any commands, refused ones and rollbacks among them. -/
theorem run_consistent (commands : List Command) : (run commands).Consistent :=
  consistent_of_wellFormed (run_reachable commands).sound.tables

section Used

variable {k : OrderId}

/-- The id that a call asks for. -/
def Edit.wanted? : Edit → Option OrderId
  | claimId id => some id
  | putOrder o => some o.id
  | _ => none

theorem Edit.usedIds {e : Edit} (done : e.attempt s = .ok s') :
    s'.tables.usedIds = e.wanted?.elim s.tables.usedIds s.tables.usedIds.insert := by
  cases e with
  | insertPair p =>
      obtain ⟨-, rfl⟩ := insertPair_ok.1 done
      rfl
  | setPair p =>
      obtain rfl := Except.ok.inj done
      rfl
  | updatePair p =>
      obtain ⟨-, rfl⟩ := updatePair_ok done
      rfl
  | removePair id =>
      obtain ⟨⟨p, t⟩, removed, done⟩ := Check.bind_ok.1 done
      exact Check.pure_ok.1 done ▸ (removePair_ok removed).2.2.1
  | claimId id =>
      obtain ⟨-, -, rfl⟩ := claimId_ok.1 done
      rfl
  | putOrder o =>
      obtain ⟨-, -, rfl⟩ := putOrder_ok.1 done
      rfl
  | updateOrder o =>
      obtain ⟨before, -, -, rfl⟩ := updateOrder_ok.1 done
      rfl
  | removeOrder id =>
      obtain ⟨⟨o, t⟩, removed, done⟩ := Check.bind_ok.1 done
      obtain ⟨-, rfl⟩ := removeOrder_ok.1 removed
      exact Check.pure_ok.1 done ▸ Tables.eraseOrder_usedIds
  | putDelist r =>
      obtain rfl := Except.ok.inj done
      rw [putDelist_tables]
      rfl
  | removeDelist r =>
      obtain rfl := Except.ok.inj done
      rw [removeDelist_tables]
      rfl

/-- Only an id in use is refused. -/
theorem Consistent.used_of_refused (consistent : s.Consistent) {e : Edit} {fault : Fault}
    (refused : e.attempt s = .error fault) (wanted : e.wanted? = some k) :
    k ∈ s.tables.usedIds := by
  by_contra unused
  have granted : ∃ s', e.attempt s = .ok s' := by
    cases e with
    | claimId id =>
        obtain rfl := Option.some.inj wanted
        exact consistent.claimId_iff.2 unused
    | putOrder o =>
        obtain rfl := Option.some.inj wanted
        exact consistent.putOrder_iff.2 unused
    | _ => cases wanted
  obtain ⟨s', done⟩ := granted
  cases refused.symm.trans done

theorem Consistent.mem_usedIds_edit (consistent : s.Consistent) (e : Edit) :
    k ∈ (s.edit e).tables.usedIds ↔ k ∈ s.tables.usedIds ∨ e.wanted? = some k := by
  rw [edit]
  cases done : e.attempt s with
  | ok s' =>
      rw [e.usedIds done]
      cases e.wanted? with
      | none => simp
      | some id =>
          simp [Std.ExtTreeSet.mem_insert, Std.LawfulEqCmp.compare_eq_iff_eq, or_comm]
  | error fault => exact (or_iff_left_of_imp (consistent.used_of_refused done)).symm

/-- The ids that are used are those that some call asked for. -/
theorem mem_usedIds_edits (reachable : Reachable s) (edits : List Edit) :
    k ∈ (edits.foldl edit s).tables.usedIds ↔
      k ∈ s.tables.usedIds ∨ ∃ e ∈ edits, e.wanted? = some k := by
  induction edits generalizing s with
  | nil => simp
  | cons e rest ih =>
      have consistent := consistent_of_wellFormed reachable.sound.tables
      have next : Reachable (s.edit e) := reachable.perform (.edit e)
      rw [List.foldl_cons, ih next, consistent.mem_usedIds_edit, List.exists_mem_cons_iff, or_assoc]

end Used

/-- A rollback leads back to where the journal was opened, whatever was written since. -/
theorem run_rollback (commands : List Command) (edits : List Edit) :
    let s := run commands
    let s' := (edits.foldl edit s.openJournal).rollback
    s'.tables = s.tables ∧ s'.journal = none ∧ s'.rollback = s' := by
  intro s s'
  have back : s' = s.commit :=
    rollback_eq_commit (run_reachable commands).sound.tables (edits_extend s.openJournal edits)
  rw [back]
  exact ⟨rfl, rfl, rfl⟩

end Bourse.Store
