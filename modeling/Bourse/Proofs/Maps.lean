import Mathlib.Algebra.BigOperators.Group.List.Basic
import Mathlib.Algebra.Ring.Int.Defs
import Mathlib.Algebra.Ring.Nat
import Mathlib.Data.List.Nodup
import Mathlib.Data.List.Perm.Basic
import Std.Data.ExtTreeMap
import Std.Data.ExtTreeSet

/-!
# The entries of a map as a list

* `toList_insert_perm`, `toList_erase_perm`: what an insertion and a removal do to the entries, up
  to their order;
* `sum_insert`, `sum_erase`: hence to a sum over the entries;
* `perm_of_agree`: two maps that agree off some keys differ by the entries at these keys;
* `erase_insert`, `insert_erase`: an insertion into a set and a removal from it undo each other.
-/

namespace Bourse.Maps

open Std
open scoped List

variable {α β : Type} {cmp : α → α → Ordering} [TransCmp cmp]

theorem values_eq (m : ExtTreeMap α β cmp) : m.values = m.toList.map Prod.snd := by
  obtain ⟨⟨inner⟩⟩ := m
  induction inner using Quotient.inductionOn with
  | _ t =>
      change t.inner.values = (DTreeMap.Internal.Impl.Const.toList t.inner).map Prod.snd
      rw [DTreeMap.Internal.Impl.values_eq_map_snd,
        DTreeMap.Internal.Impl.Const.toList_eq_toListModel_map]
      simp

variable [LawfulEqCmp cmp]

theorem nodup_toList (m : ExtTreeMap α β cmp) : m.toList.Nodup := by
  refine m.distinct_keys_toList.imp fun {a b} distinct eq => distinct ?_
  rw [eq]
  exact ReflCmp.compare_self

theorem getElem?_insert (m : ExtTreeMap α β cmp) (k l : α) (v : β) [Decidable (k = l)] :
    (m.insert k v)[l]? = if k = l then some v else m[l]? := by
  simp [ExtTreeMap.getElem?_insert, LawfulEqCmp.compare_eq_iff_eq]

theorem getElem?_erase (m : ExtTreeMap α β cmp) (k l : α) [Decidable (k = l)] :
    (m.erase k)[l]? = if k = l then none else m[l]? := by
  simp [ExtTreeMap.getElem?_erase, LawfulEqCmp.compare_eq_iff_eq]

theorem toList_insert_perm [DecidableEq α] (m : ExtTreeMap α β cmp) (k : α) (v : β) :
    (m.insert k v).toList.Perm ((k, v) :: (m.erase k).toList) := by
  have absent : (k, v) ∉ (m.erase k).toList := by
    simp [ExtTreeMap.mem_toList_iff_getElem?_eq_some]
  refine (List.perm_ext_iff_of_nodup (nodup_toList _)
    (List.nodup_cons.2 ⟨absent, nodup_toList _⟩)).2 ?_
  rintro ⟨l, w⟩
  simp only [ExtTreeMap.mem_toList_iff_getElem?_eq_some, List.mem_cons, Prod.mk.injEq,
    getElem?_insert, getElem?_erase]
  by_cases h : k = l
  · simp [h, eq_comm]
  · simp [h, Ne.symm h]

theorem toList_erase_perm [DecidableEq α] {m : ExtTreeMap α β cmp} {k : α} {v : β}
    (found : m[k]? = some v) : m.toList.Perm ((k, v) :: (m.erase k).toList) := by
  have same : m.insert k v = m := by
    apply ExtTreeMap.ext_getElem?
    intro l
    rw [getElem?_insert]
    split
    · next h => rw [← h, found]
    · rfl
  exact (congrArg ExtTreeMap.toList same).symm ▸ toList_insert_perm m k v

theorem erase_of_none [DecidableEq α] {m : ExtTreeMap α β cmp} {k : α} (absent : m[k]? = none) :
    m.erase k = m := by
  apply ExtTreeMap.ext_getElem?
  intro l
  rw [getElem?_erase]
  split
  · next h => rw [← h, absent]
  · rfl

section Sums

variable [DecidableEq α] (g : α × β → Nat) (m : ExtTreeMap α β cmp) (k : α)

theorem sum_erase :
    ((m.erase k).toList.map g).sum + (m[k]?.elim 0 fun v => g (k, v)) = (m.toList.map g).sum := by
  cases found : m[k]? with
  | none => simp [erase_of_none found]
  | some v =>
      rw [((toList_erase_perm found).map g).sum_eq]
      simp [Nat.add_comm]

theorem sum_insert (v : β) :
    ((m.insert k v).toList.map g).sum + (m[k]?.elim 0 fun v => g (k, v)) =
      (m.toList.map g).sum + g (k, v) := by
  rw [((toList_insert_perm m k v).map g).sum_eq, List.map_cons, List.sum_cons, ← sum_erase g m k]
  omega

theorem le_sum {v : β} (found : m[k]? = some v) : g (k, v) ≤ (m.toList.map g).sum := by
  have := sum_erase g m k
  rw [found, Option.elim_some] at this
  omega

end Sums

/-- The entries of a map with those under `keys` in front. -/
theorem toList_split [DecidableEq α] {m : ExtTreeMap α β cmp} {l : List (α × β)}
    (distinct : (l.map Prod.fst).Nodup) (stored : ∀ e ∈ l, m[e.1]? = some e.2)
    {keys : List α} (covered : ∀ e ∈ l, e.1 ∈ keys)
    (exact : ∀ k ∈ keys, ∀ v, m[k]? = some v → (k, v) ∈ l) :
    m.toList.Perm (l ++ m.toList.filter fun e => e.1 ∉ keys) := by
  refine (List.perm_ext_iff_of_nodup (nodup_toList _) ?_).2 ?_
  · refine List.nodup_append.2 ⟨List.Nodup.of_map _ distinct, (nodup_toList m).filter _, ?_⟩
    rintro e inList f inRest rfl
    simp only [List.mem_filter, decide_eq_true_eq] at inRest
    exact inRest.2 (covered e inList)
  · rintro ⟨k, v⟩
    simp only [List.mem_append, List.mem_filter, decide_eq_true_eq,
      ExtTreeMap.mem_toList_iff_getElem?_eq_some]
    by_cases h : k ∈ keys
    · simp only [h, not_true_eq_false, and_false, or_false]
      exact ⟨exact k h v, stored (k, v)⟩
    · simp only [h, not_false_eq_true, and_true, iff_or_self]
      exact fun inList => absurd (covered (k, v) inList) h

/-- Two maps that agree off `keys`, with the entries `l` and `l'` under them. -/
theorem perm_of_agree [DecidableEq α] {m m' : ExtTreeMap α β cmp} {l l' : List (α × β)}
    {keys : List α} (agree : ∀ k ∉ keys, m'[k]? = m[k]?)
    (split : m.toList.Perm (l ++ m.toList.filter fun e => e.1 ∉ keys))
    (split' : m'.toList.Perm (l' ++ m'.toList.filter fun e => e.1 ∉ keys)) :
    (m'.toList ++ l).Perm (m.toList ++ l') := by
  have rest : (m'.toList.filter fun e => e.1 ∉ keys).Perm
      (m.toList.filter fun e => e.1 ∉ keys) := by
    apply (List.perm_ext_iff_of_nodup ((nodup_toList _).filter _) ((nodup_toList _).filter _)).2
    rintro ⟨k, v⟩
    simp only [List.mem_filter, decide_eq_true_eq, ExtTreeMap.mem_toList_iff_getElem?_eq_some]
    exact and_congr_left fun off => by rw [agree k off]
  calc
    m'.toList ++ l
      ~ (l' ++ m'.toList.filter fun e => e.1 ∉ keys) ++ l := split'.append_right l
    _ ~ (l' ++ m.toList.filter fun e => e.1 ∉ keys) ++ l := (rest.append_left l').append_right l
    _ ~ l ++ (l' ++ m.toList.filter fun e => e.1 ∉ keys) := List.perm_append_comm
    _ ~ l ++ ((m.toList.filter fun e => e.1 ∉ keys) ++ l') := List.perm_append_comm.append_left l
    _ ~ (l ++ m.toList.filter fun e => e.1 ∉ keys) ++ l' := by rw [List.append_assoc]
    _ ~ m.toList ++ l' := split.symm.append_right l'

section Sets

variable {s : ExtTreeSet α cmp} {k : α}

theorem insert_of_mem (mem : k ∈ s) : s.insert k = s := by
  apply ExtTreeSet.ext_mem
  intro l
  rw [ExtTreeSet.mem_insert, LawfulEqCmp.compare_eq_iff_eq]
  exact or_iff_right_of_imp fun same => same ▸ mem

theorem erase_of_not_mem (absent : k ∉ s) : s.erase k = s := by
  apply ExtTreeSet.ext_mem
  intro l
  rw [ExtTreeSet.mem_erase, Ne, LawfulEqCmp.compare_eq_iff_eq]
  exact and_iff_right_of_imp fun mem same => absent (same ▸ mem)

theorem erase_insert (absent : k ∉ s) : (s.insert k).erase k = s := by
  apply ExtTreeSet.ext_mem
  intro l
  rw [ExtTreeSet.mem_erase, ExtTreeSet.mem_insert, Ne, LawfulEqCmp.compare_eq_iff_eq]
  constructor
  · exact fun ⟨other, mem⟩ => mem.resolve_left other
  · exact fun mem => ⟨fun same => absent (same ▸ mem), .inr mem⟩

theorem insert_erase (mem : k ∈ s) : (s.erase k).insert k = s := by
  apply ExtTreeSet.ext_mem
  intro l
  rw [ExtTreeSet.mem_insert, ExtTreeSet.mem_erase, Ne, LawfulEqCmp.compare_eq_iff_eq]
  by_cases same : k = l
  · simp [← same, mem]
  · simp [same]

end Sets

end Bourse.Maps
