import Std.Data.ExtTreeMap
import Std.Data.ExtTreeSet

/-!
Text keys are ordered by code point, which is the order of their UTF-8 bytes. The two lemmas carry
the laws of an order over to a record compared by one field, or by two fields in turn.
-/

namespace Bourse.Text

theorem lawfulEqCmp_compareOn {α β : Type} [Ord β] [Std.LawfulEqOrd β] {f : α → β}
    (inj : ∀ {a b}, f a = f b → a = b) : Std.LawfulEqCmp (compareOn f) where
  compare_self {a} := by simp [compareOn]
  eq_of_compare h := inj (Std.LawfulEqOrd.eq_of_compare h)

theorem lawfulEqCmp_compareLex {α β γ : Type} [Ord β] [Ord γ] [Std.LawfulEqOrd β]
    [Std.LawfulEqOrd γ] {f : α → β} {g : α → γ} (inj : ∀ {a b}, f a = f b → g a = g b → a = b) :
    Std.LawfulEqCmp (compareLex (compareOn f) (compareOn g)) where
  compare_self {a} := by simp [compareLex, compareOn]
  eq_of_compare {a b} h := by
    simp only [compareLex, compareOn, Ordering.then_eq_eq] at h
    exact inj (Std.LawfulEqOrd.eq_of_compare h.1) (Std.LawfulEqOrd.eq_of_compare h.2)

end Bourse.Text
