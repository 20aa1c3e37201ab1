/-!
Amounts, heights and counters are natural numbers below `Word.size`. Arithmetic on amounts checks
the bound and refuses. What becomes of a counter that leaves the range depends on the build: it
stops a checked build, and wraps around in a release build.
-/

namespace Bourse

/-- How the program was built. -/
class Build where
  /-- A counter that leaves its range stops the program, instead of wrapping around. -/
  isChecked : Bool

namespace Build

@[reducible] def checked : Build := ⟨true⟩

@[reducible] def release : Build := ⟨false⟩

/-- Whether the program stops at counters that are to stay in their range. -/
def stops [Build] (inRange : Bool) : Bool := isChecked && !inRange

theorem stops_eq_false_iff [Build] {inRange : Bool} :
    stops inRange = false ↔ (isChecked = true → inRange = true) := by
  cases inRange <;> simp [stops]

end Build

-- Powers are those of the core library, whatever else is imported.
attribute [scoped instance (high)] instPowNat

namespace Word

def size : Nat := 2 ^ (64 : Nat)

/-- The sum, unless it leaves the range. -/
def add? (a b : Nat) : Option Nat :=
  if a + b < size then some (a + b) else none

/-- The sum modulo `size`. -/
def wrapAdd (a b : Nat) : Nat := (a + b) % size

/-- The difference modulo `size`. -/
def wrapSub (a b : Nat) : Nat := (a + size - b) % size

theorem add?_eq_some_iff {a b c : Nat} : add? a b = some c ↔ a + b < size ∧ c = a + b := by
  unfold add?
  split
  · simp_all [eq_comm]
  · simp only [reduceCtorEq, false_iff]
    omega

theorem wrapAdd_of_lt {a b : Nat} (h : a + b < size) : wrapAdd a b = a + b :=
  Nat.mod_eq_of_lt h

theorem wrapSub_of_le {a b : Nat} (le : b ≤ a) (h : a < size) : wrapSub a b = a - b := by
  rw [wrapSub, show a + size - b = a - b + size by omega, Nat.add_mod_right]
  exact Nat.mod_eq_of_lt (by omega)

end Word

end Bourse
