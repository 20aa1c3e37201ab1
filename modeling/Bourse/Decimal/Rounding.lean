/-! Two ways to round a quotient to a whole number, which differ on a remainder of exactly half. -/

namespace Bourse

inductive Rounding
  | halfEven
  | halfUp
  deriving DecidableEq, Repr

namespace Rounding

/-- The whole number nearest to `n / d`; a half goes to the even neighbour or up. -/
def divide (mode : Rounding) (n d : Nat) : Nat :=
  let q := n / d
  let twice := 2 * (n % d)
  if twice < d ∨ (twice = d ∧ mode = .halfEven ∧ q % 2 = 0) then q else q + 1

theorem divide_of_dvd {n d : Nat} (mode : Rounding) (pos : 0 < d) (h : d ∣ n) :
    mode.divide n d = n / d := by
  have : n % d = 0 := Nat.mod_eq_zero_of_dvd h
  simp [divide, this, pos]

theorem divide_le (mode : Rounding) (n d : Nat) : mode.divide n d ≤ n / d + 1 := by
  simp only [divide]
  split <;> omega

theorem le_divide (mode : Rounding) (n d : Nat) : n / d ≤ mode.divide n d := by
  simp only [divide]
  split <;> omega

end Rounding

end Bourse
