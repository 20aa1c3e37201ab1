import Bourse.Decimal.Rounding
import Bourse.Word

/-!
Doubles: magnitudes of 53 significant bits, from `2 ^ -1074` to below `2 ^ 1024`. Each operation
takes the exact result to the nearest double, a half to the even one, and fails beyond the range.
-/

namespace Bourse

/-- The number `mantissa * 2 ^ exponent`. -/
structure Double where
  mantissa : Nat
  exponent : Int
  deriving DecidableEq, Repr

namespace Double

/-- The least exponent, that of the smallest doubles. -/
def minExponent : Int := -1074

def maxExponent : Int := 971

def isZero (x : Double) : Bool := x.mantissa == 0

/-- The greatest `k` with `2 ^ k ≤ n / d`, for positive numbers. -/
def floorLog (n d : Nat) : Int :=
  let k : Int := n.log2 - d.log2
  if d * 2 ^ n.log2 ≤ n * 2 ^ d.log2 then k else k - 1

/-- The double nearest to `n / d`. -/
def nearest? (n d : Nat) : Option Double :=
  if n = 0 then some ⟨0, 0⟩
  else
    let e := max (floorLog n d - 52) minExponent
    let m := Rounding.halfEven.divide (n * 2 ^ (-e).toNat) (d * 2 ^ e.toNat)
    let x : Double := if m = 2 ^ (53 : Nat) then ⟨2 ^ (52 : Nat), e + 1⟩ else ⟨m, e⟩
    if x.exponent ≤ maxExponent then some x else none

def ofNat? (n : Nat) : Option Double := nearest? n 1

def times? (x y : Double) : Option Double :=
  let e := x.exponent + y.exponent
  nearest? (x.mantissa * y.mantissa * 2 ^ e.toNat) (2 ^ (-e).toNat)

/-- The quotient by a double that is not zero. -/
def over? (x y : Double) : Option Double :=
  let e := x.exponent - y.exponent
  nearest? (x.mantissa * 2 ^ e.toNat) (y.mantissa * 2 ^ (-e).toNat)

/-- The greatest power of ten that is a double. -/
def maxPower : Nat := 308

def tenTo? (n : Nat) : Option Double := ofNat? (10 ^ n)

/-- Divides by `10 ^ n`, by as many places at a time as a double has. -/
def lowered? (x : Double) (n : Nat) : Option Double := do
  if _h : n ≤ maxPower then x.over? (← tenTo? n)
  else
    let y ← x.over? (← tenTo? maxPower)
    if y.isZero then return y else y.lowered? (n - maxPower)
termination_by n
decreasing_by simp only [maxPower] at *; omega

/-- Multiplies by `10 ^ n`; zero stays zero whatever the power. -/
def raised? (x : Double) (n : Nat) : Option Double := do
  if n ≤ maxPower then x.times? (← tenTo? n)
  else if x.isZero then return x
  else none

/-- The number `n * 10 ^ e` as a double: `n` is rounded, then its product with the power, or its
quotient by it. -/
def ofScientific? (n : Nat) (e : Int) : Option Double := do
  let x ← ofNat? n
  if e < 0 then x.lowered? e.natAbs else x.raised? e.toNat

end Double

end Bourse
