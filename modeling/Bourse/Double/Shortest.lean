import Bourse.Double.Basic

/-!
The decimal that stands for a double: of those that are nearer to it than to any other double, one
of the fewest digits, and of these the nearest.
-/

namespace Bourse.Double

/-- Four times the mantissa of the lower end of the interval that rounds to `x`. Below a power of
two the next double is half as far away. -/
def lowerEnd (x : Double) : Nat :=
  if x.mantissa = 2 ^ (52 : Nat) ∧ x.exponent ≠ minExponent then 4 * x.mantissa - 1
  else 4 * x.mantissa - 2

/-- Four times the mantissa of the upper end. -/
def upperEnd (x : Double) : Nat := 4 * x.mantissa + 2

/-- The multiple of `10 ^ j` nearest to `x`, if one rounds to `x`; of two as near the greater. The
ends of the interval belong to an even mantissa. -/
def onGrid? (x : Double) (j : Int) : Option Nat :=
  let e := x.exponent - 2
  let grid := 10 ^ j.toNat * 2 ^ (-e).toNat
  let unit := 2 ^ e.toNat * 10 ^ (-j).toNat
  let value := 4 * x.mantissa * unit
  let slack := if x.mantissa % 2 = 0 then 0 else 1
  let below := value / grid
  let above := below + 1
  let belowHits : Bool := x.lowerEnd * unit + slack ≤ below * grid
  let aboveHits : Bool := above * grid + slack ≤ x.upperEnd * unit
  if belowHits && (!aboveHits || 2 * value < (below + above) * grid) then some below
  else if aboveHits then some above
  else none

/-- The grids from the coarsest to the finest that a double may need. -/
def grids : List Int := (List.range 633).map fun (i : Nat) => (308 : Int) - i

/-- The exact value, as digits and a power of ten. -/
def exact (x : Double) : Nat × Int :=
  (x.mantissa * 2 ^ x.exponent.toNat * 5 ^ (-x.exponent).toNat, min x.exponent 0)

/-- Digits `c` and power of ten `j` of the decimal `c * 10 ^ j`. -/
def shortest (x : Double) : Nat × Int :=
  if x.isZero then (0, 0)
  else (grids.findSome? fun j => (x.onGrid? j).map fun c => (c, j)).getD x.exact

end Bourse.Double
