import Bourse.Word
import Bourse.Decimal.Rounding

/-!
Decimal numbers of limited size: a sign and a coefficient of at most 96 bits over a power of ten of
at most 28 digits. Values are compared as numbers; the scale only shows in text, and so does the
sign of a zero, which also keeps it from being an amount.

A product is formed exactly and rounded once, half to even, to the most digits that fit.
-/

namespace Bourse

/-- The number `coeff / 10 ^ scale` with its sign. `12.50` and `12.5` are equal numbers of different
scale, and so are `0` and `-0`. -/
structure Decimal where
  negative : Bool
  coeff : Nat
  scale : Nat
  deriving DecidableEq, Repr

namespace Decimal

def maxScale : Nat := 28

def maxCoeff : Nat := 2 ^ (96 : Nat) - 1

def zero : Decimal := ⟨false, 0, 0⟩

def ofNat (n : Nat) : Decimal := ⟨false, n, 0⟩

def ofInt (i : Int) : Decimal := ⟨i < 0, i.natAbs, 0⟩

/-- A decimal whose zero has no sign. -/
def signed (negative : Bool) (coeff scale : Nat) : Decimal :=
  ⟨negative && coeff != 0, coeff, scale⟩

def isZero (x : Decimal) : Bool := x.coeff == 0

/-- The coefficient with the sign. -/
def numerator (x : Decimal) : Int := if x.negative then -x.coeff else x.coeff

/-- Compares the numbers, whatever their scales. -/
def cmp (x y : Decimal) : Ordering :=
  compare (x.numerator * 10 ^ y.scale) (y.numerator * 10 ^ x.scale)

instance : LE Decimal := ⟨fun x y => x.numerator * 10 ^ y.scale ≤ y.numerator * 10 ^ x.scale⟩

instance (x y : Decimal) : Decidable (x ≤ y) := inferInstanceAs (Decidable (_ ≤ (_ : Int)))

/-- Coefficient and scale of `c / 10 ^ s` with the fewest digits dropped for which the coefficient,
rounded once, half to even, fits; `none` if even the whole part is too long. -/
def fit? (c s : Nat) : Option (Nat × Nat) :=
  (List.range (s + 1)).findSome? fun drop =>
    let m := Rounding.halfEven.divide c (10 ^ drop)
    if s - drop ≤ maxScale ∧ m ≤ maxCoeff then some (m, s - drop) else none

/-- The coefficient takes half a word. -/
def isShort (x : Decimal) : Bool := x.coeff < 2 ^ (32 : Nat)

/-- The product; a factor zero gives a plain zero. A product of other factors that rounds to zero
keeps its sign, unless both factors are short. -/
def mul? (x y : Decimal) : Option Decimal :=
  if x.isZero || y.isZero then some zero
  else
    (fit? (x.coeff * y.coeff) (x.scale + y.scale)).map fun (coeff, scale) =>
      let negative := x.negative != y.negative
      if x.isShort && y.isShort then signed negative coeff scale else ⟨negative, coeff, scale⟩

/-- The nearest whole number; the mode decides a half by magnitude. Only a zero stays a signed
zero. -/
def round (mode : Rounding) (x : Decimal) : Decimal :=
  if x.isZero then { x with scale := 0 }
  else signed x.negative (mode.divide x.coeff (10 ^ x.scale)) 0

/-- The greatest whole number not above. -/
def floor (x : Decimal) : Decimal :=
  let whole := x.coeff / 10 ^ x.scale
  if x.negative ∧ x.coeff % 10 ^ x.scale ≠ 0 then ⟨true, whole + 1, 0⟩ else ⟨x.negative, whole, 0⟩

/-- The number of the scale `s`, not above its own, nearest to `x`; a half goes away from zero. -/
def coarsen (x : Decimal) (s : Nat) : Decimal :=
  { x with coeff := Rounding.halfUp.divide x.coeff (10 ^ (x.scale - s)), scale := s }

/-- The whole part as a word; `none` for a negative sign and beyond the range of a word. -/
def toWord? (x : Decimal) : Option Nat :=
  let n := x.coeff / 10 ^ x.scale
  if !x.negative ∧ n < Word.size then some n else none

/-- Drops trailing fraction zeros of `c / 10 ^ s`. -/
def strip (c : Nat) : Nat → Nat × Nat
  | 0 => (c, 0)
  | s + 1 => if c % 10 = 0 then strip (c / 10) s else (c, s + 1)

/-- The same number with no trailing fraction zero and no signed zero. -/
def normalize (x : Decimal) : Decimal :=
  let (coeff, scale) := strip x.coeff x.scale
  signed x.negative coeff scale

theorem numerator_signed (negative : Bool) (coeff scale : Nat) :
    (signed negative coeff scale).numerator = if negative then -(coeff : Int) else coeff := by
  cases negative <;> cases coeff <;> simp [signed, numerator]

end Decimal

end Bourse
