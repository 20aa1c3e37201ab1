import Bourse.Decimal.Text
import Bourse.Double.Shortest
import Bourse.Json.Value

/-!
The value of a JSON number that is no whole number in the range of a word: a double. Its digits are
read into one word as far as it holds them, and the rest only counts for the power of ten.
-/

namespace Bourse

namespace Json.Numeral

/-- Appends digits to `n` while a word holds it; answers the digits left over too. -/
def appendDigits (n : Nat) : List Nat → Nat × List Nat
  | [] => (n, [])
  | d :: rest => if 10 * n + d < Word.size then appendDigits (10 * n + d) rest else (n, d :: rest)

/-- The magnitude. -/
def double? (n : Numeral) : Option Double :=
  let (whole, wholeLeft) := appendDigits 0 n.whole
  let (significand, fractionLeft) := appendDigits whole n.fraction
  let places : Int := wholeLeft.length - (n.fraction.length - fractionLeft.length : Nat)
  Double.ofScientific? significand (places + n.exponent.getD 0)

/-- The decimal that the text of the double is. -/
def decimal? (n : Numeral) : Option Decimal := do
  let (digits, power) := (← n.double?).shortest
  Decimal.readPlain? (Decimal.chars ⟨n.negative, digits * 10 ^ power.toNat, (-power).toNat⟩)

end Json.Numeral

/-- A decimal is written as a text or as a number. -/
def Decimal.ofJson? : Json → Option Decimal
  | .string s => s.bind ofText?
  | .integer i =>
      if -(2 ^ (63 : Nat)) ≤ i ∧ i < 2 ^ (64 : Nat) then some (.ofInt i)
      else (Json.Numeral.ofInt i).decimal?
  | .number n => n.decimal?
  | _ => none

end Bourse
