import Bourse.Word

/-!
Whole numbers in text: an optional sign and ASCII digits, at least one, leading zeros allowed. A
number outside the asked range is refused.
-/

namespace Bourse.Text

def digit? (c : Char) : Option Nat :=
  if '0' ≤ c ∧ c ≤ '9' then some (c.toNat - '0'.toNat) else none

/-- The value of a text made of digits only; the empty text has the value `start`. -/
def digitsFrom? (start : Nat) : List Char → Option Nat
  | [] => some start
  | c :: rest => do digitsFrom? (10 * start + (← digit? c)) rest

def digits? : List Char → Option Nat
  | [] => none
  | text => digitsFrom? 0 text

/-- Reads an unsigned word; `+` may stand in front. -/
def word? (text : List Char) : Option Nat := do
  let n ← digits? (match text with | '+' :: rest => rest | _ => text)
  if n < Word.size then some n else none

/-- Reads a signed word; `+` or `-` may stand in front. -/
def signedWord? (text : List Char) : Option Int := do
  let i ← match text with
    | '-' :: rest => (digits? rest).map fun n => -(n : Int)
    | '+' :: rest => (digits? rest).map Int.ofNat
    | _ => (digits? text).map Int.ofNat
  if -(2 ^ (63 : Nat)) ≤ i ∧ i < 2 ^ (63 : Nat) then some i else none

end Bourse.Text
