import Bourse.Decimal.Basic
import Bourse.Text.Integer

/-!
Decimals in text.

Written: a minus sign for a negative one, at least one digit before the point, exactly `scale`
digits after it, no point at scale zero.

Read: a sign, digits, one point; a digit may stand on either side of the point alone, and `_` may
follow a digit. The digits after the point are the scale. Where a digit would exceed the largest
scale or coefficient, it rounds the number, half up, and the digits after it do not count; before
the point such a digit is refused. A zero has no sign.

A text that is no plain number may be a plain number, `e` or `E`, and a power of ten of at most 28
digits. It moves the point; digits that a negative power moves beyond the largest scale are rounded
away, half away from zero.
-/

namespace Bourse.Decimal

/-- The digits of `coeff / 10 ^ scale`, with zeros in front so that one stands before the point. -/
def digits (coeff scale : Nat) : List Char :=
  let ds := Nat.toDigits 10 coeff
  List.replicate (scale + 1 - ds.length) '0' ++ ds

def chars (x : Decimal) : List Char :=
  let ds := digits x.coeff x.scale
  let whole := ds.take (ds.length - x.scale)
  let fraction := ds.drop (ds.length - x.scale)
  (if x.negative then ['-'] else []) ++ whole ++ (if x.scale = 0 then [] else '.' :: fraction)

def text (x : Decimal) : String := String.ofList x.chars

/-- A number read so far: its digits, how many stand after the point, whether the point and whether
a digit was read. -/
structure Reading where
  coeff : Nat
  scale : Nat
  point : Bool
  begun : Bool
  deriving DecidableEq, Repr

namespace Reading

def start : Reading := ⟨0, 0, false, false⟩

/-- No digit may follow. -/
def isFull (r : Reading) : Bool := r.scale == maxScale

/-- A coefficient from which on a further digit may leave the range of a word. -/
def wide : Nat := Word.size / 10 - 255

/-- The coefficient was wide before its last digit. -/
def isWide (r : Reading) : Bool := wide ≤ r.coeff / 10

/-- Takes a digit that fits. -/
def push (r : Reading) (d : Nat) : Reading :=
  { r with
    coeff := 10 * r.coeff + d
    scale := if r.point then r.scale + 1 else 0
    begun := true }

def fits (r : Reading) (d : Nat) : Bool := !r.isFull && 10 * r.coeff + d ≤ maxCoeff

/-- Rounds by the first digit that does not fit. -/
def roundOff (r : Reading) (d : Nat) : Option Reading :=
  if d < 5 then some r
  else if r.coeff < maxCoeff then some { r with coeff := r.coeff + 1 }
  else if r.scale = 0 then none
  else some { r with coeff := (r.coeff + 5) / 10, scale := r.scale - 1 }

/-- What may follow the digit that rounds. -/
def isIgnored (c : Char) : Bool := c == '_' || (Text.digit? c).isSome

/-- Reads on to the end. Where no digit may follow, `_` counts as the digit that rounds, a zero,
unless the coefficient was wide by then: then it is passed over like any other. -/
def read (r : Reading) : List Char → Option Reading
  | [] => if r.begun then some r else none
  | '.' :: rest => if r.point then none else { r with point := true }.read rest
  | '_' :: rest =>
      if r.isFull && !r.isWide then if rest.all isIgnored then some r else none
      else if r.begun then r.read rest
      else none
  | c :: rest => do
      let d ← Text.digit? c
      if r.fits d then (r.push d).read rest
      else if r.point && rest.all isIgnored then r.roundOff d
      else none

end Reading

def readUnsigned? (negative : Bool) (text : List Char) : Option Decimal :=
  (Reading.start.read text).map fun r => signed negative r.coeff r.scale

def readPlain? : List Char → Option Decimal
  | '-' :: rest => readUnsigned? true rest
  | '+' :: rest => readUnsigned? false rest
  | text => readUnsigned? false text

/-- Multiplies by `10 ^ n`, at most nineteen places at a time. -/
def raise? (x : Decimal) (n : Nat) : Option Decimal := do
  let y ← x.mul? (ofNat (10 ^ min n 19))
  if n ≤ 19 then return y else y.mul? (ofNat (10 ^ (n - 19)))

/-- Moves the point `n` places to the left. -/
def movedLeft (x : Decimal) (n : Nat) : Decimal :=
  if x.scale + n ≤ maxScale then { x with scale := x.scale + n }
  else { x.coarsen (maxScale - n) with scale := maxScale }

/-- Moves the point `n` places to the right. -/
def movedRight? (x : Decimal) (n : Nat) : Option Decimal :=
  if n ≤ x.scale then some { x with scale := x.scale - n } else (x.raise? n).map normalize

/-- The characters before and after the first `e` or `E`. -/
def splitExponent? : List Char → Option (List Char × List Char)
  | [] => none
  | c :: rest =>
      if c = 'e' ∨ c = 'E' then some ([], rest)
      else (splitExponent? rest).map fun (before, after) => (c :: before, after)

def readScientific? (text : List Char) : Option Decimal := do
  let (base, power) ← splitExponent? text
  let x ← readPlain? base
  match power with
  | '-' :: power =>
      let n ← Text.word? power
      if n ≤ maxScale then return x.movedLeft n else none
  | _ =>
      let n ← Text.word? power
      if n ≤ maxScale then x.movedRight? n else none

def ofText? (s : String) : Option Decimal :=
  readPlain? s.toList <|> readScientific? s.toList

end Bourse.Decimal
