import Bourse.Json.Value
import Bourse.Text.Hex
import Bourse.Text.Integer

/-!
Reading a JSON text. Blanks are space, tab, line feed and carriage return. The whole text must be
one value. Control characters in strings, leading zeros and trailing commas are refused.
-/

namespace Bourse.Json

def isBlank (c : Char) : Bool := c == ' ' || c == '\t' || c == '\n' || c == '\r'

def skipBlank (text : List Char) : List Char := text.dropWhile isBlank

/-- A piece of a string: a character, or a 16-bit unit written as `\u` and four digits. -/
inductive Piece
  | char (c : Char)
  | unit (n : Nat)
  deriving DecidableEq, Repr

def escape? : Char → Option Char
  | '"' => some '"'
  | '\\' => some '\\'
  | '/' => some '/'
  | 'b' => some '\x08'
  | 'f' => some '\x0c'
  | 'n' => some '\n'
  | 'r' => some '\r'
  | 't' => some '\t'
  | _ => none

/-- The value of four hexadecimal digits. -/
def unit? (a b c d : Char) : Option Nat := do
  let upper := (← Text.hexDigit? a) * 16 + (← Text.hexDigit? b)
  let lower := (← Text.hexDigit? c) * 16 + (← Text.hexDigit? d)
  return upper * 256 + lower

/-- The pieces up to the closing quote, and what follows it. -/
def pieces? : List Char → Option (List Piece × List Char)
  | [] => none
  | '"' :: rest => some ([], rest)
  | '\\' :: 'u' :: a :: b :: c :: d :: rest => do
      let n ← unit? a b c d
      let (pieces, rest) ← pieces? rest
      return (.unit n :: pieces, rest)
  | '\\' :: e :: rest => do
      let c ← escape? e
      let (pieces, rest) ← pieces? rest
      return (.char c :: pieces, rest)
  | c :: rest =>
      if c.toNat < 0x20 then none
      else do
        let (pieces, rest) ← pieces? rest
        return (.char c :: pieces, rest)

def isHigh (n : Nat) : Bool := 0xd800 ≤ n && n < 0xdc00

def isLow (n : Nat) : Bool := 0xdc00 ≤ n && n < 0xe000

/-- The characters of a string; a surrogate must stand in a pair. -/
def assemble? : List Piece → Option (List Char)
  | [] => some []
  | .char c :: rest => (assemble? rest).map (c :: ·)
  | .unit n :: rest =>
      if isHigh n then
        match rest with
        | .unit m :: rest =>
            if isLow m then
              (assemble? rest).map
                (Char.ofNat (0x10000 + (n - 0xd800) * 0x400 + (m - 0xdc00)) :: ·)
            else none
        | _ => none
      else if isLow n then none
      else (assemble? rest).map (Char.ofNat n :: ·)

/-- A string whose opening quote was read. -/
def quoted? (text : List Char) : Option (Option String × List Char) :=
  (pieces? text).map fun (pieces, rest) => ((assemble? pieces).map String.ofList, rest)

/-- At least one digit, and what follows the digits. -/
def digits? (text : List Char) : Option (List Nat × List Char) :=
  match text.span fun c => (Text.digit? c).isSome with
  | ([], _) => none
  | (ds, rest) => some (ds.filterMap Text.digit?, rest)

/-- The number with these digits. -/
def valueOf (digits : List Nat) : Nat := digits.foldl (fun n d => 10 * n + d) 0

/-- The digits after a point, none without it, and what follows them. -/
def fraction? : List Char → Option (List Nat × List Char)
  | '.' :: rest => digits? rest
  | text => some ([], text)

/-- The power behind `e` or `E`, which may have a sign. -/
def power? : List Char → Option (Int × List Char)
  | '+' :: rest => (digits? rest).map fun (ds, rest) => (valueOf ds, rest)
  | '-' :: rest => (digits? rest).map fun (ds, rest) => (-(valueOf ds : Int), rest)
  | text => (digits? text).map fun (ds, rest) => (valueOf ds, rest)

/-- A power of ten, if there is one, and what follows it. -/
def exponent? : List Char → Option (Option Int × List Char)
  | 'e' :: rest | 'E' :: rest => (power? rest).map fun (e, rest) => (some e, rest)
  | text => some (none, text)

/-- A number behind its sign. -/
def unsignedNumber? (negative : Bool) (text : List Char) : Option (Json × List Char) := do
  let (whole, rest) ← digits? text
  if whole.head? = some 0 ∧ whole.length ≠ 1 then none
  let (fraction, rest) ← fraction? rest
  let (exponent, rest) ← exponent? rest
  if fraction = [] ∧ exponent = none ∧ (!negative ∨ whole ≠ [0]) then
    let n := valueOf whole
    return (integer (if negative then -(n : Int) else n), rest)
  else return (number ⟨negative, whole, fraction, exponent⟩, rest)

def number? : List Char → Option (Json × List Char)
  | '-' :: rest => unsignedNumber? true rest
  | text => unsignedNumber? false text

mutual

/-- A value at the front of a text without leading blanks. Each level of nesting uses up to two
units of fuel. -/
def value? : Nat → List Char → Option (Json × List Char)
  | 0, _ => none
  | fuel + 1, text =>
      match text with
      | '"' :: rest => (quoted? rest).map fun (s, rest) => (Json.string s, rest)
      | '[' :: rest =>
          match skipBlank rest with
          | ']' :: rest => some (list [], rest)
          | rest => (items? fuel rest).map fun (items, rest) => (list items, rest)
      | '\x7b' :: rest =>
          match skipBlank rest with
          | '\x7d' :: rest => some (record [], rest)
          | rest => (members? fuel rest).map fun (fields, rest) => (record fields, rest)
      | 'n' :: 'u' :: 'l' :: 'l' :: rest => some (null, rest)
      | 't' :: 'r' :: 'u' :: 'e' :: rest => some (bool true, rest)
      | 'f' :: 'a' :: 'l' :: 's' :: 'e' :: rest => some (bool false, rest)
      | text => number? text

/-- The values up to the closing bracket. -/
def items? : Nat → List Char → Option (List Json × List Char)
  | 0, _ => none
  | fuel + 1, text => do
      let (item, rest) ← value? fuel text
      match skipBlank rest with
      | ']' :: rest => return ([item], rest)
      | ',' :: rest =>
          let (items, rest) ← items? fuel (skipBlank rest)
          return (item :: items, rest)
      | _ => none

/-- The fields up to the closing brace. -/
def members? : Nat → List Char → Option (List (Option String × Json) × List Char)
  | 0, _ => none
  | fuel + 1, text =>
      match text with
      | '"' :: rest => do
          let (key, rest) ← quoted? rest
          match skipBlank rest with
          | ':' :: rest =>
              let (value, rest) ← value? fuel (skipBlank rest)
              match skipBlank rest with
              | '\x7d' :: rest => return ([(key, value)], rest)
              | ',' :: rest =>
                  let (fields, rest) ← members? fuel (skipBlank rest)
                  return ((key, value) :: fields, rest)
              | _ => none
          | _ => none
      | _ => none

end

/-- The value that a whole text is. -/
def read? (s : String) : Option Json := do
  let text := s.toList
  let (value, rest) ← value? (2 * text.length + 2) (skipBlank text)
  if (skipBlank rest).isEmpty then return value else none

end Bourse.Json
