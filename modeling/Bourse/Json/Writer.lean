import Bourse.Json.Value
import Bourse.Text.Hex

/-!
Writing a JSON value without blanks. Control characters, the quote and the backslash are escaped;
all else stands for itself.
-/

namespace Bourse.Json

def escape (c : Char) : List Char :=
  if c = '"' then ['\\', '"']
  else if c = '\\' then ['\\', '\\']
  else if c.toNat < 0x20 then
    ['\\', 'u', '0', '0', Text.hexDigit (c.toNat / 16), Text.hexDigit (c.toNat % 16)]
  else [c]

/-- A string in quotes; for no string, half of a surrogate pair. -/
def quote : Option String → List Char
  | some s => '"' :: s.toList.flatMap escape ++ ['"']
  | none => "\"\\ud800\"".toList

/-- A sign, the digits and the point, and the power of ten, as far as they are there. -/
def Numeral.write (n : Numeral) : List Char :=
  (if n.negative then ['-'] else []) ++ n.whole.map Nat.digitChar
    ++ (if n.fraction = [] then [] else '.' :: n.fraction.map Nat.digitChar)
    ++ (n.exponent.elim [] fun e => 'e' :: (toString e).toList)

mutual

def write : Json → List Char
  | null => "null".toList
  | bool b => (if b then "true" else "false").toList
  | integer i => (toString i).toList
  | number n => n.write
  | string s => quote s
  | list items => '[' :: writeItems items ++ [']']
  | record fields => '\x7b' :: writeFields fields ++ ['\x7d']

def writeItems : List Json → List Char
  | [] => []
  | [item] => write item
  | item :: rest => write item ++ ',' :: writeItems rest

def writeFields : List (Option String × Json) → List Char
  | [] => []
  | [(key, value)] => quote key ++ ':' :: write value
  | (key, value) :: rest => quote key ++ ':' :: write value ++ ',' :: writeFields rest

end

def render (j : Json) : String := String.ofList j.write

end Bourse.Json
