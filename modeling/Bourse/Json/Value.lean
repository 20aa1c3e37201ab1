import Bourse.Word

/-!
JSON values as they are written: fields keep their order and may repeat. A whole number is one
written with digits alone, and `-0` is none; any other number stays as its digits. A quoted text
that holds half of a surrogate pair is well-formed and spells no string: `none`.
-/

namespace Bourse

/-- A number as it is written: its digits before and after the point, and its power of ten. -/
structure Json.Numeral where
  negative : Bool
  whole : List Nat
  fraction : List Nat
  exponent : Option Int
  deriving DecidableEq, Repr

/-- The digits of a whole number. -/
def Json.Numeral.ofInt (i : Int) : Json.Numeral :=
  ⟨i < 0, (Nat.toDigits 10 i.natAbs).map fun c => c.toNat - '0'.toNat, [], none⟩

inductive Json
  | null
  | bool (b : Bool)
  | integer (i : Int)
  | number (n : Json.Numeral)
  | string (s : Option String)
  | list (items : List Json)
  | record (fields : List (Option String × Json))

namespace Json

def ofNat (n : Nat) : Json := integer n

def ofString (s : String) : Json := string (some s)

def object (fields : List (String × Json)) : Json :=
  record (fields.map fun (key, value) => (some key, value))

/-- Null for nothing. -/
def ofOption {α : Type} (f : α → Json) : Option α → Json
  | some a => f a
  | none => null

def bool? : Json → Option Bool
  | bool b => some b
  | _ => none

def string? : Json → Option String
  | string s => s
  | _ => none

/-- A whole number of at most this many bits. -/
def unsigned? (bits : Nat) : Json → Option Nat
  | integer i => if 0 ≤ i ∧ i < 2 ^ bits then some i.toNat else none
  | _ => none

/-- A signed word. -/
def signed? : Json → Option Int
  | integer i => if -(2 ^ (63 : Nat)) ≤ i ∧ i < 2 ^ (63 : Nat) then some i else none
  | _ => none

def word? : Json → Option Nat := unsigned? 64

def list? : Json → Option (List Json)
  | list items => some items
  | _ => none

/-- The fields of a record in the order of `names`. In an object each name stands once, in any
order, and other names do not matter; in an array the fields stand alone and in order. -/
def fields? (names : List String) : Json → Option (List Json)
  | list items => if items.length = names.length then some items else none
  | record fields =>
      if fields.any fun (key, _) => key.isNone then none
      else
        names.mapM fun name =>
          match fields.filter fun (key, _) => key == some name with
          | [(_, value)] => some value
          | _ => none
  | _ => none

/-- The name of a choice without data, alone or as the one key of an object that maps it to null. -/
def choice? : Json → Option String
  | string s => s
  | record [(key, null)] => key
  | _ => none

/-- The name of a choice with data, and the data: an object with this one key. -/
def tagged? : Json → Option (String × Json)
  | record [(some tag, value)] => some (tag, value)
  | _ => none

end Json

end Bourse
