import Bourse.Text.Key

namespace Bourse

/-- An account's address: any text. -/
structure Address where
  text : String
  deriving DecidableEq, Repr

namespace Address

instance : Ord Address := ⟨compareOn text⟩

instance : Std.TransOrd Address := inferInstanceAs (Std.TransCmp (compareOn text))

instance : Std.LawfulEqOrd Address :=
  Text.lawfulEqCmp_compareOn fun {a b} h => by cases a; cases b; exact congrArg _ h

def isEmpty (a : Address) : Bool := a.text.isEmpty

end Address

end Bourse
