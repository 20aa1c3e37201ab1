import Bourse.Text.Key
import Bourse.Text.Split

/-!
A market is named by its stock and money symbols around a slash, in that order. The id is text and
may be anything; `ofSymbol?` accepts the well-formed names only.
-/

namespace Bourse

abbrev Denom := String

structure PairId where
  text : String
  deriving DecidableEq, Repr

namespace PairId

instance : Ord PairId := ⟨compareOn text⟩

instance : Std.TransOrd PairId := inferInstanceAs (Std.TransCmp (compareOn text))

instance : Std.LawfulEqOrd PairId :=
  Text.lawfulEqCmp_compareOn fun {a b} h => by cases a; cases b; exact congrArg _ h

def separator : Char := '/'

def join (stock money : Denom) : PairId := ⟨stock ++ separator.toString ++ money⟩

/-- The text before the first separator, or all of it. -/
def stock (p : PairId) : Denom :=
  match Text.splitFirst? separator p.text.toList with
  | some (stock, _) => String.ofList stock
  | none => p.text

/-- The text after the first separator, empty without one. -/
def money (p : PairId) : Denom :=
  match Text.splitFirst? separator p.text.toList with
  | some (_, money) => String.ofList money
  | none => ""

/-- A symbol names a market if it has one separator, between two different non-empty texts. -/
def ofSymbol? (symbol : String) : Option PairId :=
  match Text.splitFirst? separator symbol.toList with
  | some (stock, money) =>
      if stock = [] ∨ money = [] ∨ separator ∈ money ∨ stock = money then none else some ⟨symbol⟩
  | none => none

end PairId

end Bourse
