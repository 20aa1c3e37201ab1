import Bourse.Address
import Bourse.Text.Integer
import Bourse.Text.Split

/-!
An order is named by its sender, the sender's sequence number and the version of the chain id,
joined by hyphens. A sender may hold hyphens itself, so an id is taken apart from the right.
-/

namespace Bourse

structure OrderId where
  text : String
  deriving DecidableEq, Repr

namespace OrderId

instance : Ord OrderId := ⟨compareOn text⟩

instance : Std.TransOrd OrderId := inferInstanceAs (Std.TransCmp (compareOn text))

instance : Std.LawfulEqOrd OrderId :=
  Text.lawfulEqCmp_compareOn fun {a b} h => by cases a; cases b; exact congrArg _ h

def separator : Char := '-'

def assemble (sender : Address) (sequence : Nat) (version : Int) : OrderId :=
  let sep := separator.toString
  ⟨sender.text ++ sep ++ toString sequence ++ sep ++ toString version⟩

/-- Sender, sequence and version of a well-formed id. -/
def parts? (id : OrderId) : Option (Address × Nat × Int) := do
  let (front, version) ← Text.splitLast? separator id.text.toList
  let (sender, sequence) ← Text.splitLast? separator front
  let version ← Text.signedWord? version
  let sequence ← Text.word? sequence
  if sender = [] then none else return (⟨String.ofList sender⟩, sequence, version)

def sender? (id : OrderId) : Option Address := id.parts?.map (·.1)

end OrderId

end Bourse
