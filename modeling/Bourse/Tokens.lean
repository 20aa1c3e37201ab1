import Bourse.Address
import Bourse.Fault
import Bourse.Pair.Basic

/-! The issued tokens, who issued them, and whom their issuers forbid. -/

namespace Bourse

structure Token where
  issuer : Address
  forbidden : Bool := false
  forbiddenAddresses : Std.ExtTreeSet Address := ∅

structure Tokens where
  issued : Std.ExtTreeMap String Token := ∅

namespace Tokens

def isIssued (t : Tokens) (symbol : String) : Bool := t.issued.contains symbol

def issuer? (t : Tokens) (symbol : String) : Option Address :=
  t.issued[symbol]?.map (·.issuer)

def isIssuer (t : Tokens) (address : Address) (symbol : String) : Bool :=
  t.issuer? symbol == some address

def isForbidden (t : Tokens) (symbol : String) : Bool :=
  t.issued[symbol]?.any (·.forbidden)

def isAddressForbidden (t : Tokens) (symbol : String) (address : Address) : Bool :=
  t.issued[symbol]?.any (·.forbiddenAddresses.contains address)

/-- Issues a new token; a symbol is issued once. -/
def issue (t : Tokens) (symbol : String) (issuer : Address) : Except Fault Tokens :=
  if symbol.isEmpty ∨ t.isIssued symbol then
    .error (.unknownToken s!"{symbol} is empty or already issued")
  else .ok ⟨t.issued.insert symbol { issuer }⟩

/-- Changes an issued token. -/
def update (t : Tokens) (symbol : String) (f : Token → Token) : Except Fault Tokens :=
  match t.issued[symbol]? with
  | some token => .ok ⟨t.issued.insert symbol (f token)⟩
  | none => .error (.unknownToken symbol)

def forbid (t : Tokens) (symbol : String) : Except Fault Tokens :=
  t.update symbol fun token => { token with forbidden := true }

def allow (t : Tokens) (symbol : String) : Except Fault Tokens :=
  t.update symbol fun token => { token with forbidden := false }

def forbidAddresses (t : Tokens) (symbol : String) (addresses : List Address) :
    Except Fault Tokens :=
  t.update symbol fun token =>
    { token with
      forbiddenAddresses := addresses.foldl (fun set a => set.insert a) token.forbiddenAddresses }

def allowAddresses (t : Tokens) (symbol : String) (addresses : List Address) :
    Except Fault Tokens :=
  t.update symbol fun token =>
    { token with
      forbiddenAddresses := addresses.foldl (fun set a => set.erase a) token.forbiddenAddresses }

/-- Refuses a forbidden token, then a forbidden sender; of either, the stock's first. -/
def checkForbidden (t : Tokens) (sender : Address) (pair : Pair) : Except Fault Unit := do
  if t.isForbidden pair.stock then throw (.tokenForbidden pair.stock)
  if t.isForbidden pair.money then throw (.tokenForbidden pair.money)
  if t.isAddressForbidden pair.stock sender then
    throw (.addressForbidden sender.text pair.stock)
  if t.isAddressForbidden pair.money sender then
    throw (.addressForbidden sender.text pair.money)

end Tokens

end Bourse
