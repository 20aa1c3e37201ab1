import Bourse.Order.Id
import Bourse.Pair.Id

/-!
Why a request is refused. Every cause has a code and a text. A `corruption` alone is fatal: it says
that the stored orders and the balances disagree. With `halted` nothing is refused: the program has
stopped, and nobody gets an answer.
-/

namespace Bourse

inductive Fault
  | unknownToken (symbol : String)
  | notIssuer (creator : String) (stock money : Denom)
  | badPrecision (reason : String)
  | badSymbol (symbol : String)
  | noBaseMarket (stock base : Denom)
  | marketExists (pair : PairId)
  | notCreator (sender creator : String)
  | orderNotFound (id : String)
  | orderExists (id : OrderId)
  | badOrder (reason : String)
  | badAddress (reason : String)
  | insufficientFunds (denom : Denom) (needed available : Nat)
  | insufficientFrozen (denom : Denom) (needed frozen : Nat)
  | overflow (what : String)
  | tooEarly (effective earliest : Int)
  | tokenForbidden (symbol : String)
  | addressForbidden (address token : String)
  | corruption (reason : String)
  | badParams (reason : String)
  | unreadable (reason : String)
  /-- A counter left its range in a checked build. -/
  | halted
  deriving DecidableEq, Repr

namespace Fault

def code : Fault → Nat
  | unknownToken _ => 100
  | notIssuer _ _ _ => 101
  | badPrecision _ => 102
  | badSymbol _ => 103
  | noBaseMarket _ _ => 104
  | marketExists _ => 105
  | notCreator _ _ => 106
  | orderNotFound _ => 200
  | orderExists _ => 201
  | badOrder _ => 202
  | badAddress _ => 203
  | insufficientFunds _ _ _ => 300
  | insufficientFrozen _ _ _ => 301
  | overflow _ => 302
  | tooEarly _ _ => 400
  | tokenForbidden _ => 500
  | addressForbidden _ _ => 501
  | corruption _ => 900
  | badParams _ => 901
  | unreadable _ => 902
  | halted => 999

/-- The cause in words. -/
def reason : Fault → String
  | unknownToken symbol => s!"Invalid token: {symbol}"
  | notIssuer creator stock money => s!"{creator} is not the issuer of {stock} or {money}"
  | badPrecision reason => s!"Invalid price precision: {reason}"
  | badSymbol symbol => s!"Invalid symbol: {symbol}"
  | noBaseMarket stock base => s!"Stock {stock} has no {base} market"
  | marketExists pair => s!"Market already exists: {pair.text}"
  | notCreator sender creator => s!"Sender {sender} does not match creator {creator}"
  | orderNotFound id => s!"Order not found: {id}"
  | orderExists id => s!"Order already exists: {id.text}"
  | badOrder reason => s!"Invalid order: {reason}"
  | badAddress reason => s!"Invalid address: {reason}"
  | insufficientFunds denom needed available =>
      s!"Insufficient coin: need {needed}{denom}, have {available}{denom}"
  | insufficientFrozen denom needed frozen =>
      s!"Insufficient frozen {denom}: need {needed}, have {frozen}"
  | overflow what => s!"Amount overflow: {what}"
  | tooEarly effective earliest =>
      s!"Invalid time: effective {effective}, earliest allowed {earliest}"
  | tokenForbidden symbol => s!"Token forbidden by issuer: {symbol}"
  | addressForbidden address token => s!"Address {address} forbidden by issuer of {token}"
  | corruption reason => s!"Store corruption: {reason}"
  | badParams reason => s!"Configuration error: {reason}"
  | unreadable reason => s!"Serialization error: {reason}"
  | halted => "Stopped"

/-- The code in front of the cause. -/
def message (f : Fault) : String := s!"MK_ERR_{f.code}: {f.reason}"

def isFatal : Fault → Bool
  | corruption _ => true
  | _ => false

end Fault

end Bourse
