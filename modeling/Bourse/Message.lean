import Bourse.Order.Basic
import Bourse.Pair.Basic

/-!
The requests that users sign, the checks that need no state, and the receipt of a delivery. The
first malformed field of a message refuses it.
-/

namespace Bourse

structure CreatePair where
  stock : Denom
  money : Denom
  creator : Address
  precision : Nat
  deriving DecidableEq, Repr

structure DelistPair where
  sender : Address
  symbol : String
  /-- Unix seconds. -/
  effectiveTime : Int
  deriving DecidableEq, Repr

structure RaisePrecision where
  sender : Address
  symbol : String
  precision : Nat
  deriving DecidableEq, Repr

structure PlaceOrder where
  sender : Address
  sequence : Nat
  symbol : String
  kind : OrderKind
  precision : Nat
  price : Nat
  quantity : Nat
  side : Side
  timeInForce : TimeInForce
  deriving DecidableEq, Repr

structure CancelOrder where
  sender : Address
  order : OrderId
  deriving DecidableEq, Repr

inductive Message
  | createPair (m : CreatePair)
  | delistPair (m : DelistPair)
  | raisePrecision (m : RaisePrecision)
  | placeOrder (m : PlaceOrder)
  | cancelOrder (m : CancelOrder)
  deriving DecidableEq, Repr

namespace Message

def typeName : Message → String
  | createPair _ => "create_trading_pair"
  | delistPair _ => "cancel_trading_pair"
  | raisePrecision _ => "modify_price_precision"
  | placeOrder _ => "create_order"
  | cancelOrder _ => "cancel_order"

def signer : Message → Address
  | createPair m => m.creator
  | delistPair m => m.sender
  | raisePrecision m => m.sender
  | placeOrder m => m.sender
  | cancelOrder m => m.sender

def requireAddress (address : Address) (field : String) : Except Fault Unit :=
  if address.isEmpty then .error (.badAddress s!"{field} is empty") else .ok ()

def requirePrecision (precision : Nat) : Except Fault Unit :=
  if Price.maxPrecision < precision then
    .error (.badPrecision s!"{precision} exceeds {Price.maxPrecision}")
  else .ok ()

def check : Message → Except Fault Unit
  | createPair m => do
      requireAddress m.creator "creator"
      let symbol := (PairId.join m.stock m.money).text
      if m.stock.isEmpty ∨ m.money.isEmpty then throw (.badSymbol symbol)
      let _ ← PairId.parse symbol
      requirePrecision m.precision
  | delistPair m => do
      requireAddress m.sender "sender"
      let _ ← PairId.parse m.symbol
      if m.effectiveTime < 0 then throw (.tooEarly m.effectiveTime 0)
  | raisePrecision m => do
      requireAddress m.sender "sender"
      let _ ← PairId.parse m.symbol
      requirePrecision m.precision
  | placeOrder m => do
      requireAddress m.sender "sender"
      let _ ← PairId.parse m.symbol
      requirePrecision m.precision
      if m.quantity = 0 then throw (.badOrder "quantity must be positive")
      if m.price = 0 then throw (.badOrder "price must be positive")
  | cancelOrder m => do
      requireAddress m.sender "sender"
      if m.order.parts?.isNone then throw (.badOrder s!"malformed order id {m.order.text}")

end Message

/-- What the sender of a message learns. -/
structure Receipt where
  success : Bool
  code : Nat
  log : String
  deriving DecidableEq, Repr

namespace Receipt

def codeOk : Nat := 0

def accepted (log : String) : Receipt := ⟨true, codeOk, log⟩

def refused (f : Fault) : Receipt := ⟨false, f.code, f.message⟩

end Receipt

/-- Height and time, in unix seconds, of a block. -/
structure Header where
  height : Nat
  time : Int
  deriving DecidableEq, Repr

end Bourse
