import Bourse.Effect
import Bourse.Fault
import Bourse.Order.Id
import Bourse.Price

/-!
Limit orders. A resting order carries what it still holds in escrow: its principal (money for a buy,
stock for a sell) and its fee in the base currency. Orders of one market may have different price
precisions, so prices are compared as numbers.
-/

namespace Bourse

inductive Side
  | buy
  | sell
  deriving DecidableEq, Repr

def Side.opposite : Side → Side
  | buy => sell
  | sell => buy

def Side.text : Side → String
  | buy => "BUY"
  | sell => "SELL"

inductive OrderKind
  | limit
  deriving DecidableEq, Repr

def OrderKind.text : OrderKind → String
  | limit => "LIMIT"

inductive TimeInForce
  /-- Rests until filled, cancelled, or its market is delisted. -/
  | goodTillExpire
  /-- Matched once on arrival; what remains is cancelled. -/
  | immediateOrCancel
  deriving DecidableEq, Repr

def TimeInForce.text : TimeInForce → String
  | goodTillExpire => "GTE"
  | immediateOrCancel => "IOC"

inductive OrderStatus
  | opened
  | partiallyFilled
  | filled
  | cancelled
  | expired
  deriving DecidableEq, Repr

namespace OrderStatus

def isTerminal : OrderStatus → Bool
  | opened | partiallyFilled => false
  | filled | cancelled | expired => true

def text : OrderStatus → String
  | opened => "OPEN"
  | partiallyFilled => "PARTIALLY_FILLED"
  | filled => "FILLED"
  | cancelled => "CANCELLED"
  | expired => "EXPIRED"

end OrderStatus

/-- Why an order leaves the book unfilled. -/
inductive CancelReason
  | manual
  | immediateOrCancel
  | delist
  deriving DecidableEq, Repr

def CancelReason.text : CancelReason → String
  | manual => "MANUAL"
  | immediateOrCancel => "IOC_REMAINDER"
  | delist => "DELIST"

/-- The status of an order cancelled for this reason. -/
def CancelReason.status : CancelReason → OrderStatus
  | manual | immediateOrCancel => .cancelled
  | delist => .expired

structure Order where
  id : OrderId
  sender : Address
  sequence : Nat
  pair : PairId
  side : Side
  kind : OrderKind
  timeInForce : TimeInForce
  price : Nat
  precision : Nat
  quantity : Nat
  remaining : Nat
  /-- Fee still frozen, in the base currency. -/
  frozenFee : Nat
  /-- Principal still frozen, in `principalDenom`. -/
  frozenPrincipal : Nat
  /-- Stock exchanged so far. -/
  dealStock : Nat
  /-- Money exchanged so far. -/
  dealMoney : Nat
  /-- The height at which the order was admitted. -/
  height : Nat
  status : OrderStatus
  deriving DecidableEq, Repr

namespace Order

def effectivePrice (o : Order) : Decimal := Price.scaled o.price o.precision

/-- The orders are on opposite sides and the buy's price reaches the sell's. -/
def crosses (o other : Order) : Bool :=
  match o.side, other.side with
  | .buy, .sell => other.effectivePrice ≤ o.effectivePrice
  | .sell, .buy => o.effectivePrice ≤ other.effectivePrice
  | _, _ => false

def principalDenom (o : Order) : Denom :=
  match o.side with
  | .buy => o.pair.money
  | .sell => o.pair.stock

/-- Compares by height, then sequence, then id. -/
def timeCmp (o other : Order) : Ordering :=
  (compare o.height other.height).then
    ((compare o.sequence other.sequence).then (compare o.id other.id))

/-- Earlier admission first; sequence and id break ties. -/
def isEarlier (o other : Order) : Bool := o.timeCmp other == .lt

def isFilled (o : Order) : Bool := o.remaining == 0

/-- What is filled of the order. More never remains of an order than it asked for. -/
def filledQuantity (o : Order) : Nat := Word.wrapSub o.quantity o.remaining

/-- The same for any record, unless the program stops over it. -/
def filledQuantity? [Build] (o : Order) : Option Nat :=
  if Build.stops (o.remaining ≤ o.quantity) then none else some o.filledQuantity

/-- The counters of the order have room for exchanging `quantity` stock for `money`. -/
def hasRoom (o : Order) (quantity money : Nat) : Bool :=
  quantity ≤ o.remaining && o.dealStock + quantity < Word.size && o.dealMoney + money < Word.size

/-- The order after exchanging `quantity` stock for `money`. Without room its counters wrap; a
checked build does not come so far. -/
def recordFill (o : Order) (quantity money : Nat) : Order :=
  let remaining := Word.wrapSub o.remaining quantity
  { o with
    remaining
    dealStock := Word.wrapAdd o.dealStock quantity
    dealMoney := Word.wrapAdd o.dealMoney money
    status := if remaining = 0 then .filled else .partiallyFilled }

/-- The same for any amounts, unless the program stops over them. -/
def recordFill? [Build] (o : Order) (quantity money : Nat) : Option Order :=
  if Build.stops (o.hasRoom quantity money) then none else some (o.recordFill quantity money)

/-- What returns the order's frozen principal and fee to its sender. -/
def releases (o : Order) (base : Denom) : List Effect :=
  Effect.moving [
    .unfreeze o.sender ⟨o.principalDenom, o.frozenPrincipal⟩,
    .unfreeze o.sender ⟨base, o.frozenFee⟩]

/-- The order with nothing frozen. -/
def released (o : Order) : Order := { o with frozenPrincipal := 0, frozenFee := 0 }

end Order

end Bourse
