import Bourse.Decimal.Text
import Bourse.Order.Basic
import Bourse.Trade.Id

namespace Bourse

/-- One fill between a maker, booked before, and a taker, at the maker's price. -/
structure Trade where
  id : TradeId
  height : Nat
  /-- The number of the fill within its height. -/
  fillSeq : Nat
  pair : PairId
  makerOrder : OrderId
  maker : Address
  takerOrder : OrderId
  taker : Address
  takerSide : Side
  price : Decimal
  /-- Stock exchanged. -/
  quantity : Nat
  /-- Money exchanged. -/
  money : Nat
  makerFee : Nat
  takerFee : Nat
  deriving DecidableEq, Repr

namespace Trade

def takerIsBuyer (t : Trade) : Bool := t.takerSide == .buy

/-- Buyer and seller. -/
def counterparties (t : Trade) : Address × Address :=
  if t.takerIsBuyer then (t.taker, t.maker) else (t.maker, t.taker)

def text (t : Trade) : String :=
  s!"Trade[{t.id.text}] {t.pair.text} {t.takerSide.text} {t.quantity} @ {t.price.text} = {t.money}"

end Trade

end Bourse
