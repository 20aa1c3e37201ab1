import Bourse.Fee
import Bourse.Trade.Basic

/-!
One fill between a buy and a sell. It exchanges the smaller remaining quantity, moves the money and
the stock, charges each side its share of the fee it has frozen, and releases what an order filled
by it still holds.
-/

namespace Bourse

/-- What the fills of a block have in common. -/
structure Venue where
  height : Nat
  feeCollector : Address
  baseCurrency : Denom
  deriving DecidableEq, Repr

/-- Both orders after the fill, its record, and what it moves. -/
structure Fill where
  buyer : Order
  seller : Order
  trade : Trade
  effects : List Effect
  deriving DecidableEq, Repr

namespace Fill

/-- The order after paying `principal` and `fee` for a fill. -/
def settle (o : Order) (principal fee quantity money : Nat) : Order :=
  { o with
    frozenPrincipal := o.frozenPrincipal - principal
    frozenFee := o.frozenFee - fee }.recordFill quantity money

/-- An order that a fill completed holds nothing any more. -/
def close (o : Order) : Order := if o.isFilled then o.released else o

/-- What is released with the order if it is filled. -/
def closing (o : Order) (base : Denom) : List Effect := if o.isFilled then o.releases base else []

/-- Money to the seller, stock to the buyer, both fees to the collector. -/
def transfers (v : Venue) (buyer seller : Order) (quantity money buyerFee sellerFee : Nat) :
    List Effect :=
  Effect.moving [
    .transfer buyer.sender seller.sender ⟨buyer.pair.money, money⟩,
    .transfer seller.sender buyer.sender ⟨buyer.pair.stock, quantity⟩,
    .transfer buyer.sender v.feeCollector ⟨v.baseCurrency, buyerFee⟩,
    .transfer seller.sender v.feeCollector ⟨v.baseCurrency, sellerFee⟩]

/-- The record of a fill, from the maker's and the taker's side of it. -/
def record (v : Venue) (seq : Nat) (pair : PairId) (price : Decimal) (quantity money : Nat)
    (maker taker : Order) (makerFee takerFee : Nat) : Trade where
  id := .ofFill v.height seq
  height := v.height
  fillSeq := seq
  pair
  makerOrder := maker.id
  maker := maker.sender
  takerOrder := taker.id
  taker := taker.sender
  takerSide := taker.side
  price
  quantity
  money
  makerFee
  takerFee

/-- The counters of both orders, and of the fills, have room for a fill. -/
def hasRoom (seq : Nat) (buyer seller : Order) (quantity money : Nat) : Bool :=
  buyer.hasRoom quantity money && seller.hasRoom quantity money && seq + 1 < Word.size

/-- Fills `buyer` against `seller` at `price`; `maker` is the side that was booked first. The buyer
must hold the money and the seller the stock. A checked build stops without room for the fill. -/
def execute [Build] (v : Venue) (seq : Nat) (maker : Side) (price : Decimal)
    (buyer seller : Order) : Except Fault Fill := do
  let quantity := min buyer.remaining seller.remaining
  let money ← Fee.fillMoney quantity price
  if buyer.frozenPrincipal < money then
    throw (.corruption
      s!"order {buyer.id.text} owes {money} but has {buyer.frozenPrincipal} frozen")
  if seller.frozenPrincipal < quantity then
    throw (.corruption
      s!"order {seller.id.text} delivers {quantity} but has {seller.frozenPrincipal} frozen")
  if Build.stops (hasRoom seq buyer seller quantity money) then throw .halted
  let buyerFee := Fee.share buyer.frozenFee quantity buyer.remaining
  let sellerFee := Fee.share seller.frozenFee quantity seller.remaining
  let buyer' := settle buyer money buyerFee quantity money
  let seller' := settle seller quantity sellerFee quantity money
  let trade :=
    match maker with
    | .buy => record v seq buyer.pair price quantity money buyer seller buyerFee sellerFee
    | .sell => record v seq buyer.pair price quantity money seller buyer sellerFee buyerFee
  return {
    buyer := close buyer'
    seller := close seller'
    trade
    effects := transfers v buyer seller quantity money buyerFee sellerFee
      ++ closing buyer' v.baseCurrency ++ closing seller' v.baseCurrency }

end Fill

end Bourse
