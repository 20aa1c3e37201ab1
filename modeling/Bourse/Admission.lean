import Bourse.Accounts.Escrow
import Bourse.Fee
import Bourse.Message
import Bourse.Tokens

/-!
The gate for new orders. Admission computes what an order must hold, checks that its sender has it
and may trade the pair, and writes nothing; the first failing check refuses the order.
-/

namespace Bourse

/-- An order that passed, and the coins to freeze for it. -/
structure Admission where
  order : Order
  holds : List Coin
  deriving DecidableEq, Repr

/-- What the order's side puts up: money for a buy, stock for a sell. -/
def PlaceOrder.principal (m : PlaceOrder) (params : Params) (pair : Pair) : Except Fault Coin :=
  match m.side with
  | .buy => do
      return ⟨pair.money, ← Fee.buyPrincipal m.price m.precision m.quantity params.rounding⟩
  | .sell => .ok ⟨pair.stock, m.quantity⟩

/-- The new order of a message, with this principal and fee frozen. -/
def PlaceOrder.order (m : PlaceOrder) (params : Params) (pair : Pair) (principal fee height : Nat) :
    Order where
  id := .assemble m.sender m.sequence params.chainIdVersion
  sender := m.sender
  sequence := m.sequence
  pair := pair.id
  side := m.side
  kind := m.kind
  timeInForce := m.timeInForce
  price := m.price
  precision := m.precision
  quantity := m.quantity
  remaining := m.quantity
  frozenFee := fee
  frozenPrincipal := principal
  dealStock := 0
  dealMoney := 0
  height
  status := .opened

/-- Checks precision, then funds, then the issuers' lists. `reference` is the last price of the
stock in the base currency, zero if there is none. -/
def PlaceOrder.pass (m : PlaceOrder) (params : Params) (pair : Pair) (reference : Decimal)
    (tokens : Tokens) (accounts : Accounts) (height : Nat) : Except Fault Admission := do
  if pair.precision < m.precision then
    throw (.badPrecision
      s!"order precision {m.precision} exceeds {pair.id.text} precision {pair.precision}")
  let principal ← m.principal params pair
  let fee ← Fee.tradeFee params (pair.stock == params.baseCurrency) reference m.quantity
  let holds ← mergeHolds [principal, ⟨params.baseCurrency, fee⟩]
  accounts.checkSufficient m.sender holds
  tokens.checkForbidden m.sender pair
  return ⟨m.order params pair principal.amount fee height, holds⟩

end Bourse
