import Bourse.Fee
import Bourse.Ledger
import Bourse.Message
import Bourse.Tokens

/-!
Listing of markets. The checks for a new market run in this order, and the first failure wins:

1. both symbols are issued tokens
2. the creator issued one of them
3. the precision suits the parameters
4. the creator can pay the listing fee
5. the stock has a market in the base currency, unless one side is the base currency
6. the market is new

The market is stored before the fee moves and removed again if the fee cannot move.
-/

namespace Bourse

namespace Store

/-- The market that a symbol names. -/
def lookup (s : Store) (symbol : String) : Except Fault Pair := do
  match s.pair? (← PairId.parse symbol) with
  | some pair => return pair
  | none => throw (.badSymbol symbol)

/-- The last price of a stock in the base currency; zero for the base currency itself and for a
stock without such a market or price. -/
def referencePrice (s : Store) (stock base : Denom) : Decimal :=
  if stock = base then .zero
  else
    match s.pair? (.join stock base) with
    | some pair => pair.lastPrice
    | none => .zero

/-- Notes the price of the latest fill of a market. -/
def setLastPrice (s : Store) (id : PairId) (price : Decimal) : Except Fault Store :=
  match s.pair? id with
  | some pair => s.updatePair { pair with lastPrice := price }
  | none => .error (.corruption s!"trade on unknown pair {id.text}")

end Store

def Pair.requireCreator (p : Pair) (sender : Address) : Except Fault Unit :=
  if p.creator ≠ sender then .error (.notCreator sender.text p.creator.text) else .ok ()

namespace Listing

/-- The six checks. -/
def check (m : CreatePair) (tokens : Tokens) (params : Params) (l : Ledger) :
    Except Fault Unit := do
  let base := params.baseCurrency
  if !tokens.isIssued m.stock then throw (.unknownToken m.stock)
  if !tokens.isIssued m.money then throw (.unknownToken m.money)
  if !tokens.isIssuer m.creator m.stock && !tokens.isIssuer m.creator m.money then
    throw (.notIssuer m.creator.text m.stock m.money)
  Fee.checkMarketPrecision params (m.money == base) m.precision
  let available := (l.clearing.accounts.holding m.creator base).available
  Fee.checkListingFee available params.createMarketFee base
  if m.money ≠ base ∧ m.stock ≠ base ∧ !l.store.hasPair (.join m.stock base) then
    throw (.noBaseMarket m.stock base)
  if l.store.hasPair (.join m.stock m.money) then throw (.marketExists (.join m.stock m.money))

/-- The record of a market listed at `height`. -/
def newPair (m : CreatePair) (params : Params) (height : Nat) : Pair where
  stock := m.stock
  money := m.money
  creator := m.creator
  precision := m.precision
  lastPrice := .zero
  matchInterval := params.matchInterval
  creationHeight := height

/-- Lists a market and charges its creator. -/
def create (m : CreatePair) (tokens : Tokens) (params : Params) (height : Nat) :
    Action Ledger PairId := do
  Action.ask (check m tokens params)
  let pair := newPair m params height
  Ledger.onStore (.change fun s => s.insertPair pair)
  let charge : Coin := ⟨params.baseCurrency, params.createMarketFee⟩
  (Ledger.onAccounts (.change fun a => a.send m.creator params.feeCollector charge)).orUndo
    (Ledger.onStore (discard (Action.take fun s => s.removePair pair.id)))
  return pair.id

/-- Raises the precision of a market for its creator; answers the old and the new one. -/
def raisePrecision (m : RaisePrecision) (params : Params) (s : Store) :
    Except Fault ((Nat × Nat) × Store) := do
  let pair ← s.lookup m.symbol
  pair.requireCreator m.sender
  Fee.checkPrecisionChange pair.precision m.precision params.maxPrecision
  let s ← s.updatePair { pair with precision := m.precision }
  return ((pair.precision, m.precision), s)

end Listing

end Bourse
