import Bourse.Admission
import Bourse.Delisting

/-!
Carrying out one message on the ledger, answering its log line. Funds move last, by calls that
happen in full or not at all.

An order that rests is stored and its funds are frozen. An immediate order only claims its id: it is
matched against the book, what remains is released and cancelled, its funds are frozen, and the
whole is settled at once; if settlement refuses, the freeze is taken back.
-/

namespace Bourse

/-- What a message did: its log line, and what was settled for it. -/
structure Executed where
  log : String
  batch : Batch := {}
  deriving DecidableEq, Repr

namespace Ledger

/-- Stores an admitted order and freezes its funds. -/
def rest (a : Admission) : Action Ledger Executed := do
  onStore (.change fun s => s.putOrder a.order)
  onAccounts (Accounts.freezeAll a.order.sender a.holds)
  return { log := s!"order {a.order.id.text} accepted" }

/-- The batch of an immediate order, and the order with its remainder cancelled. -/
def finishTaker (c : Crossing) (taker : Order) (base : Denom) : Batch × Order :=
  if taker.isFilled then (c.batch, taker)
  else
    (⟨c.trades, c.effects ++ taker.releases base⟩,
      { taker.released with status := .cancelled })

/-- Matches an admitted order once. -/
def takeOnce [Build] (a : Admission) (params : Params) (height : Nat) :
    Action Ledger Executed := do
  let pair := a.order.pair
  onStore (.change fun s => s.claimId a.order.id)
  let book ← onStore (.ask fun s => s.loadBook pair)
  let venue : Venue := ⟨height, params.feeCollector, params.baseCurrency⟩
  let (matched, taker) := matchIncoming venue (← get).nextFill book a.order
  let c ← Action.ask fun _ => matched.outcome
  onStore (Store.writeBack pair c)
  let (batch, taker) := finishTaker c taker params.baseCurrency
  onAccounts (Accounts.freezeAll a.order.sender a.holds)
  (settle batch).orUndo (onAccounts (Accounts.releaseAll a.order.sender a.holds))
  modify fun l => { l with nextFill := matched.nextFill }
  let filled := s!"filled {taker.filledQuantity} of {taker.quantity}"
  return { log := s!"order {taker.id.text} {filled} in {batch.trades.length} trades", batch }

def placeOrder [Build] (m : PlaceOrder) (tokens : Tokens) (params : Params) (height : Nat) :
    Action Ledger Executed := do
  let l ← get
  let pair ← Action.ask fun _ => l.store.lookup m.symbol
  let reference := l.store.referencePrice pair.stock params.baseCurrency
  let a ← Action.ask fun _ =>
    m.pass params pair reference tokens l.clearing.accounts height
  match m.timeInForce with
  | .goodTillExpire => rest a
  | .immediateOrCancel => takeOnce a params height

/-- Cancels a resting order for its sender. An order of somebody else is not found. -/
def cancelOrder (m : CancelOrder) (params : Params) : Action Ledger Executed := do
  let isOwned := ((← get).store.order? m.order).any fun o => o.sender == m.sender
  if !isOwned then throw (.orderNotFound m.order.text)
  let (o, effects) ← onStore (.take fun s => s.cancel m.order .manual params.baseCurrency)
  settle { effects }
  return { log := s!"order {o.id.text} cancelled", batch := { effects } }

def execute [Build] (tokens : Tokens) (params : Params) (header : Header) :
    Message → Action Ledger Executed
  | .createPair m => do
      let id ← Listing.create m tokens params header.height
      return { log := s!"trading pair {id.text} created" }
  | .delistPair m => do
      let r ← onStore (.take (Store.scheduleDelist m params header.time))
      return { log := s!"{r.pair.text} delists at {r.effectiveTime}" }
  | .raisePrecision m => do
      let (old, new) ← onStore (.take (Listing.raisePrecision m params))
      return { log := s!"{m.symbol} precision {old} -> {new}" }
  | .placeOrder m => placeOrder m tokens params header.height
  | .cancelOrder m => cancelOrder m params

end Ledger

end Bourse
