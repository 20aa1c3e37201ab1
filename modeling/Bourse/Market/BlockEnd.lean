import Bourse.Delisting
import Bourse.Trade.Root

/-!
The end of a block. The markets that are due are matched in order of their ids, each until its book
is no longer crossed; then the delist requests that are due are carried out. All this only writes to
the store. The trades and effects of the whole block end are settled last, in one batch.
-/

namespace Bourse

/-- What a block end did. -/
structure Report where
  height : Nat
  trades : List Trade
  /-- The digest of the trades. -/
  tradeRoot : List UInt8
  /-- Orders that expired with their market. -/
  cancelled : List OrderId
  delisted : List PairId
  deriving DecidableEq, Repr

namespace Report

/-- The report on the trades of a block and its delistings. -/
def of (height : Nat) (trades : List Trade) (sweep : Sweep) : Report where
  height
  trades
  tradeRoot := Trade.root trades
  cancelled := sweep.cancelled.map (·.id)
  delisted := sweep.delisted

def rootText (r : Report) : String := Digest.hex (Trade.root r.trades)

def isEmpty (r : Report) : Bool := r.trades.isEmpty && r.cancelled.isEmpty && r.delisted.isEmpty

end Report

namespace Store

/-- Of these markets those to match at a height. -/
def duePairs (s : Store) (height : Nat) : List PairId → Except Fault (List PairId)
  | [] => .ok []
  | id :: rest =>
      match s.pair? id with
      | none => .error (.corruption s!"resting orders on unknown pair {id.text}")
      | some pair => do
          let due ← s.duePairs height rest
          return if pair.isMatchDue height then id :: due else due

/-- Matches markets in turn; answers what is to settle and the number of the next fill. -/
def matchPairs [Build] (v : Venue) (nextFill : Nat) : List PairId → Action Store (Batch × Nat)
  | [] => return ({}, nextFill)
  | id :: rest => do
      let (c, nextFill) ← matchPair v nextFill id
      let (batch, nextFill) ← matchPairs v nextFill rest
      return (c.batch ++ batch, nextFill)

end Store

/-- Ends a block; also answers what was settled. -/
def Ledger.endBlock [Build] (params : Params) (header : Header) :
    Action Ledger (Report × Batch) := do
  let base := params.baseCurrency
  let venue : Venue := ⟨header.height, params.feeCollector, base⟩
  let due ← onStore (.ask fun s => s.duePairs header.height s.tables.activePairs)
  let (batch, nextFill) ← onStore (Store.matchPairs venue (← get).nextFill due)
  let sweep ← onStore (Store.sweepDue header.time base)
  let batch := batch ++ { effects := sweep.effects }
  settle batch
  modify fun l => { l with nextFill }
  return (Report.of header.height batch.trades sweep, batch)

end Bourse
