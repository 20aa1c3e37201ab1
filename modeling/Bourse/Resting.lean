import Bourse.Action
import Bourse.Listing
import Bourse.Matching.Pass

/-! From the stored orders of a market to its book, and from a matching pass back to the store. -/

namespace Bourse

/-- What there is to settle after a pass. -/
def Crossing.batch (c : Crossing) : Batch := ⟨c.trades, c.effects⟩

namespace Store

def loadBook (s : Store) (pair : PairId) : Except Fault Book :=
  Book.ofOrders pair (s.tables.ordersOf pair)

/-- Removes an order that was filled. -/
def removeFilled (s : Store) (o : Order) : Except Fault Store :=
  match s.removeOrder o.id with
  | .ok (_, s) => .ok s
  | .error _ => .error (.corruption s!"filled order {o.id.text} not in store")

/-- Writes the result of a pass back: filled orders leave, the others change, the market notes its
last price. -/
def writeBack (pair : PairId) (c : Crossing) : Action Store Unit := do
  c.filled.forM fun o => .change fun s => s.removeFilled o
  c.updated.forM fun o => .change fun s => s.updateOrder o
  match c.lastPrice with
  | some price => .change fun s => s.setLastPrice pair price
  | none => return

/-- Takes a resting order out; answers it as cancelled, and what returns its funds. -/
def cancel (s : Store) (id : OrderId) (reason : CancelReason) (base : Denom) :
    Except Fault ((Order × List Effect) × Store) := do
  let (o, s) ← s.removeOrder id
  return (({ o.released with status := reason.status }, o.releases base), s)

/-- Matches the resting orders of a market and writes the result back. -/
def matchPair [Build] (v : Venue) (nextFill : Nat) (pair : PairId) :
    Action Store (Crossing × Nat) := do
  let book ← Action.ask fun s => s.loadBook pair
  let matched := matchResting v nextFill book
  let c ← Action.ask fun _ => matched.outcome
  unless c.isEmpty do writeBack pair c
  return (c, matched.nextFill)

end Store

end Bourse
