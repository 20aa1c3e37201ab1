import Bourse.Market.BlockEnd
import Bourse.Market.Execute

/-!
The market: a ledger with the tokens, the parameters and the header of the current block. Messages
are delivered one by one and a block is ended by one pass. Either takes effect in full, or the
ledger stays as it was.
-/

namespace Bourse

structure Market where
  ledger : Ledger := {}
  tokens : Tokens := {}
  params : Params
  header : Header := ⟨0, 0⟩

namespace Market

/-- The name by which the engine reports itself. -/
def engine : String := "spotx"

def version : String := "0.1.0"

/-- A market with these parameters, if they are valid, and nothing else. -/
def new (params : Params) : Except Fault Market := do return { params := ← params.check }

/-- Messages delivered afterwards see this height and time. -/
def beginBlock (m : Market) (header : Header) : Market :=
  { m with header, ledger := { m.ledger with nextFill := 0 } }

/-- Carries out a message that passed the checks without state. -/
def apply [Build] (m : Market) (msg : Message) : Except Fault Executed × Market :=
  let (result, ledger) :=
    Ledger.atomically (Ledger.execute m.tokens m.params m.header msg) m.ledger
  (result, { m with ledger })

def deliver [Build] (m : Market) (msg : Message) : Receipt × Market :=
  match msg.check with
  | .error fault => (.refused fault, m)
  | .ok () =>
      match m.apply msg with
      | (.ok done, m) => (.accepted done.log, m)
      | (.error fault, m) => (.refused fault, m)

/-- What a delivery answers and leaves, unless the program stops over it. -/
def deliver? [Build] (m : Market) (msg : Message) : Option (Receipt × Market) :=
  match msg.check, (m.apply msg).1 with
  | .ok (), .error .halted => none
  | _, _ => some (m.deliver msg)

/-- Ends a block, also answering what was settled; the header is taken over even if that fails. -/
def closeBlock [Build] (m : Market) (header : Header) :
    Except Fault (Report × Batch) × Market :=
  let (result, ledger) := Ledger.atomically (Ledger.endBlock m.params header) m.ledger
  (result, { m with header, ledger })

def endBlock [Build] (m : Market) (header : Header) : Except Fault Report × Market :=
  let (result, m) := m.closeBlock header
  (result.map (·.1), m)

/-- What a block end answers and leaves, unless the program stops over it. -/
def endBlock? [Build] (m : Market) (header : Header) : Option (Except Fault Report × Market) :=
  match (m.endBlock header).1 with
  | .error .halted => none
  | _ => some (m.endBlock header)

/-- Installs a market record without checks or fee. -/
def setPair (m : Market) (pair : Pair) : Market :=
  { m with ledger := { m.ledger with store := m.ledger.store.setPair pair } }

/-- Replaces the parameters by a valid set. -/
def setParams (m : Market) (params : Params) : Except Fault Market := do
  return { m with params := ← params.check }

def order? (m : Market) (id : OrderId) : Option Order := m.ledger.store.order? id

def pairInfo (m : Market) (symbol : String) : Except Fault Pair := m.ledger.store.lookup symbol

def pairs (m : Market) : List Pair := m.ledger.store.tables.pairs.values

def ordersOf (m : Market) (pair : PairId) : List Order := m.ledger.store.tables.ordersOf pair

def ordersBy (m : Market) (sender : Address) : List Order := m.ledger.store.tables.ordersBy sender

def dueMarkets (m : Market) (time : Int) : List PairId := m.ledger.store.dueMarkets time

end Market

end Bourse
