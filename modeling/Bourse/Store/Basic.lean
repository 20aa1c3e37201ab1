import Bourse.Store.Tables

/-!
The store: the tables and a journal. While the journal is open every write notes its inverse, and
`rollback` replays the inverses, the latest first. A write that is refused changes nothing.
-/

namespace Bourse

/-- The inverse of one write. -/
inductive Undo
  /-- What was stored under the pair's id before. -/
  | pair (id : PairId) (before : Option Pair)
  /-- What was stored under the order's id before. -/
  | order (id : OrderId) (before : Option Order)
  | delistAdded (r : DelistRequest)
  | delistRemoved (r : DelistRequest)
  | idUsed (id : OrderId)
  deriving DecidableEq, Repr

def Undo.apply (t : Tables) : Undo → Tables
  | pair id (some p) => t.filePair id p
  | pair id none => t.erasePair id
  | order id (some o) => (t.eraseOrder id).fileOrder id o
  | order id none => t.eraseOrder id
  | delistAdded r => t.eraseDelist r
  | delistRemoved r => t.insertDelist r
  | idUsed id => t.freeId id

structure Store where
  tables : Tables := {}
  /-- The inverses of the writes since the journal was opened, the latest first. -/
  journal : Option (List Undo) := none

namespace Store

/-- Opens a journal; one that is open is discarded. -/
def openJournal (s : Store) : Store := { s with journal := some [] }

/-- Keeps the writes since the journal was opened. -/
def commit (s : Store) : Store := { s with journal := none }

/-- Undoes the writes since the journal was opened, if one is. -/
def rollback (s : Store) : Store :=
  match s.journal with
  | some undos => ⟨undos.foldl Undo.apply s.tables, none⟩
  | none => s

/-- Writes new tables and notes how to undo that. -/
def write (s : Store) (undo : Undo) (tables : Tables) : Store :=
  ⟨tables, s.journal.map (undo :: ·)⟩

def pair? (s : Store) (id : PairId) : Option Pair := s.tables.pairs[id]?

def hasPair (s : Store) (id : PairId) : Bool := s.tables.pairs.contains id

def order? (s : Store) (id : OrderId) : Option Order := s.tables.orders[id]?

/-- Inserts a pair or overwrites it. -/
def setPair (s : Store) (p : Pair) : Store :=
  s.write (.pair p.id (s.pair? p.id)) (s.tables.insertPair p)

def insertPair (s : Store) (p : Pair) : Except Fault Store :=
  if s.hasPair p.id then .error (.marketExists p.id) else .ok (s.setPair p)

def updatePair (s : Store) (p : Pair) : Except Fault Store :=
  if s.hasPair p.id then .ok (s.setPair p)
  else .error (.corruption s!"updating missing pair {p.id.text}")

/-- Also answers whether the request is new. -/
def putDelist (s : Store) (r : DelistRequest) : Bool × Store :=
  if s.tables.delists.contains r then (false, s)
  else (true, s.write (.delistAdded r) (s.tables.insertDelist r))

/-- Also answers whether there was such a request. -/
def removeDelist (s : Store) (r : DelistRequest) : Bool × Store :=
  if s.tables.delists.contains r then
    (true, s.write (.delistRemoved r) (s.tables.eraseDelist r))
  else (false, s)

/-- Removes a pair, whose orders must be gone, with all delist requests that name it. -/
def removePair (s : Store) (id : PairId) : Except Fault (Option Pair × Store) :=
  if !(s.tables.indexed id).isEmpty then
    .error (.corruption s!"removing {id.text} with resting orders")
  else
    -- An empty entry is not journalled: no write of the store leaves one.
    let s := { s with tables := s.tables.dropPairFromIndex id }
    let stale := s.tables.delists.toList.filter fun r => r.pair == id
    let s := stale.foldl (fun s r => (s.removeDelist r).2) s
    match s.pair? id with
    | some p => .ok (some p, s.write (.pair id (some p)) (s.tables.erasePair id))
    | none => .ok (none, s)

/-- Reserves a new order id for ever. -/
def claimId (s : Store) (id : OrderId) : Except Fault Store :=
  if s.tables.isIdUsed id then .error (.orderExists id)
  else .ok (s.write (.idUsed id) (s.tables.useId id))

/-- Stores a new order under a new id. -/
def putOrder (s : Store) (o : Order) : Except Fault Store := do
  let s ← s.claimId o.id
  return s.write (.order o.id none) (s.tables.insertOrder o)

/-- Overwrites a stored order; the pair stays. -/
def updateOrder (s : Store) (o : Order) : Except Fault Store :=
  match s.order? o.id with
  | some before =>
      if before.pair = o.pair then
        .ok (s.write (.order o.id (some before)) (s.tables.replaceOrder o))
      else .error (.corruption s!"order {o.id.text} changed pair")
  | none => .error (.corruption s!"updating missing order {o.id.text}")

/-- Removes an order; its id stays used. -/
def removeOrder (s : Store) (id : OrderId) : Except Fault (Order × Store) :=
  match s.order? id with
  | some o => .ok (o, s.write (.order id (some o)) (s.tables.eraseOrder id))
  | none => .error (.orderNotFound id.text)

end Store

end Bourse
