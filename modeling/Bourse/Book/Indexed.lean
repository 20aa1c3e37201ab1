import Bourse.Action
import Bourse.Book.Basic

/-!
A book that finds its orders by id. Its index holds the side and the price of every order: the price
leads to the level, and the order is looked for there.
-/

namespace Bourse

structure IndexedBook extends Book where
  index : Std.ExtTreeMap OrderId (Side × Decimal)

namespace IndexedBook

def empty (pair : PairId) : IndexedBook := ⟨.empty pair, ∅⟩

/-- Indexes what a book holds. -/
def ofBook (b : Book) : IndexedBook :=
  ⟨b, b.all.foldl (fun index o => index.insert o.id (o.side, o.effectivePrice)) ∅⟩

def contains (b : IndexedBook) (id : OrderId) : Bool := b.index.contains id

def size (b : IndexedBook) : Nat := b.index.size

def isEmpty (b : IndexedBook) : Bool := b.index.isEmpty

/-- Looks an order up in the level that the index names. -/
def get? (b : IndexedBook) (id : OrderId) : Option Order := do
  let (side, price) ← b.index[id]?
  let level ← (b.levels side).find? fun l => Book.rank side price l.price == .eq
  level.find? id

/-- Books an order. It must be of the book's market, unfilled, and new to the index. -/
def insert (o : Order) : Action IndexedBook Unit := do
  let b ← get
  if o.pair ≠ b.pair then
    throw (.corruption s!"order {o.id.text} of {o.pair.text} in book {b.pair.text}")
  if o.isFilled then
    throw (.corruption s!"filled order {o.id.text} cannot rest")
  if b.contains o.id then
    throw (.orderExists o.id)
  modify fun b => { b with index := b.index.insert o.id (o.side, o.effectivePrice) }
  modify fun b => { b with toBook := b.setLevels o.side (Book.place o (b.levels o.side)) }

def ofOrders (pair : PairId) (orders : List Order) : Except Fault IndexedBook :=
  let (ended, b) := (orders.forM insert).outcome (empty pair)
  ended.map fun _ => b

/-- Removes the best order, and its entry in the index. -/
def pop? (b : IndexedBook) (side : Side) : Option (Order × IndexedBook) :=
  match b.toBook.pop? side with
  | some (o, rest) => some (o, { toBook := rest, index := b.index.erase o.id })
  | none => none

/-- Records a fill of the best order, where it stands. A checked build stops without room for it. -/
def fillBest [Build] (b : IndexedBook) (side : Side) (quantity money : Nat) :
    Except Fault (Option (Order × IndexedBook)) :=
  match b.best? side with
  | some o =>
      match o.recordFill? quantity money with
      | some o => .ok (some (o, { b with toBook := b.setBest side o }))
      | none => .error .halted
  | none => .ok none

/-- Takes out the best order of a side again and again, at most `n` times. -/
def popMany (side : Side) : Nat → IndexedBook → List Order × IndexedBook
  | 0, b => ([], b)
  | n + 1, b =>
      match b.pop? side with
      | none => ([], b)
      | some (o, b') =>
          let (rest, b'') := popMany side n b'
          (o :: rest, b'')

/-- Takes out everything on a side, best first. -/
def drain (b : IndexedBook) (side : Side) : List Order × IndexedBook := popMany side b.size b

end IndexedBook

end Bourse
