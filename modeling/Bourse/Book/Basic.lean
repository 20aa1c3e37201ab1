import Bourse.Book.Level
import Bourse.Fault

/-!
The book of one market: on each side the price levels, best price first, and within a level the
orders by time. No level is empty. A level keeps the price of its first order as its text; orders of
another precision and the same price join it.
-/

namespace Bourse

structure Book where
  pair : PairId
  bids : List Level
  asks : List Level
  deriving DecidableEq, Repr

namespace Book

def empty (pair : PairId) : Book := ⟨pair, [], []⟩

def levels (b : Book) : Side → List Level
  | .buy => b.bids
  | .sell => b.asks

def setLevels (b : Book) (side : Side) (levels : List Level) : Book :=
  match side with
  | .buy => { b with bids := levels }
  | .sell => { b with asks := levels }

/-- The orders of a side by price, then time. -/
def orders (b : Book) (side : Side) : List Order := (b.levels side).flatMap (·.orders)

def all (b : Book) : List Order := b.orders .buy ++ b.orders .sell

def size (b : Book) : Nat := b.all.length

def isEmpty (b : Book) : Bool := b.all.isEmpty

def find? (b : Book) (id : OrderId) : Option Order := b.all.find? fun o => o.id == id

def contains (b : Book) (id : OrderId) : Bool := b.all.any fun o => o.id == id

/-- Compares prices from the better to the worse: high to low for buys, low to high for sells. -/
def rank : Side → Decimal → Decimal → Ordering
  | .buy, p, q => q.cmp p
  | .sell, p, q => p.cmp q

/-- Puts an order into the level of its price, which is made if there is none. -/
def place (o : Order) : List Level → List Level
  | [] => [⟨o.effectivePrice, [o]⟩]
  | l :: rest =>
      match rank o.side o.effectivePrice l.price with
      | .lt => ⟨o.effectivePrice, [o]⟩ :: l :: rest
      | .eq => l.insert o :: rest
      | .gt => l :: place o rest

/-- Books an order. It must be of the book's market, unfilled, and new to the book. -/
def insert (b : Book) (o : Order) : Except Fault Book :=
  if o.pair ≠ b.pair then
    .error (.corruption s!"order {o.id.text} of {o.pair.text} in book {b.pair.text}")
  else if o.isFilled then .error (.corruption s!"filled order {o.id.text} cannot rest")
  else if b.contains o.id then .error (.orderExists o.id)
  else .ok (b.setLevels o.side (place o (b.levels o.side)))

def ofOrders (pair : PairId) (orders : List Order) : Except Fault Book :=
  orders.foldlM insert (empty pair)

/-- The first order of the best level. -/
def best? (b : Book) (side : Side) : Option Order :=
  match b.levels side with
  | l :: _ => l.front?
  | [] => none

/-- Removes the best order, and its level with the last order of it. -/
def pop? (b : Book) (side : Side) : Option (Order × Book) :=
  match b.levels side with
  | [] => none
  | l :: rest =>
      match l.pop? with
      | none => none
      | some (o, l') => some (o, b.setLevels side (if l'.isEmpty then rest else l' :: rest))

/-- Replaces the best order by a new state of it. -/
def setBest (b : Book) (side : Side) (o : Order) : Book :=
  match b.levels side with
  | [] => b
  | l :: rest => b.setLevels side (l.setFront o :: rest)

def bestPrice? (b : Book) (side : Side) : Option Decimal := (b.levels side).head?.map (·.price)

/-- The best bid reaches the best ask. -/
def isCrossed (b : Book) : Bool :=
  match b.bestPrice? .buy, b.bestPrice? .sell with
  | some bid, some ask => ask ≤ bid
  | _, _ => false

/-- Takes out the best order of a side again and again, at most `n` times. -/
def popMany (side : Side) : Nat → Book → List Order × Book
  | 0, b => ([], b)
  | n + 1, b =>
      match b.pop? side with
      | none => ([], b)
      | some (o, b') =>
          let (rest, b'') := popMany side n b'
          (o :: rest, b'')

/-- Takes out everything on a side, best first. -/
def drain (b : Book) (side : Side) : List Order × Book := popMany side b.size b

end Book

end Bourse
