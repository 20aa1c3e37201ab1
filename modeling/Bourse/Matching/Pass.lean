import Bourse.Book.Basic
import Bourse.Matching.Fill
import Bourse.Word

/-!
A matching pass: fills one after the other until nothing crosses. Two passes share the fill.

* `matchIncoming` fills an order that is not booked against the best orders of the other side.
* `matchResting` fills the best bid against the best ask.

Priority is best price, then earlier admission. The price is that of the order booked first. Every
fill completes an order, so the orders bound the fills. A fill that fails ends the pass; the fills
before it stay made.
-/

namespace Bourse

/-- What a pass produced. -/
structure Crossing where
  trades : List Trade := []
  effects : List Effect := []
  /-- Booked orders that were filled in part, as they are now. -/
  updated : List Order := []
  /-- Booked orders that were filled and left the book. -/
  filled : List Order := []
  /-- The price of the last fill. -/
  lastPrice : Option Decimal := none
  deriving DecidableEq, Repr

def Crossing.isEmpty (c : Crossing) : Bool := c.trades.isEmpty

def Crossing.addFill (c : Crossing) (f : Fill) : Crossing :=
  { c with
    trades := c.trades ++ [f.trade]
    effects := c.effects ++ f.effects
    lastPrice := some f.trade.price }

def Crossing.addFilled (c : Crossing) (o : Order) : Crossing :=
  { c with filled := c.filled ++ [o] }

/-- A pass under way. -/
structure Pass where
  book : Book
  /-- The number of the next fill. -/
  nextFill : Nat
  crossing : Crossing
  /-- Ids of booked orders that were filled in part. -/
  touched : Std.ExtTreeSet OrderId

namespace Pass

def start (book : Book) (nextFill : Nat) : Pass := ⟨book, nextFill, {}, ∅⟩

/-- Counts a fill. A checked build does not come so far that the number wraps. -/
def addFill (p : Pass) (f : Fill) : Pass :=
  { p with nextFill := Word.wrapAdd p.nextFill 1, crossing := p.crossing.addFill f }

/-- Writes the new state `o` of the best order of `side` back: out of the book if it is filled. -/
def settleBest (p : Pass) (side : Side) (o : Order) : Pass :=
  let book := p.book.setBest side o
  if o.isFilled then
    match book.pop? side with
    | some (filled, rest) =>
        { p with
          book := rest
          crossing := p.crossing.addFilled filled
          touched := p.touched.erase filled.id }
    | none => { p with book }
  else { p with book, touched := p.touched.insert o.id }

/-- The result, with the touched orders that are still booked, by id. -/
def finish (p : Pass) : Crossing :=
  { p.crossing with updated := p.touched.toList.filterMap p.book.find? }

/-- Repeats a step until it has nothing to do or fails, at most `fuel` times. -/
def run {σ : Type} (step : σ → Option (Except Fault σ)) : Nat → σ → Except Fault Unit × σ
  | 0, s => (.ok (), s)
  | fuel + 1, s =>
      match step s with
      | none => (.ok (), s)
      | some (.error fault) => (.error fault, s)
      | some (.ok s') => run step fuel s'

/-- The side of a crossing pair that was booked first, and its price. -/
def terms (bid ask : Order) : Side × Decimal :=
  if bid.isEarlier ask then (.buy, bid.effectivePrice) else (.sell, ask.effectivePrice)

/-- Fills the best bid against the best ask if they cross. -/
def restingStep [Build] (v : Venue) (p : Pass) : Option (Except Fault Pass) :=
  match p.book.best? .buy, p.book.best? .sell with
  | some bid, some ask =>
      if bid.crosses ask then
        let (maker, price) := terms bid ask
        some do
          let f ← Fill.execute v p.nextFill maker price bid ask
          return ((p.addFill f).settleBest .buy f.buyer).settleBest .sell f.seller
      else none
  | _, _ => none

/-- Fills the taker against the best order of the other side, the maker, if they cross. -/
def incomingStep [Build] (v : Venue) : Pass × Order → Option (Except Fault (Pass × Order))
  | (p, taker) =>
      if taker.isFilled then none
      else
        match p.book.best? taker.side.opposite with
        | none => none
        | some maker =>
            if taker.crosses maker then
              some <|
                match taker.side with
                | .buy => do
                    let f ← Fill.execute v p.nextFill .sell maker.effectivePrice taker maker
                    return ((p.addFill f).settleBest .sell f.seller, f.buyer)
                | .sell => do
                    let f ← Fill.execute v p.nextFill .buy maker.effectivePrice maker taker
                    return ((p.addFill f).settleBest .buy f.buyer, f.seller)
            else none

end Pass

/-- What became of a book: the outcome, the book, and the number of the next fill. -/
structure Matched where
  outcome : Except Fault Crossing
  book : Book
  nextFill : Nat

/-- The program stopped over a fill. -/
def Matched.hasStopped (m : Matched) : Bool :=
  match m.outcome with
  | .error .halted => true
  | _ => false

def Pass.matched (p : Pass) (ended : Except Fault Unit) : Matched :=
  ⟨ended.map fun _ => p.finish, p.book, p.nextFill⟩

def matchResting [Build] (v : Venue) (nextFill : Nat) (book : Book) : Matched :=
  let (ended, p) := Pass.run (Pass.restingStep v) book.size (.start book nextFill)
  p.matched ended

/-- Also answers the taker as it is afterwards; it is never booked. -/
def matchIncoming [Build] (v : Venue) (nextFill : Nat) (book : Book) (taker : Order) :
    Matched × Order :=
  let (ended, p, taker') :=
    Pass.run (Pass.incomingStep v) (book.size + 1) (.start book nextFill, taker)
  (p.matched ended, taker')

end Bourse
