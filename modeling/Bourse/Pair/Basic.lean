import Bourse.Address
import Bourse.Decimal.Basic
import Bourse.Fault

namespace Bourse

/-- A market of a stock symbol against a money symbol. -/
structure Pair where
  stock : Denom
  money : Denom
  creator : Address
  precision : Nat
  /-- The price of the latest fill, zero before the first. -/
  lastPrice : Decimal
  /-- Blocks between two matchings. -/
  matchInterval : Nat
  creationHeight : Nat
  deriving DecidableEq, Repr

namespace Pair

def id (p : Pair) : PairId := .join p.stock p.money

def hasTraded (p : Pair) : Bool := !p.lastPrice.isZero

/-- Matching is due at every `matchInterval`-th height since creation. -/
def isMatchDue (p : Pair) (height : Nat) : Bool :=
  (height - p.creationHeight) % max p.matchInterval 1 == 0

end Pair

/-- The market id that a symbol spells. -/
def PairId.parse (symbol : String) : Except Fault PairId :=
  match PairId.ofSymbol? symbol with
  | some id => .ok id
  | none => .error (.badSymbol symbol)

end Bourse
