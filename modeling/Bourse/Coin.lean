import Bourse.Pair.Id
import Bourse.Word

/-! Amounts of a denomination, and what an account holds of one: a part it may spend and a part
frozen against its orders. -/

namespace Bourse

structure Coin where
  denom : Denom
  amount : Nat
  deriving DecidableEq, Repr

namespace Coin

def isZero (c : Coin) : Bool := c.amount == 0

def text (c : Coin) : String := toString c.amount ++ c.denom

end Coin

structure Holding where
  available : Nat := 0
  frozen : Nat := 0
  deriving DecidableEq, Repr

namespace Holding

def total (h : Holding) : Nat := h.available + h.frozen

def isZero (h : Holding) : Bool := h.available == 0 && h.frozen == 0

end Holding

end Bourse
