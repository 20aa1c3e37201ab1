import Bourse.Decimal.Basic

/-! Prices are whole numbers scaled by a precision: `100` at precision 8 is `0.00000100` money for a
unit of stock. -/

namespace Bourse.Price

/-- The highest precision a market may ever have. -/
def maxPrecision : Nat := 18

/-- The price as a number; a precision beyond the highest counts as the highest. -/
def scaled (price precision : Nat) : Decimal := ⟨false, price, min precision maxPrecision⟩

end Bourse.Price
