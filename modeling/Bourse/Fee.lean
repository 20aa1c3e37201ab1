import Bourse.Decimal.Text
import Bourse.Params

/-!
Amounts of an order: its principal, its fee, and what a fill moves. Every amount is a decimal
product that is made a whole number once, at the end.

The fee is charged in the base currency: `quantity * rate` when the stock is the base currency,
`quantity * price * rate` at the last price of the stock in the base currency, or a fixed fee while
there is no such price.
-/

namespace Bourse.Fee

/-- The whole number as an amount. -/
def toAmount (x : Decimal) (what : String) : Except Fault Nat :=
  match x.toWord? with
  | some n => .ok n
  | none => .error (.overflow s!"{what} = {x.text}")

def multiply (x y : Decimal) (what : String) : Except Fault Decimal :=
  match x.mul? y with
  | some z => .ok z
  | none => .error (.overflow s!"{what}: {x.text} * {y.text}")

def roundAmount (x : Decimal) (mode : Rounding) (what : String) : Except Fault Nat :=
  toAmount (x.round mode) what

/-- The fee of an order for `quantity` stock; `reference` is the last price of the stock in the base
currency, zero if there is none. -/
def tradeFee (params : Params) (stockIsBase : Bool) (reference : Decimal) (quantity : Nat) :
    Except Fault Nat := do
  let stock := Decimal.ofNat quantity
  if stockIsBase then
    roundAmount (← multiply stock params.feeRate "fee") params.rounding "fee"
  else if reference.isZero then
    return params.fixedTradeFee
  else
    let notional ← multiply stock reference "fee notional"
    roundAmount (← multiply notional params.feeRate "fee") params.rounding "fee"

/-- The money that a buy freezes. -/
def buyPrincipal (price precision quantity : Nat) (mode : Rounding) : Except Fault Nat := do
  roundAmount (← multiply (Price.scaled price precision) (Decimal.ofNat quantity) "principal")
    mode "principal"

/-- The money that a fill moves, rounded down in the buyer's favour. -/
def fillMoney (quantity : Nat) (price : Decimal) : Except Fault Nat := do
  toAmount (← multiply (Decimal.ofNat quantity) price "fill money").floor "fill money"

/-- The share of `frozen` that a fill of `quantity` out of `remaining` consumes; the last fill takes
all of it. -/
def share (frozen quantity remaining : Nat) : Nat :=
  if remaining = 0 ∨ remaining ≤ quantity then frozen else frozen * quantity / remaining

/-- A market quoted in the base currency needs the least precision. -/
def checkMarketPrecision (params : Params) (moneyIsBase : Bool) (precision : Nat) :
    Except Fault Unit :=
  if params.maxPrecision < precision then
    .error (.badPrecision s!"{precision} exceeds maximum {params.maxPrecision}")
  else if moneyIsBase ∧ precision < params.minPrecision then
    .error (.badPrecision
      s!"{precision} below minimum {params.minPrecision} for {params.baseCurrency}-quoted pairs")
  else .ok ()

/-- A precision only grows, up to `most`. -/
def checkPrecisionChange (old new most : Nat) : Except Fault Unit :=
  if most < new then .error (.badPrecision s!"{new} exceeds maximum {most}")
  else if new ≤ old then .error (.badPrecision s!"{new} must be greater than current {old}")
  else .ok ()

def checkListingFee (available required : Nat) (denom : Denom) : Except Fault Unit :=
  if available < required then .error (.insufficientFunds denom required available) else .ok ()

theorem share_le {frozen quantity remaining : Nat} : share frozen quantity remaining ≤ frozen := by
  unfold share
  split
  · exact Nat.le_refl _
  · rename_i h
    refine Nat.div_le_of_le_mul ?_
    rw [Nat.mul_comm remaining]
    exact Nat.mul_le_mul_left _ (by omega)

end Bourse.Fee
