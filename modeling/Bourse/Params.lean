import Bourse.Decimal.Basic
import Bourse.Fault
import Bourse.Price

/-! The parameters that governance sets, and the rules a set of them must meet. -/

namespace Bourse

structure Params where
  /-- Charged for listing a market, in the base currency. -/
  createMarketFee : Nat
  /-- The fee of an order while its stock has no price in the base currency. -/
  fixedTradeFee : Nat
  /-- The fee rate, scaled by `feeRatePrecision`. -/
  feeRateNumerator : Nat
  feeRatePrecision : Nat
  rounding : Rounding
  /-- The least precision of a market quoted in the base currency. -/
  minPrecision : Nat
  maxPrecision : Nat
  /-- Seconds from a delist request to the earliest time it may name. -/
  minDelistDelay : Int
  /-- Part of every order id; raised when the chain restarts. -/
  chainIdVersion : Int
  /-- Given to new markets. -/
  matchInterval : Nat
  baseCurrency : Denom
  feeCollector : Address
  deriving DecidableEq, Repr

namespace Params

def default : Params where
  createMarketFee := 1000000000000
  fixedTradeFee := 1000000
  feeRateNumerator := 10
  feeRatePrecision := 4
  rounding := .halfEven
  minPrecision := 8
  maxPrecision := Price.maxPrecision
  minDelistDelay := 60 * 60 * 24 * 7
  chainIdVersion := 0
  matchInterval := 1
  baseCurrency := "cet"
  feeCollector := ⟨"fee_collector"⟩

def feeRate (p : Params) : Decimal := ⟨false, p.feeRateNumerator, p.feeRatePrecision⟩

/-- The highest precision of the fee rate. -/
def maxFeeRatePrecision : Nat := 18

/-- The first rule that the set breaks, if any. -/
def defect? (p : Params) : Option String :=
  if Price.maxPrecision < p.maxPrecision then
    some s!"max_price_precision {p.maxPrecision} exceeds {Price.maxPrecision}"
  else if p.maxPrecision < p.minPrecision then
    some s!"min_price_precision {p.minPrecision} > max_price_precision {p.maxPrecision}"
  else if maxFeeRatePrecision < p.feeRatePrecision then
    some s!"market_fee_rate_precision {p.feeRatePrecision} too large"
  else if p.minDelistDelay < 0 then some "market_min_expired_time must not be negative"
  else if p.chainIdVersion < 0 then some "chain_id_version must not be negative"
  else if p.matchInterval = 0 then some "default_match_interval must be at least one block"
  else if p.baseCurrency.isEmpty then some "base_currency is empty"
  else if p.feeCollector.isEmpty then some "fee_collector is empty"
  else none

/-- The set itself if it meets every rule. -/
def check (p : Params) : Except Fault Params :=
  match p.defect? with
  | some reason => .error (.badParams reason)
  | none => .ok p

theorem check_ok {p q : Params} : p.check = .ok q ↔ p.defect? = none ∧ p = q := by
  rw [check]
  split
  · next broken => simp [broken]
  · next sane => simp [sane]

end Params

end Bourse
