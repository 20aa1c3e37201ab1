import Bourse.Proofs.Amounts

/-!
# A smaller order holds no more

* `AtMost`: where one calculation gives an amount, another gives one that is not greater;
* `atMost_multiply`, `atMost_roundAmount`: the steps of a calculation keep the order of the numbers,
  though each product has a grid of its own;
* `holds_monotone`: hence the fee and the principal that an order holds grow with it.
-/

namespace Bourse.Fee

open Decimal

variable {x y z x' y' z' : Decimal} {what : String} {quantity quantity' : ℕ}

/-- Where the second gives an amount, the first gives one that is not greater. -/
def AtMost (r r' : Except Fault ℕ) : Prop := ∀ F', r' = .ok F' → ∃ F ≤ F', r = .ok F

theorem atMost_roundAmount (plain : z.negative = false) (plain' : z'.negative = false)
    (le : z.value ≤ z'.value) (mode : Rounding) :
    AtMost (roundAmount z mode what) (roundAmount z' mode what) := by
  intro F' run
  obtain ⟨rfl, word⟩ := (yields_roundAmount plain' mode what).ok_iff.1 run
  have least := mode.nearest_mono (value_nonneg_of_plain plain) le
  exact ⟨_, least, (yields_roundAmount plain mode what).ok rfl (least.trans_lt word)⟩

theorem atMost_multiply {f : Decimal → Except Fault ℕ} (pos : 0 ≤ x.value) (pos' : 0 ≤ y.value)
    (left : x.value ≤ x'.value) (right : y.value ≤ y'.value)
    (step : ∀ z z', z.negative = false → z'.negative = false → z.value ≤ z'.value →
      AtMost (f z) (f z')) :
    AtMost (multiply x y what >>= f) (multiply x' y' what >>= f) := by
  intro F' run
  obtain ⟨z', product', run⟩ := Check.bind_ok.1 run
  have le : x.value * y.value ≤ x'.value * y'.value := mul_le_mul left right pos' (pos.trans left)
  obtain ⟨z, product, plain, plain', below⟩ := mul?_mono pos pos' (pos.trans left)
    (pos'.trans right) le (multiply_ok.1 product')
  obtain ⟨F, least, run⟩ := step z z' plain plain' below F' run
  exact ⟨F, least, Check.bind_ok.2 ⟨z, multiply_ok.2 product, run⟩⟩

theorem atMost_product (mode : Rounding) (pos : 0 ≤ x.value) (pos' : 0 ≤ y.value)
    (left : x.value ≤ x'.value) (right : y.value ≤ y'.value) :
    AtMost (multiply x y what >>= fun z => roundAmount z mode what)
      (multiply x' y' what >>= fun z => roundAmount z mode what) :=
  atMost_multiply pos pos' left right fun _ _ plain plain' le =>
    atMost_roundAmount plain plain' le mode

theorem atMost_tradeFee (params : Params) (stockIsBase : Bool) {reference : Decimal}
    (pos : 0 ≤ reference.value) (le : quantity ≤ quantity') :
    AtMost (tradeFee params stockIsBase reference quantity)
      (tradeFee params stockIsBase reference quantity') := by
  have rate : 0 ≤ params.feeRate.value := value_nonneg_of_plain rfl
  have stock : 0 ≤ (ofNat quantity).value := by simp
  have more : (ofNat quantity).value ≤ (ofNat quantity').value := by simpa
  cases stockIsBase with
  | true => exact atMost_product params.rounding stock rate more le_rfl
  | false =>
      cases priced : reference.isZero with
      | true =>
          rw [tradeFee_unquoted priced, tradeFee_unquoted priced]
          exact fun F' run => ⟨F', le_rfl, run⟩
      | false =>
          rw [tradeFee_quoted priced, tradeFee_quoted priced]
          refine atMost_multiply stock pos more le_rfl fun z z' plain plain' below => ?_
          exact atMost_product params.rounding (value_nonneg_of_plain plain) rate below le_rfl

theorem atMost_buyPrincipal {price price' : ℕ} (precision : ℕ) (mode : Rounding)
    (dearer : price ≤ price') (le : quantity ≤ quantity') :
    AtMost (buyPrincipal price precision quantity mode)
      (buyPrincipal price' precision quantity' mode) := by
  have scaled : (Price.scaled price precision).value ≤ (Price.scaled price' precision).value := by
    rw [value_of_plain rfl, value_of_plain rfl, Price.scaled, Price.scaled, ratio_le_iff]
    exact Nat.mul_le_mul_right _ dearer
  exact atMost_product mode (value_nonneg_of_plain rfl) (by simp) scaled (by simpa)

/-- Whatever the parameters and the rounding, an order that can be held for can also be held for
with a smaller quantity, or a buy with a lower price, and no more is held. -/
theorem holds_monotone :
    (∀ (params : Params) (stockIsBase : Bool) (reference : Decimal) (quantity quantity' : ℕ),
      0 ≤ reference.value → quantity ≤ quantity' →
      AtMost (tradeFee params stockIsBase reference quantity)
        (tradeFee params stockIsBase reference quantity')) ∧
    ∀ (precision : ℕ) (mode : Rounding) (price price' quantity quantity' : ℕ),
      price ≤ price' → quantity ≤ quantity' →
      AtMost (buyPrincipal price precision quantity mode)
        (buyPrincipal price' precision quantity' mode) :=
  ⟨fun params stockIsBase _ _ _ pos le => atMost_tradeFee params stockIsBase pos le,
    fun precision mode _ _ _ _ dearer le => atMost_buyPrincipal precision mode dearer le⟩

/-- The product of the second order is beyond the grid on which that of the first is exact. -/
theorem holds_monotone_across_grids :
    (∃ fee ≤ 79228163,
      tradeFee .default false (Price.scaled 999999999999999999 18) 79228162514 = .ok fee) ∧
    ∃ principal ≤ 79228162515,
      buyPrincipal 999999999999999999 18 79228162514 .halfEven = .ok principal := by
  obtain ⟨fee, principal⟩ := holds_monotone
  have more : 79228162514 ≤ 79228162515 := by decide
  exact ⟨fee _ _ _ _ _ (value_nonneg_of_plain rfl) more 79228163 (by decide +kernel),
    principal _ _ _ _ _ _ le_rfl more 79228162515 (by decide +kernel)⟩

end Bourse.Fee
