import Bourse.Fee
import Bourse.Proofs.Action
import Mathlib.Tactic.Linarith

/-!
# How far an amount is off

* `Rounding.divide_near`: a rounded quotient is within a half of the exact one;
* `mul?_near`: a product is within one in `grain` of the exact one;
* `fillMoney_covered`, `buyPrincipal_covers`: hence a buy freezes enough for any fills whose exact
  money it covers, although each of them is rounded by itself.
-/

namespace Bourse

theorem Rounding.divide_near (mode : Rounding) (n : Nat) {d : Nat} (pos : 0 < d) :
    2 * (mode.divide n d * d) ≤ 2 * n + d ∧ 2 * n ≤ 2 * (mode.divide n d * d) + d := by
  have split := Nat.div_add_mod' n d
  have small := Nat.mod_lt n pos
  simp only [divide]
  split
  · omega
  · rw [Nat.add_mul]
    omega

namespace Decimal

variable {c s m t : Nat} {x y z : Decimal}

/-- A rounded coefficient is off by at most one in so many. -/
def grain : Nat := maxCoeff / 5

theorem maxCoeff_eq : maxCoeff = 5 * grain := by decide

/-- The fewest digits are dropped for which the coefficient fits. -/
theorem fit?_eq_some (fit : fit? c s = some (m, t)) :
    ∃ drop ≤ s, t = s - drop ∧ m = Rounding.halfEven.divide c (10 ^ drop) ∧
      ∀ less < drop, s - less ≤ maxScale → maxCoeff < Rounding.halfEven.divide c (10 ^ less) := by
  obtain ⟨front, drop, back, range, found, before⟩ := List.findSome?_eq_some_iff.1 fit
  have le : drop ≤ s := by
    have mem : drop ∈ List.range (s + 1) := range ▸ by simp
    simpa [Nat.lt_succ_iff] using mem
  have here : front.length = drop := by
    have entry : (List.range (s + 1))[front.length]? = some drop := by rw [range]; simp
    obtain ⟨_, same⟩ := List.getElem?_eq_some_iff.1 entry
    simpa using same
  have earlier : ∀ less < drop, less ∈ front := by
    intro less lt
    have entry : (List.range (s + 1))[less]? = some less := List.getElem?_range (by omega)
    rw [range, List.getElem?_append_left (by omega)] at entry
    exact List.mem_of_getElem? entry
  simp only [Option.ite_none_right_eq_some, Option.some.injEq, Prod.mk.injEq] at found
  obtain ⟨-, rfl, rfl⟩ := found
  refine ⟨drop, le, rfl, rfl, fun less lt scale => ?_⟩
  have unfit := before less (earlier less lt)
  simp only [ite_eq_right_iff, reduceCtorEq, imp_false, not_and, Nat.not_le] at unfit
  exact unfit scale

/-- There is room where the nearest whole number fits. -/
theorem fit?_isSome (whole : Rounding.halfEven.divide c (10 ^ s) ≤ maxCoeff) :
    (fit? c s).isSome := by
  refine List.findSome?_isSome_iff.2 ⟨s, by simp, ?_⟩
  rw [if_pos ⟨by omega, whole⟩]
  rfl

/-- The coefficient that fits is within one in `grain` of the exact one. -/
theorem fit?_near (scale : s ≤ maxScale) (fit : fit? c s = some (m, t)) :
    m * 10 ^ s * grain ≤ c * 10 ^ t * (grain + 1) ∧
      c * 10 ^ t * grain ≤ m * 10 ^ s * grain + c * 10 ^ t := by
  obtain ⟨drop, le, rfl, rfl, wide⟩ := fit?_eq_some fit
  have pos : 0 < 10 ^ drop := Nat.pow_pos (by omega)
  obtain ⟨above, below⟩ := Rounding.divide_near .halfEven c pos
  have shift : 10 ^ s = 10 ^ drop * 10 ^ (s - drop) := by
    rw [← Nat.pow_add, Nat.add_sub_cancel' le]
  -- Half of the last place is at most one in `grain` of the coefficient.
  have fine : 10 ^ drop * grain ≤ 2 * c ∨ 10 ^ drop = 1 := by
    cases drop with
    | zero => exact .inr rfl
    | succ less =>
        have beyond := wide less (Nat.lt_succ_self less) (by omega)
        have unit : 0 < 10 ^ less := Nat.pow_pos (by omega)
        have near := (Rounding.divide_near .halfEven c unit).1
        have big := Nat.mul_le_mul_right (10 ^ less) beyond
        rw [maxCoeff_eq] at big
        rw [Nat.pow_succ]
        left
        nlinarith
  generalize Rounding.halfEven.divide c (10 ^ drop) = r at above below
  generalize 10 ^ (s - drop) = u at shift
  rw [shift]
  have error : r * 10 ^ drop * grain ≤ c * (grain + 1) ∧
      c * grain ≤ r * 10 ^ drop * grain + c := by
    obtain fine | unit := fine
    · constructor <;> nlinarith
    · have same : r * 10 ^ drop = c := by omega
      rw [same]
      constructor <;> nlinarith
  constructor
  · have := Nat.mul_le_mul_right u error.1
    nlinarith
  · have := Nat.mul_le_mul_right u error.2
    nlinarith

/-- A product of unsigned decimals is within one in `grain` of the exact one. -/
theorem mul?_near (left : x.negative = false) (right : y.negative = false)
    (scale : x.scale + y.scale ≤ maxScale) (run : x.mul? y = some z) :
    z.negative = false ∧
      z.coeff * 10 ^ (x.scale + y.scale) * grain ≤ x.coeff * y.coeff * 10 ^ z.scale * (grain + 1) ∧
      x.coeff * y.coeff * 10 ^ z.scale * grain ≤
        z.coeff * 10 ^ (x.scale + y.scale) * grain + x.coeff * y.coeff * 10 ^ z.scale := by
  rw [mul?] at run
  split at run
  · next zero =>
      rw [← Option.some.inj run]
      have none : x.coeff * y.coeff = 0 := by simpa [isZero] using zero
      simp [none, Decimal.zero]
  · obtain ⟨⟨m, t⟩, fit, same⟩ := Option.map_eq_some_iff.1 run
    have eq : z = ⟨false, m, t⟩ := by
      rw [← same]
      simp [left, right, signed]
    rw [eq]
    exact ⟨rfl, fit?_near scale fit⟩

theorem mul?_isSome (whole : Rounding.halfEven.divide (x.coeff * y.coeff)
    (10 ^ (x.scale + y.scale)) ≤ maxCoeff) : ∃ z, x.mul? y = some z := by
  rw [mul?]
  split
  · exact ⟨_, rfl⟩
  · obtain ⟨found, fit⟩ := Option.isSome_iff_exists.1 (fit?_isSome whole)
    exact ⟨_, by rw [fit]; rfl⟩

theorem round_of_plain (plain : x.negative = false) (mode : Rounding) :
    x.round mode = ofNat (mode.divide x.coeff (10 ^ x.scale)) := by
  rw [round]
  split
  · next zero =>
      have none : x.coeff = 0 := by simpa [isZero] using zero
      have pos : 0 < 10 ^ x.scale := Nat.pow_pos (by omega)
      simp [none, plain, Rounding.divide, pos, ofNat]
  · simp [signed, plain, ofNat]

theorem floor_of_plain (plain : x.negative = false) :
    x.floor = ofNat (x.coeff / 10 ^ x.scale) := by
  simp [floor, plain, ofNat]

end Decimal

namespace Fee

open Decimal (grain maxScale)

variable {q F : Nat} {price : Decimal}

theorem multiply_ok {x y z : Decimal} {what : String} :
    multiply x y what = .ok z ↔ x.mul? y = some z := by
  rw [multiply]
  split
  · next found => rw [found, Except.ok.injEq, Option.some.injEq]
  · next none => simp [none]

theorem toAmount_ok {x : Decimal} {what : String} {n : Nat} :
    toAmount x what = .ok n ↔ x.toWord? = some n := by
  rw [toAmount]
  split
  · next found => rw [found, Except.ok.injEq, Option.some.injEq]
  · next none => simp [none]

/-- A fill that is covered at its price is possible, and costs little above it. -/
theorem fillMoney_covered (sign : price.negative = false) (scale : price.scale ≤ maxScale)
    (small : F < Word.size)
    (covers : q * price.coeff * (grain + 1) < (F + 1) * 10 ^ price.scale * grain) :
    ∃ m ≤ F, fillMoney q price = .ok m ∧
      m * 10 ^ price.scale * grain ≤ q * price.coeff * (grain + 1) := by
  have exact_le : q * price.coeff * grain ≤ q * price.coeff * (grain + 1) :=
    Nat.mul_le_mul_left _ (Nat.le_succ grain)
  have exact_lt : q * price.coeff < (F + 1) * 10 ^ price.scale :=
    Nat.lt_of_mul_lt_mul_right (Nat.lt_of_le_of_lt exact_le covers)
  have whole : Rounding.halfEven.divide (q * price.coeff) (10 ^ price.scale) ≤
      Decimal.maxCoeff := by
    have le := (Nat.div_lt_iff_lt_mul (Nat.pow_pos (by omega))).2 exact_lt
    have rounded := Rounding.divide_le .halfEven (q * price.coeff) (10 ^ price.scale)
    have wide : Word.size < Decimal.maxCoeff := by decide
    omega
  obtain ⟨z, product⟩ := Decimal.mul?_isSome (x := .ofNat q) (y := price)
    (by rw [Decimal.ofNat, Nat.zero_add]; exact whole)
  obtain ⟨plain, above, -⟩ := Decimal.mul?_near (x := .ofNat q) rfl sign
    (by rw [Decimal.ofNat, Nat.zero_add]; exact scale) product
  rw [Decimal.ofNat, Nat.zero_add] at above
  dsimp only at above
  -- The floor is at most the rounded product.
  have floored := Nat.div_mul_le_self z.coeff (10 ^ z.scale)
  generalize money : z.coeff / 10 ^ z.scale = m at floored
  have costs : m * 10 ^ price.scale * grain ≤ q * price.coeff * (grain + 1) := by
    refine Nat.le_of_mul_le_mul_right ?_ (Nat.pow_pos (n := z.scale) (by omega : 0 < 10))
    have := Nat.mul_le_mul_right (10 ^ price.scale * grain) floored
    nlinarith
  have le : m ≤ F := by
    have lt := Nat.lt_of_mul_lt_mul_right
      (Nat.lt_of_mul_lt_mul_right (Nat.lt_of_le_of_lt costs covers))
    omega
  refine ⟨m, le, ?_, costs⟩
  refine Check.bind_ok.2 ⟨z, multiply_ok.2 product, toAmount_ok.2 ?_⟩
  have word : m < Word.size := by omega
  simp [Decimal.floor_of_plain plain, money, Decimal.ofNat, Decimal.toWord?, word]

/-- An amount is the quotient as the mode rounds it. -/
theorem roundAmount_ok {z : Decimal} {mode : Rounding} {what : String}
    (plain : z.negative = false) (run : roundAmount z mode what = .ok F) :
    mode.divide z.coeff (10 ^ z.scale) = F ∧ F < Word.size := by
  have amount := toAmount_ok.1 run
  rw [Decimal.round_of_plain plain] at amount
  simp only [Decimal.ofNat, Decimal.toWord?, Nat.pow_zero, Nat.div_one,
    Option.ite_none_right_eq_some, Option.some.injEq] at amount
  exact ⟨amount.2, amount.2 ▸ amount.1.2⟩

/-- A word that is within half a unit of an amount but for one in `grain` of it covers the amount,
since one in `grain` of what is covered is far below a half. -/
theorem covers_of_near {n T : Nat} (unit : 0 < T) (word : F < Word.size)
    (near : 2 * n * grain ≤ (2 * F + 1) * T * grain + 2 * n) :
    n * (grain + 1) < (F + 1) * T * grain := by
  have fine : 4 * Word.size < grain := by decide
  have slack : 4 * n < T * grain := by
    by_contra beyond
    have beyond := Nat.mul_le_mul_left (2 * F + 1) (Nat.le_of_not_lt beyond)
    have pos : 0 < n := by
      by_contra zero
      have none : n = 0 := by omega
      have some : 0 < T * grain := Nat.mul_pos unit (by omega)
      rw [none] at beyond
      nlinarith
    have tight : 2 * n * grain ≤ 2 * n * (2 * (2 * F + 1) + 1) := by nlinarith
    have := Nat.le_of_mul_le_mul_left tight (by omega)
    omega
  nlinarith

/-- What a buy freezes covers it at its own price. -/
theorem buyPrincipal_covers {price precision quantity : Nat} {mode : Rounding}
    (run : buyPrincipal price precision quantity mode = .ok F) :
    F < Word.size ∧ quantity * price * (grain + 1) <
      (F + 1) * 10 ^ (min precision Price.maxPrecision) * grain := by
  obtain ⟨z, product, run⟩ := Check.bind_ok.1 run
  have scale : min precision Price.maxPrecision ≤ maxScale :=
    (Nat.min_le_right _ _).trans (by decide)
  obtain ⟨plain, -, below⟩ := Decimal.mul?_near (x := Price.scaled price precision)
    (y := .ofNat quantity) rfl rfl scale (multiply_ok.1 product)
  rw [Price.scaled, Decimal.ofNat, Nat.add_zero] at below
  dsimp only at below
  obtain ⟨rounded, word⟩ := roundAmount_ok plain run
  have unit : 0 < 10 ^ z.scale := Nat.pow_pos (by omega)
  have near := (Rounding.divide_near mode z.coeff unit).2
  rw [rounded] at near
  have positive : 0 < 10 ^ (min precision Price.maxPrecision) := Nat.pow_pos (by omega)
  generalize 10 ^ (min precision Price.maxPrecision) = T at below positive
  -- Exact value, rounded product and principal side by side, in halves of a unit.
  have exact_le : 2 * (price * quantity) * grain ≤
      (2 * F + 1) * T * grain + 2 * (price * quantity) := by
    refine Nat.le_of_mul_le_mul_right ?_ unit
    have := Nat.mul_le_mul_right (T * grain) near
    nlinarith
  rw [Nat.mul_comm quantity]
  exact ⟨word, covers_of_near positive word exact_le⟩

end Fee

end Bourse
