import Bourse.Proofs.Decimal
import Bourse.Proofs.Priority
import Mathlib.Algebra.Order.Floor.Semifield
import Mathlib.Data.Nat.Cast.Order.Field
import Mathlib.Data.Rat.Floor
import Mathlib.Tactic.FieldSimp

/-!
# Products are rounded to a grid that depends on their size

* `Rounding.nearest`: the nearest whole number; `lt_nearest_iff` says from where on it is beyond
  `k`, and `divide_eq_nearest` that a rounded quotient is the nearest number to the exact one;
* `Decimal.Fitted`: a number rounded at the finest scale at which its coefficient fits, which is
  what a product is (`mul?_fitted`);
* `Fitted.mono`: though a greater number may have the coarser grid, it is never fitted to a smaller
  one, since on the coarser grid it still fills all but the last place;
* `mul?_mono`: so products are monotone, and exist below one that does.
-/

namespace Bourse

namespace Rounding

variable {mode : Rounding} {v w : ℚ} {k n d : ℕ}

/-- The whole number nearest to a number that is not negative; the mode decides a half. -/
def nearest (mode : Rounding) (v : ℚ) : ℕ :=
  if v - ⌊v⌋₊ < 1 / 2 ∨ v - ⌊v⌋₊ = 1 / 2 ∧ mode = .halfEven ∧ Even ⌊v⌋₊ then ⌊v⌋₊ else ⌊v⌋₊ + 1

/-- A number is rounded beyond `k` if it is beyond the middle between `k` and the next, or in the
middle where the mode rounds up. -/
theorem lt_nearest_iff (pos : 0 ≤ v) : k < mode.nearest v ↔
    k + 1 / 2 < v ∨ v = k + 1 / 2 ∧ ¬(mode = .halfEven ∧ Even k) := by
  have floor := Nat.floor_le pos
  have above := Nat.lt_floor_add_one v
  rw [nearest]
  generalize ⌊v⌋₊ = n at floor above
  obtain less | rfl | more := lt_trichotomy k n
  · have less' : (k : ℚ) + 1 ≤ n := by exact_mod_cast less
    refine iff_of_true ?_ (.inl (by linarith))
    split <;> omega
  · split
    · next down =>
        refine iff_of_false (lt_irrefl k) ?_
        rintro (beyond | ⟨half, up⟩)
        · obtain down | ⟨down, -⟩ := down <;> linarith
        · obtain down | ⟨-, down⟩ := down
          · linarith
          · exact up down
    · next up =>
        refine iff_of_true (Nat.lt_succ_self k) ?_
        rw [not_or, not_lt] at up
        obtain beyond | half := up.1.lt_or_eq
        · exact .inl (by linarith)
        · exact .inr ⟨by linarith, fun down => up.2 ⟨half.symm, down⟩⟩
  · have more' : (n : ℚ) + 1 ≤ k := by exact_mod_cast more
    refine iff_of_false ?_ ?_
    · split <;> omega
    · rintro (beyond | ⟨half, -⟩) <;> linarith

theorem nearest_mono (mode : Rounding) (pos : 0 ≤ v) (le : v ≤ w) :
    mode.nearest v ≤ mode.nearest w := by
  refine le_of_forall_lt fun k below => (lt_nearest_iff (pos.trans le)).2 ?_
  obtain beyond | ⟨half, up⟩ := (lt_nearest_iff pos).1 below
  · exact .inl (beyond.trans_le le)
  · obtain less | same := le.lt_or_eq
    · exact .inl (half ▸ less)
    · exact .inr ⟨same ▸ half, up⟩

@[simp] theorem nearest_natCast (mode : Rounding) (n : ℕ) : mode.nearest n = n := by simp [nearest]

theorem le_nearest (le : (n : ℚ) ≤ v) : n ≤ mode.nearest v := by
  rw [← nearest_natCast mode n]
  exact nearest_mono mode n.cast_nonneg le

theorem nearest_le (pos : 0 ≤ v) (le : v ≤ n) : mode.nearest v ≤ n := by
  rw [← nearest_natCast mode n]
  exact nearest_mono mode pos le

theorem nearest_near (mode : Rounding) (pos : 0 ≤ v) : |(mode.nearest v : ℚ) - v| ≤ 1 / 2 := by
  have floor := Nat.floor_le pos
  have above := Nat.lt_floor_add_one v
  rw [abs_le, nearest]
  split
  · next down =>
      obtain less | ⟨half, -⟩ := down <;> constructor <;> linarith
  · next up =>
      rw [not_or, not_lt] at up
      push_cast
      constructor <;> linarith [up.1]

/-- The modes only differ on halves. -/
theorem nearest_of_near (pos : 0 ≤ v) (near : |v - n| < 1 / 2) : mode.nearest v = n := by
  have half := abs_le.1 (mode.nearest_near pos)
  have near := abs_lt.1 near
  have above : (mode.nearest v : ℚ) < n + 1 := by linarith
  have below : (n : ℚ) < mode.nearest v + 1 := by linarith
  norm_cast at above below
  omega

theorem divide_eq_nearest (mode : Rounding) (n : ℕ) (pos : 0 < d) :
    mode.divide n d = mode.nearest (n / d) := by
  have unit : (0 : ℚ) < d := by exact_mod_cast pos
  have split : (n : ℚ) = (n / d : ℕ) * d + (n % d : ℕ) := by
    exact_mod_cast (Nat.div_add_mod' n d).symm
  have rest : (n : ℚ) / d - (n / d : ℕ) = (n % d : ℕ) / d := by
    field_simp
    linarith
  have less : (n % d : ℕ) / (d : ℚ) < 1 / 2 ↔ 2 * (n % d) < d := by
    rw [div_lt_div_iff₀ unit two_pos]
    norm_cast
    rw [Nat.one_mul, Nat.mul_comm]
  have half : (n % d : ℕ) / (d : ℚ) = 1 / 2 ↔ 2 * (n % d) = d := by
    rw [div_eq_div_iff unit.ne' two_ne_zero]
    norm_cast
    rw [Nat.one_mul, Nat.mul_comm]
  simp only [nearest, divide, Nat.floor_div_eq_div, rest, less, half, Nat.even_iff]

end Rounding

namespace Decimal

open Rounding (nearest_mono nearest_natCast le_nearest nearest_le)

variable {c s m t c' s' m' t' u : ℕ} {x y z x' y' z' : Decimal}

section Ratio

/-- The number with these digits, of which so many stand after the point. -/
def ratio (c s : ℕ) : ℚ := c / 10 ^ s

theorem ratio_nonneg (c s : ℕ) : 0 ≤ ratio c s := by
  rw [ratio]
  positivity

theorem ratio_mul_pow (le : u ≤ s) : ratio c s * 10 ^ u = ratio c (s - u) := by
  have shift : (10 : ℚ) ^ s = 10 ^ (s - u) * 10 ^ u := by rw [← pow_add, Nat.sub_add_cancel le]
  rw [ratio, ratio, shift]
  field_simp

theorem ratio_le_iff : ratio c s ≤ ratio c' s' ↔ c * 10 ^ s' ≤ c' * 10 ^ s := by
  rw [ratio, ratio, div_le_div_iff₀ (by positivity) (by positivity)]
  norm_cast

theorem ratio_le_of_finer {k : ℕ} (le : m * 10 ^ k ≤ m') : ratio m t ≤ ratio m' (t + k) := by
  rw [ratio_le_iff, Nat.add_comm, Nat.pow_add, ← Nat.mul_assoc]
  exact Nat.mul_le_mul_right _ le

theorem ratio_le_of_coarser {k : ℕ} (le : m ≤ m' * 10 ^ k) : ratio m (t + k) ≤ ratio m' t := by
  rw [ratio_le_iff, Nat.add_comm, Nat.pow_add, ← Nat.mul_assoc]
  exact Nat.mul_le_mul_right _ le

theorem divide_pow (mode : Rounding) (c s : ℕ) :
    mode.divide c (10 ^ s) = mode.nearest (ratio c s) := by
  rw [Rounding.divide_eq_nearest mode c (Nat.pow_pos (by omega)), ratio]
  norm_cast

theorem value_of_plain (plain : x.negative = false) : x.value = ratio x.coeff x.scale := by
  simp [value, numerator, plain, ratio]

theorem value_nonneg_of_plain (plain : x.negative = false) : 0 ≤ x.value := by
  rw [value_of_plain plain]
  exact ratio_nonneg _ _

theorem plain_of_nonneg (pos : 0 ≤ x.value) (some : x.isZero = false) : x.negative = false := by
  by_contra negative
  rw [Bool.not_eq_false] at negative
  have none : (x.coeff : ℚ) ≤ 0 := by
    have below : 0 ≤ (-x.coeff : ℚ) / 10 ^ x.scale := by
      simpa [value, numerator, negative] using pos
    rwa [le_div_iff₀ (by positivity), zero_mul, neg_nonneg] at below
  have zero : x.coeff = 0 := Nat.le_zero.1 (by exact_mod_cast none)
  simp [isZero, zero] at some

/-- A number that is not negative, be it a signed zero. -/
theorem value_eq_ratio (pos : 0 ≤ x.value) : x.value = ratio x.coeff x.scale := by
  cases zero : x.isZero with
  | false => exact value_of_plain (plain_of_nonneg pos zero)
  | true =>
      have none : x.coeff = 0 := by simpa [isZero] using zero
      simp [value, numerator, ratio, none]

theorem isZero_of_pos (pos : 0 < x.value) : x.isZero = false := by
  by_contra zero
  have none : x.coeff = 0 := by simpa [isZero] using zero
  simp [value_eq_ratio pos.le, ratio, none] at pos

@[simp] theorem value_ofNat (n : ℕ) : (ofNat n).value = n := by simp [value, numerator, ofNat]

end Ratio

/-- The coefficient `m` with the scale `t` is `ratio c s`, rounded half to even at the finest scale
at which it fits. -/
structure Fitted (c s m t : ℕ) : Prop where
  within : t ≤ s
  most : t ≤ maxScale
  coeff : m = Rounding.halfEven.nearest (ratio c s * 10 ^ t)
  small : m ≤ maxCoeff
  finest : ∀ u, t < u → u ≤ s → u ≤ maxScale →
    maxCoeff < Rounding.halfEven.nearest (ratio c s * 10 ^ u)

theorem fit?_fitted (fit : fit? c s = some (m, t)) : Fitted c s m t := by
  obtain ⟨_, -, found⟩ := List.exists_of_findSome?_eq_some fit
  obtain ⟨drop, le, rfl, rfl, wide⟩ := fit?_eq_some fit
  simp only [Option.ite_none_right_eq_some, Option.some.injEq, Prod.mk.injEq] at found
  obtain ⟨⟨most, small⟩, coeff, scale⟩ := found
  rw [scale] at most
  rw [coeff] at small
  refine ⟨Nat.sub_le s drop, most, ?_, small, fun u above within most => ?_⟩
  · rw [divide_pow, ratio_mul_pow (Nat.sub_le s drop), Nat.sub_sub_self le]
  · rw [ratio_mul_pow within, ← divide_pow]
    exact wide (s - u) (by omega) (by omega)

/-- What is too long by one place fills all but that place. -/
theorem maxCoeff_le_of_lt {v : ℚ} (pos : 0 ≤ v)
    (beyond : maxCoeff < Rounding.halfEven.nearest (v * 10)) :
    maxCoeff ≤ 10 * Rounding.halfEven.nearest v := by
  have split : maxCoeff = 10 * (maxCoeff / 10) + 5 := by decide
  have split' : (maxCoeff : ℚ) = 10 * (maxCoeff / 10 : ℕ) + 5 := by exact_mod_cast split
  have above : (maxCoeff : ℚ) + 1 / 2 ≤ v * 10 := by
    obtain above | ⟨above, -⟩ := (Rounding.lt_nearest_iff (by positivity)).1 beyond
    · exact above.le
    · exact above.ge
  have more : maxCoeff / 10 < Rounding.halfEven.nearest v :=
    (Rounding.lt_nearest_iff pos).2 (.inl (by linarith))
  omega

namespace Fitted

variable (f : Fitted c s m t)

include f

theorem le_coeff {n : ℕ} (le : (n : ℚ) ≤ ratio c s * 10 ^ t) : n ≤ m := by
  rw [f.coeff]
  exact le_nearest le

theorem coeff_le {n : ℕ} (le : ratio c s * 10 ^ t ≤ n) : m ≤ n := by
  rw [f.coeff]
  exact nearest_le (mul_nonneg (ratio_nonneg c s) (by positivity)) le

theorem coeff_of_scale (full : t = s) : m = c := by
  have whole : ratio c s * 10 ^ s = c := by rw [ratio, div_mul_cancel₀ _ (by positivity)]
  rw [f.coeff, full, whole, nearest_natCast]

/-- What nothing is dropped of is whole on every finer grid. -/
theorem scaled_of_scale (full : t = s) (k : ℕ) :
    ratio c s * 10 ^ (t + k) = (m * 10 ^ k : ℕ) := by
  rw [f.coeff_of_scale full, ratio, full, pow_add]
  push_cast
  field_simp

theorem maxCoeff_le (drops : t < s) (room : t < maxScale) : maxCoeff ≤ 10 * m := by
  rw [f.coeff]
  refine maxCoeff_le_of_lt (mul_nonneg (ratio_nonneg c s) (by positivity)) ?_
  rw [mul_assoc, ← pow_succ]
  exact f.finest (t + 1) (Nat.lt_succ_self t) drops room

/-- A greater number is fitted to a number that is not less, though its grid may be coarser or, with
more digits given, finer. -/
theorem mono (f' : Fitted c' s' m' t') (le : ratio c s ≤ ratio c' s') :
    ratio m t ≤ ratio m' t' := by
  have pos : 0 ≤ ratio c s := ratio_nonneg c s
  have pos' : 0 ≤ ratio c' s' := ratio_nonneg c' s'
  have scaled (u : ℕ) : ratio c s * 10 ^ u ≤ ratio c' s' * 10 ^ u := by gcongr
  obtain finer | rfl | coarser := lt_trichotomy t t'
  · obtain ⟨k, rfl⟩ := Nat.exists_eq_add_of_le finer.le
    by_cases full : t = s
    · exact ratio_le_of_finer (f'.le_coeff ((f.scaled_of_scale full k).symm.trans_le (scaled _)))
    · -- The first number had no room on the grid of the second, which is greater still.
      have most := f'.most
      have beyond := f.finest (t + 1) (Nat.lt_succ_self t) (Nat.lt_of_le_of_ne f.within full)
        (by omega)
      have grown : ratio c s * 10 ^ (t + 1) ≤ ratio c' s' * 10 ^ (t + k) := by
        refine (scaled _).trans ?_
        gcongr
        · norm_num
        · omega
      have above := nearest_mono .halfEven (mul_nonneg pos (by positivity)) grown
      rw [← f'.coeff] at above
      have small := f'.small
      omega
  · refine ratio_le_of_finer (k := 0) ?_
    rw [Nat.pow_zero, Nat.mul_one, f.coeff, f'.coeff]
    exact nearest_mono .halfEven (mul_nonneg pos (by positivity)) (scaled t)
  · obtain ⟨k, rfl⟩ := Nat.exists_eq_add_of_le coarser.le
    by_cases full : t' = s'
    · exact ratio_le_of_coarser (f.coeff_le ((scaled _).trans_eq (f'.scaled_of_scale full k)))
    · -- The second number leaves little room on its grid, and the first fits a finer one.
      have most := f.most
      have small := f.small
      have filled := f'.maxCoeff_le (Nat.lt_of_le_of_ne f'.within full) (by omega)
      have place : 10 ≤ 10 ^ k := Nat.le_self_pow (by omega) 10
      exact ratio_le_of_coarser (by nlinarith)

end Fitted

section Factors

variable (pos : 0 ≤ x.value) (pos' : 0 ≤ y.value)

include pos pos'

theorem ratio_mul : ratio (x.coeff * y.coeff) (x.scale + y.scale) = x.value * y.value := by
  rw [value_eq_ratio pos, value_eq_ratio pos', ratio, ratio, ratio, pow_add, Nat.cast_mul,
    mul_div_mul_comm]

/-- A product is plain zero if the exact one is zero, else fitted to it. -/
theorem mul?_fitted (run : x.mul? y = some z) : z.negative = false ∧
    (x.value * y.value = 0 ∧ z.value = 0 ∨
      Fitted (x.coeff * y.coeff) (x.scale + y.scale) z.coeff z.scale) := by
  rw [mul?] at run
  split at run
  · next none =>
      rw [← Option.some.inj run, ← ratio_mul pos pos']
      refine ⟨rfl, .inl ⟨?_, by simp [value, numerator, zero]⟩⟩
      rw [Bool.or_eq_true, isZero, isZero, beq_iff_eq, beq_iff_eq, ← Nat.mul_eq_zero] at none
      simp [ratio, none]
  · next some =>
      rw [Bool.or_eq_true, not_or, Bool.not_eq_true, Bool.not_eq_true] at some
      obtain ⟨⟨m, t⟩, fit, same⟩ := Option.map_eq_some_iff.1 run
      have eq : z = ⟨false, m, t⟩ := by
        rw [← same]
        simp [plain_of_nonneg pos some.1, plain_of_nonneg pos' some.2, signed]
      rw [eq]
      exact ⟨rfl, .inr (fit?_fitted fit)⟩

theorem mul?_isSome_of_le (whole : Rounding.halfEven.nearest (x.value * y.value) ≤ maxCoeff) :
    ∃ z, x.mul? y = some z := by
  rw [← ratio_mul pos pos', ← divide_pow] at whole
  exact mul?_isSome whole

theorem nearest_le_of_mul? (run : x.mul? y = some z) :
    Rounding.halfEven.nearest (x.value * y.value) ≤ maxCoeff := by
  obtain ⟨-, ⟨none, -⟩ | f⟩ := mul?_fitted pos pos' run
  · rw [none, ← Nat.cast_zero, nearest_natCast]
    exact Nat.zero_le _
  · refine le_trans ?_ f.small
    have whole : 0 ≤ x.value * y.value := mul_nonneg pos pos'
    rw [f.coeff, ratio_mul pos pos']
    exact nearest_mono .halfEven whole (le_mul_of_one_le_right whole (one_le_pow₀ (by norm_num)))

end Factors

/-- Where a product of greater value exists, one of less value does, and it is not greater. -/
theorem mul?_mono (pos : 0 ≤ x.value) (pos' : 0 ≤ y.value) (above : 0 ≤ x'.value)
    (above' : 0 ≤ y'.value) (le : x.value * y.value ≤ x'.value * y'.value)
    (run : x'.mul? y' = some z') :
    ∃ z, x.mul? y = some z ∧ z.negative = false ∧ z'.negative = false ∧ z.value ≤ z'.value := by
  have product : 0 ≤ x.value * y.value := mul_nonneg pos pos'
  obtain ⟨z, found⟩ := mul?_isSome_of_le pos pos'
    ((nearest_mono .halfEven product le).trans (nearest_le_of_mul? above above' run))
  obtain ⟨plain, fitted⟩ := mul?_fitted pos pos' found
  obtain ⟨plain', fitted'⟩ := mul?_fitted above above' run
  refine ⟨z, found, plain, plain', ?_⟩
  obtain ⟨-, none⟩ | f := fitted
  · rw [none]
    exact value_nonneg_of_plain plain'
  rw [value_of_plain plain]
  obtain ⟨none', none⟩ | f' := fitted'
  · have zero : x.value * y.value = 0 := le_antisymm (none' ▸ le) product
    have nothing : z.coeff ≤ 0 := f.coeff_le (by rw [ratio_mul pos pos', zero]; simp)
    simp [ratio, Nat.le_zero.1 nothing, none]
  · rw [value_of_plain plain']
    rw [← ratio_mul pos pos', ← ratio_mul above above'] at le
    exact f.mono f' le

end Decimal

end Bourse
