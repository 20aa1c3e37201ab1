import Bourse.Proofs.Product

/-!
# An amount is the exact number, rounded once

A product that is too long is rounded before it is made an amount, so that an amount may be rounded
twice. Here is how far this goes:

* `Fitted.near`: while its whole part is a word, a product is off by at most half a `tick`;
* `sameAmount_nearest`, `sameAmount_floor`: hence the amount is that of the exact number, unless
  this is next to a half, or just below a whole number, but for its last digits;
* `Yields`: a calculation gives an amount, or says that it overflows where it is not a word;
* `amounts_rounded_once`: what principals, fills and fees yield, and `product_rounded_twice` what
  they do where the digits are too many.
-/

namespace Bourse

namespace Decimal

open Rounding (lt_nearest_iff le_nearest)

variable {c s m t : ℕ} {x y z : Decimal} {mode : Rounding} {v w : ℚ}

/-- The last place that a product keeps in any case while its whole part is a word. -/
def tick : ℚ := 1 / 10 ^ 9

/-- No half is so near that a product may be rounded onto it, though one may be met exactly. -/
def ClearOfHalves (v : ℚ) : Prop := ∀ k : ℕ, v = k + 1 / 2 ∨ tick / 2 < |v - (k + 1 / 2)|

/-- No whole number is so near above that a product may be rounded onto it. -/
def ClearBelow (v : ℚ) : Prop := ∀ k : ℕ, v < k → tick / 2 < k - v

/-- No half is so near that a product of two products may be rounded onto it. -/
def FarFromHalves (v : ℚ) : Prop := ∀ k : ℕ, 2 * tick < |v - (k + 1 / 2)|

/-- The coefficient and the scale are those of a decimal. -/
def FitsIn (c s : ℕ) : Prop := c ≤ maxCoeff ∧ s ≤ maxScale

/-- Whole numbers that are equal, or both beyond a word. -/
def SameAmount (a b : ℕ) : Prop := ∀ k < Word.size, k < a ↔ k < b

@[refl] theorem SameAmount.refl (a : ℕ) : SameAmount a a := fun _ _ => Iff.rfl

theorem clearOfHalves_zero : ClearOfHalves 0 := by
  intro k
  have pos : (0 : ℚ) ≤ k := by positivity
  refine .inr ?_
  rw [tick, zero_sub, abs_neg, abs_of_pos (by positivity)]
  linarith

/-- Two numbers are rounded to the same amount if each half is beside both of them: they are the
same, or the half is below both, or they are nearer to each other than to it. -/
theorem sameAmount_nearest (pos : 0 ≤ v) (pos' : 0 ≤ w) (beside : ∀ k < Word.size, w = v ∨
      (k : ℚ) + 1 / 2 < v ∧ (k : ℚ) + 1 / 2 < w ∨ |w - v| < |v - (k + 1 / 2)|) :
    SameAmount (mode.nearest w) (mode.nearest v) := by
  intro k less
  rw [lt_nearest_iff pos', lt_nearest_iff pos]
  obtain same | ⟨below, below'⟩ | near := beside k less
  · rw [same]
  · exact iff_of_true (.inl below') (.inl below)
  · have off : v ≠ k + 1 / 2 := by
      intro same
      rw [← same, sub_self, abs_zero] at near
      exact absurd near (abs_nonneg _).not_gt
    have off' : w ≠ k + 1 / 2 := by
      intro same
      rw [← same, abs_sub_comm] at near
      exact lt_irrefl _ near
    simp only [off, off', false_and, or_false]
    obtain ⟨above, below⟩ := abs_lt.1 near
    constructor
    · intro beyond
      by_contra under
      rw [abs_of_nonpos (by linarith)] at above below
      linarith
    · intro beyond
      rw [abs_of_pos (by linarith)] at above below
      linarith

namespace Fitted

variable (f : Fitted c s m t)

include f

/-- Whole numbers are on every grid. -/
theorem le_ratio {n : ℕ} (le : (n : ℚ) ≤ ratio c s) : (n : ℚ) ≤ ratio m t := by
  have scaled : ((n * 10 ^ t : ℕ) : ℚ) ≤ ratio c s * 10 ^ t := by
    push_cast
    gcongr
  have above := f.le_coeff scaled
  rw [ratio, le_div_iff₀ (by positivity)]
  exact_mod_cast above

/-- Nine places after the point are kept of a number with a word as its whole part. -/
theorem places (word : ratio c s < Word.size) : t = s ∨ 9 ≤ t := by
  by_contra dropped
  rw [not_or, Nat.not_le] at dropped
  have beyond := f.finest (t + 1) (Nat.lt_succ_self t)
    (Nat.lt_of_le_of_ne f.within dropped.1) (by rw [maxScale]; omega)
  have pos : 0 ≤ ratio c s := ratio_nonneg c s
  have fits : ratio c s * 10 ^ (t + 1) ≤ maxCoeff := by
    have place : (10 : ℚ) ^ (t + 1) ≤ 10 ^ 9 := pow_le_pow_right₀ (by norm_num) (by omega)
    calc ratio c s * 10 ^ (t + 1) ≤ Word.size * 10 ^ 9 := by gcongr
      _ ≤ maxCoeff := by exact_mod_cast (by decide : Word.size * 10 ^ 9 ≤ maxCoeff)
  exact absurd (Rounding.nearest_le (by positivity) fits) beyond.not_ge

/-- A short product is not rounded. -/
theorem eq_of_short (short : c ≤ maxCoeff) (scale : s ≤ maxScale) : t = s ∧ m = c := by
  have full : t = s := by
    by_contra drops
    have beyond := f.finest s (Nat.lt_of_le_of_ne f.within drops) le_rfl scale
    rw [ratio, div_mul_cancel₀ _ (by positivity), Rounding.nearest_natCast] at beyond
    omega
  exact ⟨full, f.coeff_of_scale full⟩

/-- What is off is at most half a tick. -/
theorem near (word : ratio c s < Word.size) : |ratio m t - ratio c s| ≤ tick / 2 := by
  obtain full | nine := f.places word
  · rw [full, f.coeff_of_scale full, sub_self, abs_zero, tick]
    norm_num
  · have place : (10 : ℚ) ^ 9 ≤ 10 ^ t := pow_le_pow_right₀ (by norm_num) nine
    have apart : ratio m t - ratio c s = (m - ratio c s * 10 ^ t) / 10 ^ t := by
      rw [ratio]
      field_simp
    have half : |m - ratio c s * 10 ^ t| ≤ 1 / 2 := by
      rw [f.coeff]
      exact Rounding.halfEven.nearest_near (mul_nonneg (ratio_nonneg c s) (by positivity))
    calc |ratio m t - ratio c s| = |m - ratio c s * 10 ^ t| / 10 ^ t := by
          rw [apart, abs_div, abs_of_pos (by positivity : (0 : ℚ) < 10 ^ t)]
      _ ≤ 1 / 2 / 10 ^ 9 := by gcongr
      _ = tick / 2 := by rw [tick]; ring

/-- A half is on every grid with a place after the point. -/
theorem eq_of_half (word : ratio c s < Word.size) {k : ℕ} (half : ratio c s = k + 1 / 2) :
    ratio m t = ratio c s := by
  obtain full | nine := f.places word
  · rw [full, f.coeff_of_scale full]
  · obtain ⟨u, rfl⟩ := Nat.exists_eq_add_of_le' (Nat.le_trans (by omega) nine : 1 ≤ t)
    have whole : ratio c s * 10 ^ (u + 1) = ((2 * k + 1) * 5 * 10 ^ u : ℕ) := by
      rw [half]
      push_cast
      ring
    have same : m = (2 * k + 1) * 5 * 10 ^ u :=
      Nat.le_antisymm (f.coeff_le whole.le) (f.le_coeff whole.ge)
    rw [ratio, same, ← whole, mul_div_cancel_right₀ _ (by positivity)]

/-- Away from the halves it does not matter that a product is fitted before it is rounded. -/
theorem sameAmount_nearest (clear : ClearOfHalves (ratio c s)) :
    SameAmount (mode.nearest (ratio m t)) (mode.nearest (ratio c s)) := by
  refine Decimal.sameAmount_nearest (ratio_nonneg c s) (ratio_nonneg m t) fun k less => ?_
  by_cases word : ratio c s < Word.size
  · obtain half | off := clear k
    · exact .inl (f.eq_of_half word half)
    · exact .inr (.inr ((f.near word).trans_lt off))
  · rw [not_lt] at word
    have half : (k : ℚ) + 1 / 2 < Word.size := by
      have : (k : ℚ) + 1 ≤ Word.size := by exact_mod_cast less
      linarith
    exact .inr (.inl ⟨half.trans_le word, half.trans_le (f.le_ratio word)⟩)

/-- Nor before it is rounded down, except just below a whole number. -/
theorem sameAmount_floor (clear : ClearBelow (ratio c s)) :
    SameAmount ⌊ratio m t⌋₊ ⌊ratio c s⌋₊ := by
  intro k less
  rw [← Nat.succ_le_iff, ← Nat.succ_le_iff, Nat.le_floor_iff (ratio_nonneg m t),
    Nat.le_floor_iff (ratio_nonneg c s)]
  refine ⟨fun reaches => ?_, fun reaches => f.le_ratio reaches⟩
  by_contra short
  rw [not_le] at short
  have word : ratio c s < Word.size := short.trans_le (by exact_mod_cast less)
  have off := clear (k + 1) short
  have near := (abs_le.1 (f.near word)).2
  linarith

end Fitted

section None

variable (pos : 0 ≤ x.value) (pos' : 0 ≤ y.value) (none : x.mul? y = none)

include pos pos' none

theorem maxCoeff_lt_of_none : (maxCoeff : ℚ) < x.value * y.value := by
  by_contra room
  rw [not_lt] at room
  obtain ⟨z, found⟩ := mul?_isSome_of_le pos pos' (Rounding.nearest_le (mul_nonneg pos pos') room)
  rw [none] at found
  cases found

/-- Where a product has no room, the exact one is beyond every amount. -/
theorem size_le_of_none : (Word.size : ℚ) ≤ x.value * y.value := by
  have beyond := maxCoeff_lt_of_none pos pos' none
  have wide : (Word.size : ℚ) ≤ maxCoeff := by exact_mod_cast (by decide : Word.size ≤ maxCoeff)
  linarith

end None

section Product

variable (pos : 0 ≤ x.value) (pos' : 0 ≤ y.value) (run : x.mul? y = some z)

include pos pos' run

theorem mul?_exact (fits : FitsIn (x.coeff * y.coeff) (x.scale + y.scale)) :
    z.value = x.value * y.value := by
  obtain ⟨plain, ⟨none, none'⟩ | f⟩ := mul?_fitted pos pos' run
  · rw [none, none']
  · obtain ⟨scale, coeff⟩ := f.eq_of_short fits.1 fits.2
    rw [value_of_plain plain, scale, coeff, ratio_mul pos pos']

/-- A product whose whole part is a word is off by at most half a tick. -/
theorem mul?_near_tick (word : x.value * y.value < Word.size) :
    |z.value - x.value * y.value| ≤ tick / 2 := by
  obtain ⟨plain, ⟨none, none'⟩ | f⟩ := mul?_fitted pos pos' run
  · rw [none, none', sub_self, abs_zero, tick]
    norm_num
  · rw [← ratio_mul pos pos'] at word ⊢
    rw [value_of_plain plain]
    exact f.near word

theorem le_mul? {n : ℕ} (le : (n : ℚ) ≤ x.value * y.value) : (n : ℚ) ≤ z.value := by
  obtain ⟨plain, ⟨none, none'⟩ | f⟩ := mul?_fitted pos pos' run
  · rwa [none', ← none]
  · rw [← ratio_mul pos pos'] at le
    rw [value_of_plain plain]
    exact f.le_ratio le

end Product

/-- A product of unsigned decimals is within one in `grain` of the exact one. -/
theorem mul?_close (left : x.negative = false) (right : y.negative = false)
    (scale : x.scale + y.scale ≤ maxScale) (run : x.mul? y = some z) :
    |z.value - x.value * y.value| * grain ≤ x.value * y.value := by
  obtain ⟨plain, above, below⟩ := mul?_near left right scale run
  rw [value_of_plain left, value_of_plain right, value_of_plain plain, ratio, ratio, ratio]
  generalize x.coeff = a at above below ⊢
  generalize y.coeff = b at above below ⊢
  generalize z.coeff = c at above below ⊢
  have above : (c * 10 ^ (x.scale + y.scale) * grain : ℚ) ≤ a * b * 10 ^ z.scale * (grain + 1) := by
    exact_mod_cast above
  have below : (a * b * 10 ^ z.scale * grain : ℚ) ≤
      c * 10 ^ (x.scale + y.scale) * grain + a * b * 10 ^ z.scale := by
    exact_mod_cast below
  have common : (c : ℚ) / 10 ^ z.scale - a / 10 ^ x.scale * (b / 10 ^ y.scale) =
      (c * 10 ^ (x.scale + y.scale) - a * b * 10 ^ z.scale) /
        (10 ^ z.scale * 10 ^ (x.scale + y.scale)) := by
    rw [pow_add]
    field_simp
  have exact : (a : ℚ) / 10 ^ x.scale * (b / 10 ^ y.scale) =
      a * b * 10 ^ z.scale / (10 ^ z.scale * 10 ^ (x.scale + y.scale)) := by
    rw [pow_add]
    field_simp
  have unit : (0 : ℚ) < 10 ^ z.scale * 10 ^ (x.scale + y.scale) := by positivity
  rw [common, exact, abs_div, abs_of_pos unit, div_mul_eq_mul_div]
  have off : |(c * 10 ^ (x.scale + y.scale) - a * b * 10 ^ z.scale : ℚ) * grain| ≤
      a * b * 10 ^ z.scale :=
    abs_le.2 ⟨by linarith, by linarith⟩
  rw [abs_mul, Nat.abs_cast] at off
  exact div_le_div_of_nonneg_right off unit.le

end Decimal

namespace Fee

open Decimal
open Rounding (le_nearest)

variable {x y z : Decimal} {mode : Rounding} {what what' : String} {r : Except Fault ℕ} {a b F : ℕ}

/-- The outcome is the amount, or that it overflows where it is not a word. -/
def Yields (r : Except Fault ℕ) (a : ℕ) : Prop :=
  if a < Word.size then r = .ok a else ∃ what, r = .error (.overflow what)

theorem Yields.ok_iff (yields : Yields r a) : r = .ok F ↔ F = a ∧ a < Word.size := by
  rw [Yields] at yields
  split at yields
  · next word => simp [yields, word, eq_comm]
  · next wide =>
      obtain ⟨what, refused⟩ := yields
      simp [refused, wide]

theorem Yields.ok (yields : Yields r a) (same : a = F) (word : F < Word.size) : r = .ok F :=
  yields.ok_iff.2 ⟨same.symm, same ▸ word⟩

theorem Yields.congr (yields : Yields r a) (same : SameAmount a b) : Yields r b := by
  by_cases word : a < Word.size ∨ b < Word.size
  · have eq : a = b := by
      have less := same a
      have less' := same b
      omega
    exact eq ▸ yields
  · rw [not_or] at word
    rw [Yields, if_neg word.1] at yields
    rwa [Yields, if_neg word.2]

theorem yields_toAmount (n : ℕ) (what : String) : Yields (toAmount (ofNat n) what) n := by
  rw [Yields, toAmount, toWord?, ofNat]
  split
  · next word => simp [word]
  · next wide => simp [wide]

theorem yields_roundAmount (plain : z.negative = false) (mode : Rounding) (what : String) :
    Yields (roundAmount z mode what) (mode.nearest z.value) := by
  rw [roundAmount, round_of_plain plain, divide_pow, value_of_plain plain]
  exact yields_toAmount _ _

theorem yields_floor (plain : z.negative = false) (what : String) :
    Yields (toAmount z.floor what) ⌊z.value⌋₊ := by
  have whole : ⌊ratio z.coeff z.scale⌋₊ = z.coeff / 10 ^ z.scale := by
    have := Nat.floor_div_eq_div (K := ℚ) z.coeff (10 ^ z.scale)
    rw [← this, ratio]
    norm_cast
  rw [floor_of_plain plain, value_of_plain plain, whole]
  exact yields_toAmount _ _

/-- The product that an amount is made of exists, or the amount is none. -/
theorem yields_multiply {f : Decimal → Except Fault ℕ} (wide : x.mul? y = none → Word.size ≤ a)
    (step : ∀ z, x.mul? y = some z → Yields (f z) a) : Yields (multiply x y what >>= f) a := by
  rw [multiply]
  cases product : x.mul? y with
  | some z => exact step z product
  | none =>
      rw [Yields, if_neg (Nat.not_lt.2 (wide product))]
      exact ⟨_, rfl⟩

/-- An amount made of a product is made of the exact one, if all its digits fit or it does not
matter that it is fitted. -/
theorem yields_of_product {amount : ℚ → ℕ} {f : Decimal → Except Fault ℕ} (pos : 0 ≤ x.value)
    (pos' : 0 ≤ y.value)
    (wide : (Word.size : ℚ) ≤ x.value * y.value → Word.size ≤ amount (x.value * y.value))
    (step : ∀ z, z.negative = false → Yields (f z) (amount z.value))
    (same : FitsIn (x.coeff * y.coeff) (x.scale + y.scale) ∨
      ∀ m t, Fitted (x.coeff * y.coeff) (x.scale + y.scale) m t →
        SameAmount (amount (ratio m t)) (amount (x.value * y.value))) :
    Yields (multiply x y what >>= f) (amount (x.value * y.value)) := by
  refine yields_multiply (fun none => wide (size_le_of_none pos pos' none)) fun z product => ?_
  obtain ⟨plain, fitted⟩ := mul?_fitted pos pos' product
  refine (step z plain).congr ?_
  obtain fits | same := same
  · rw [mul?_exact pos pos' product fits]
  · obtain ⟨none, none'⟩ | f := fitted
    · rw [none, none']
    · rw [value_of_plain plain]
      exact same _ _ f

/-- A product is rounded once, as the exact one, if all its digits fit or it is clear of halves. -/
theorem yields_product (pos : 0 ≤ x.value) (pos' : 0 ≤ y.value)
    (clear : FitsIn (x.coeff * y.coeff) (x.scale + y.scale) ∨ ClearOfHalves (x.value * y.value)) :
    Yields (multiply x y what >>= fun z => roundAmount z mode what)
      (mode.nearest (x.value * y.value)) := by
  refine yields_of_product pos pos' le_nearest
    (fun z plain => yields_roundAmount plain mode what) (clear.imp_right fun clear m t f => ?_)
  rw [← ratio_mul pos pos'] at clear ⊢
  exact f.sameAmount_nearest clear

/-- The money of a fill is rounded down once, if all its digits fit or it is not just below a whole
amount. -/
theorem yields_fillMoney {quantity : ℕ} {price : Decimal} (pos : 0 ≤ price.value)
    (clear : FitsIn (quantity * price.coeff) price.scale ∨ ClearBelow (quantity * price.value)) :
    Yields (fillMoney quantity price) ⌊quantity * price.value⌋₊ := by
  have pos' : 0 ≤ (ofNat quantity).value := by simp
  have scale : (ofNat quantity).scale + price.scale = price.scale := Nat.zero_add _
  rw [← scale] at clear
  rw [← value_ofNat quantity] at clear ⊢
  refine yields_of_product pos' pos (fun word => Nat.le_floor word)
    (fun z plain => yields_floor plain "fill money") (clear.imp_right fun clear m t f => ?_)
  rw [← ratio_mul pos' pos] at clear ⊢
  exact f.sameAmount_floor clear

section Close

variable {v w : ℚ} (close : |w - v| * grain ≤ v)

theorem size_le_nearest (beyond : (Word.size : ℚ) - 1 / 2 < v) : Word.size ≤ mode.nearest v := by
  have top : ((Word.size - 1 : ℕ) : ℚ) = Word.size - 1 := Nat.cast_pred (by decide)
  have pos : (1 : ℚ) ≤ Word.size := by exact_mod_cast (by decide : 1 ≤ Word.size)
  refine Nat.le_of_pred_lt ((Rounding.lt_nearest_iff (by linarith)).2 (.inl ?_))
  rw [Nat.pred_eq_sub_one, top]
  linarith

include close

/-- Beyond the words a number may be far from a close one, but not so far that this is rounded to a
word. -/
theorem size_lt_of_close (beyond : (Word.size : ℚ) ≤ w) : (Word.size : ℚ) - 1 / 2 < v := by
  have room : (2 * Word.size : ℚ) < grain := by exact_mod_cast (by decide : 2 * Word.size < grain)
  have apart := le_abs_self (w - v)
  by_contra under
  nlinarith

theorem near_of_close (word : w < Word.size) : |w - v| ≤ 3 / 2 * tick := by
  have some : (10 : ℚ) ≤ grain := by exact_mod_cast (by decide : 10 ≤ grain)
  have fine : (20 * 10 ^ 9 * Word.size : ℚ) ≤ 27 * grain := by
    exact_mod_cast (by decide : 20 * 10 ^ 9 * Word.size ≤ 27 * grain)
  have apart := neg_abs_le (w - v)
  have pos := abs_nonneg (w - v)
  rw [tick]
  generalize |w - v| = off at close apart pos ⊢
  have tenth : off * 10 ≤ v := by nlinarith
  nlinarith

end Close

/-- A product of a number near to the exact one is rounded as the exact one where that is far from
halves. -/
theorem yields_product_of_close {v : ℚ} (pos : 0 ≤ x.value) (pos' : 0 ≤ y.value)
    (close : |x.value * y.value - v| * grain ≤ v) (far : FarFromHalves v) :
    Yields (multiply x y what >>= fun z => roundAmount z mode what) (mode.nearest v) := by
  refine yields_multiply (fun none => size_le_nearest (size_lt_of_close close
    (size_le_of_none pos pos' none))) fun z product => ?_
  have plain := (mul?_fitted pos pos' product).1
  refine (yields_roundAmount plain mode what).congr ?_
  refine sameAmount_nearest (le_trans (by positivity) close) (value_nonneg_of_plain plain)
    fun k less => ?_
  by_cases word : x.value * y.value < Word.size
  · have twice := abs_sub_le z.value (x.value * y.value) v
    have once := mul?_near_tick pos pos' product word
    have first := near_of_close close word
    exact .inr (.inr (lt_of_le_of_lt (by linarith) (far k)))
  · rw [not_lt] at word
    have half : (k : ℚ) + 1 ≤ Word.size := by exact_mod_cast less
    have beyond := size_lt_of_close close word
    have beyond' := le_mul? pos pos' product word
    exact .inr (.inl ⟨by linarith, by linarith⟩)

/-- A notional value that is exact, or a fee that is far from halves: in both cases the fee is
rounded once, as the exact one. -/
theorem yields_notional {reference rate : Decimal} {quantity : ℕ} (pos : 0 < reference.value)
    (scale : reference.scale ≤ maxScale) (plain : rate.negative = false)
    (room : quantity * reference.value * rate.value < Word.size →
      quantity * reference.value ≤ maxCoeff)
    (clear : quantity * reference.coeff ≤ maxCoeff ∧
        (FitsIn (quantity * reference.coeff * rate.coeff) (reference.scale + rate.scale) ∨
          ClearOfHalves (quantity * reference.value * rate.value)) ∨
      FarFromHalves (quantity * reference.value * rate.value)) :
    Yields (multiply (ofNat quantity) reference what >>= fun notional =>
        multiply notional rate what' >>= fun z => roundAmount z mode what')
      (mode.nearest (quantity * reference.value * rate.value)) := by
  have posRate := value_nonneg_of_plain plain
  have posQuantity : 0 ≤ (ofNat quantity).value := by simp
  have digits : (ofNat quantity).scale + reference.scale = reference.scale := Nat.zero_add _
  rw [← value_ofNat quantity] at room clear ⊢
  refine yields_multiply (fun none => ?_) fun z product => ?_
  · have beyond := maxCoeff_lt_of_none posQuantity pos.le none
    refine le_nearest (not_lt.1 fun small => ?_)
    exact (room small).not_gt beyond
  obtain ⟨plain', fitted⟩ := mul?_fitted posQuantity pos.le product
  have posz := value_nonneg_of_plain plain'
  obtain ⟨short, clear⟩ | far := clear
  · have exact := mul?_exact posQuantity pos.le product ⟨short, by rwa [digits]⟩
    rw [← exact] at clear ⊢
    refine yields_product posz posRate ?_
    obtain ⟨-, none⟩ | f := fitted
    · rw [none, zero_mul]
      exact .inr clearOfHalves_zero
    · obtain ⟨scale, coeff⟩ := f.eq_of_short short (by rwa [digits])
      rw [digits] at scale
      rw [scale, coeff]
      exact clear
  · have close := mul?_close rfl (plain_of_nonneg pos.le (isZero_of_pos pos)) (by rwa [digits])
      product
    refine yields_product_of_close posz posRate ?_ far
    rw [← sub_mul, abs_mul, abs_of_nonneg posRate, mul_right_comm]
    exact mul_le_mul_of_nonneg_right close posRate

section Fees

variable {params : Params} {reference : Decimal} {quantity : ℕ}

theorem tradeFee_base : tradeFee params true reference quantity =
    multiply (ofNat quantity) params.feeRate "fee" >>= fun z =>
      roundAmount z params.rounding "fee" := rfl

theorem tradeFee_quoted (some : reference.isZero = false) :
    tradeFee params false reference quantity =
      multiply (ofNat quantity) reference "fee notional" >>= fun notional =>
        multiply notional params.feeRate "fee" >>= fun z =>
          roundAmount z params.rounding "fee" := by
  rw [tradeFee, if_neg (by decide), if_neg (by simp [some])]

theorem tradeFee_unquoted (none : reference.isZero = true) :
    tradeFee params false reference quantity = .ok params.fixedTradeFee := by
  rw [tradeFee, if_neg (by decide), if_pos none]
  rfl

theorem feeRatePrecision_le (valid : params.check = .ok params) :
    params.feeRatePrecision ≤ maxScale := by
  have sane := (Params.check_ok.1 valid).1
  have most : Params.maxFeeRatePrecision ≤ maxScale := by decide
  rw [Params.defect?] at sane
  grind

end Fees

theorem value_scaled {price precision : ℕ} (most : precision ≤ Price.maxPrecision) :
    (Price.scaled price precision).value = price / 10 ^ precision := by
  rw [value_of_plain rfl, Price.scaled, Nat.min_eq_left most, ratio]

/-- Each amount is the exact number, rounded once, and refused only if it is no word, where the
digits of the product fit or the number is not next to where the rounding changes. A fee through a
notional value also needs that value to fit. -/
theorem amounts_rounded_once {params : Params} (valid : params.check = .ok params) :
    (∀ (price precision quantity : ℕ) (mode : Rounding), precision ≤ Price.maxPrecision →
      (price * quantity ≤ maxCoeff ∨ ClearOfHalves (price * quantity / 10 ^ precision)) →
      Yields (buyPrincipal price precision quantity mode)
        (mode.nearest (price * quantity / 10 ^ precision))) ∧
    (∀ (quantity : ℕ) (price : Decimal), 0 ≤ price.value → price.scale ≤ maxScale →
      (quantity * price.coeff ≤ maxCoeff ∨ ClearBelow (quantity * price.value)) →
      Yields (fillMoney quantity price) ⌊quantity * price.value⌋₊) ∧
    (∀ (reference : Decimal) (quantity : ℕ),
      (quantity * params.feeRateNumerator ≤ maxCoeff ∨
        ClearOfHalves (quantity * params.feeRate.value)) →
      Yields (tradeFee params true reference quantity)
        (params.rounding.nearest (quantity * params.feeRate.value))) ∧
    ∀ (reference : Decimal) (quantity : ℕ), 0 < reference.value → reference.scale ≤ maxScale →
      (quantity * reference.value * params.feeRate.value < Word.size →
        quantity * reference.value ≤ maxCoeff) →
      (quantity * reference.coeff ≤ maxCoeff ∧
          (FitsIn (quantity * reference.coeff * params.feeRateNumerator)
              (reference.scale + params.feeRatePrecision) ∨
            ClearOfHalves (quantity * reference.value * params.feeRate.value)) ∨
        FarFromHalves (quantity * reference.value * params.feeRate.value)) →
      Yields (tradeFee params false reference quantity)
        (params.rounding.nearest (quantity * reference.value * params.feeRate.value)) := by
  refine ⟨fun price precision quantity mode most clear => ?_,
    fun quantity price pos scale clear => ?_, fun reference quantity clear => ?_,
    fun reference quantity pos scale room clear => ?_⟩
  · have number : (Price.scaled price precision).value * (ofNat quantity).value =
        price * quantity / 10 ^ precision := by
      rw [value_scaled most, value_ofNat, div_mul_eq_mul_div]
    rw [← number] at clear ⊢
    refine yields_product (value_nonneg_of_plain rfl) (by simp) ?_
    refine clear.imp_left fun short => ⟨short, ?_⟩
    exact (Nat.min_le_right precision _).trans (by decide)
  · exact yields_fillMoney pos (clear.imp_left fun short => ⟨short, scale⟩)
  · rw [tradeFee_base]
    rw [← value_ofNat quantity] at clear ⊢
    refine yields_product (by simp) (value_nonneg_of_plain rfl) ?_
    refine clear.imp_left fun short => ⟨short, ?_⟩
    exact (Nat.zero_add _).trans_le (feeRatePrecision_le valid)
  · rw [tradeFee_quoted (isZero_of_pos pos)]
    exact yields_notional pos scale rfl room clear

/-- A principal whose product has 38 digits, too many for a coefficient, and short products. -/
theorem longPrincipal_rounded_once : Params.default.check = .ok Params.default ∧
    ClearOfHalves (12345678901234567891 * 672288177322074790 / 10 ^ 18) ∧
    buyPrincipal 12345678901234567891 18 672288177322074790 .halfEven = .ok 8299853966314582636 ∧
    fillMoney 3 (Price.scaled 15 1) = .ok 4 ∧
    tradeFee Params.default true .zero 12345 = .ok 12 ∧
    tradeFee Params.default false (Price.scaled 25 1) 1000000 = .ok 2500 := by
  have valid : Params.default.check = .ok Params.default := by decide +kernel
  have clear : ClearOfHalves (12345678901234567891 * 672288177322074790 / 10 ^ 18) := by
    intro k
    refine .inr ?_
    obtain below | above := Nat.lt_or_ge 8299853966314582635 k
    · have : (8299853966314582636 : ℚ) ≤ k := by exact_mod_cast below
      rw [abs_sub_comm, tick, lt_abs]
      exact .inl (by linarith)
    · have : (k : ℚ) ≤ 8299853966314582635 := by exact_mod_cast above
      rw [tick, lt_abs]
      exact .inl (by linarith)
  have rate : Params.default.feeRate.value = 1 / 1000 := by
    rw [value_of_plain rfl]
    norm_num [Params.feeRate, Params.default, ratio]
  have most : 1 ≤ Price.maxPrecision := by decide
  have price : (Price.scaled 15 1).value = 3 / 2 := by norm_num [value_scaled most]
  have reference : (Price.scaled 25 1).value = 5 / 2 := by norm_num [value_scaled most]
  obtain ⟨principal, money, base, quoted⟩ := amounts_rounded_once valid
  refine ⟨valid, clear, ?_, ?_, ?_, ?_⟩
  · refine (principal _ _ _ _ (by decide) (.inr clear)).ok ?_ (by decide)
    exact Rounding.nearest_of_near (by norm_num) (by norm_num [abs_lt])
  · refine (money 3 (Price.scaled 15 1) ?_ (by decide) (.inl (by decide))).ok ?_ (by decide)
    · norm_num [price]
    · norm_num [price]
  · refine (base .zero 12345 (.inl (by decide))).ok ?_ (by decide)
    exact Rounding.nearest_of_near (by norm_num [rate]) (by norm_num [rate, abs_lt])
  · refine (quoted (Price.scaled 25 1) 1000000 ?_ (by decide) (fun _ => ?_)
      (.inl ⟨by decide, .inl ⟨by decide, by decide⟩⟩)).ok ?_ (by decide)
    · norm_num [reference]
    · norm_num [reference, maxCoeff]
    · exact Rounding.nearest_of_near (by norm_num [rate, reference])
        (by norm_num [rate, reference, abs_lt])

/-- A principal that was just below a half is rounded up, the money of a fill that was just below a
whole number is not rounded down, and a fee is refused since its notional value is too long. -/
theorem product_rounded_twice :
    (buyPrincipal 1000000000000000001 18 499999999999999999 .halfEven = .ok 500000000000000000 ∧
      Rounding.halfEven.nearest (1000000000000000001 * 499999999999999999 / 10 ^ 18) =
        499999999999999999) ∧
    (fillMoney 999999999999999999 (Price.scaled 1000000000000000001 18) =
        .ok 1000000000000000000 ∧
      ⌊(999999999999999999 * 1000000000000000001 / 10 ^ 18 : ℚ)⌋₊ = 999999999999999999) ∧
    ∃ params : Params, params.check = .ok params ∧
      (∃ what, tradeFee params false (.ofNat (10 ^ 15)) (10 ^ 15) = .error (.overflow what)) ∧
      params.rounding.nearest (10 ^ 15 * 10 ^ 15 * params.feeRate.value) = 10 ^ 12 := by
  refine ⟨⟨by decide +kernel, ?_⟩, ⟨by decide +kernel, ?_⟩,
    { Params.default with feeRateNumerator := 1, feeRatePrecision := 18 }, by decide +kernel,
    ⟨_, rfl⟩, ?_⟩
  · exact Rounding.nearest_of_near (by norm_num) (by norm_num [abs_lt])
  · rw [Nat.floor_eq_iff (by norm_num)]
    norm_num
  · rw [value_of_plain rfl]
    refine Rounding.nearest_of_near ?_ ?_ <;> norm_num [Params.feeRate, ratio, abs_lt]

end Fee

end Bourse
