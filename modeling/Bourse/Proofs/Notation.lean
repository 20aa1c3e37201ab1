import Bourse.Proofs.OrderId
import Bourse.Proofs.Priority
import Mathlib.Tactic.FieldSimp

/-!
# A price is written in one way

* `chars_inj`: the text of a decimal tells its sign, its digits and its scale: it has as many digits
  after the point as the scale says, and no digit is a sign or a point;
* `value_normalize`: a decimal without trailing zeros is the same number;
* `value_of_text`: hence the text that a price has without trailing zeros tells the number.
-/

namespace Bourse.Decimal

variable {x y : Decimal} {c s : ℕ}

section Digits

theorem isDigit_of_mem_digits {d : Char} (mem : d ∈ digits c s) : d.isDigit = true := by
  rw [digits, List.mem_append] at mem
  obtain mem | mem := mem
  · rw [List.eq_of_mem_replicate mem]
    rfl
  · exact Nat.isDigit_of_mem_toDigits (by decide) (Nat.le_refl 10) mem

/-- Zeros in front do not count. -/
theorem ofDigitChars_digits (c s : ℕ) : Nat.ofDigitChars 10 (digits c s) 0 = c := by
  rw [digits, Nat.ofDigitChars_append, Nat.ofDigitChars_replicate_zero, Nat.mul_zero,
    Nat.ofDigitChars_ten_toDigits]

theorem lt_length_digits (c s : ℕ) : s < (digits c s).length := by
  rw [digits, List.length_append, List.length_replicate]
  omega

end Digits

section Chars

/-- The digits before the point. -/
def whole (x : Decimal) : List Char :=
  (digits x.coeff x.scale).take ((digits x.coeff x.scale).length - x.scale)

/-- The digits after the point. -/
def fraction (x : Decimal) : List Char :=
  (digits x.coeff x.scale).drop ((digits x.coeff x.scale).length - x.scale)

def sign (x : Decimal) : List Char := if x.negative then ['-'] else []

def pointed (x : Decimal) : List Char := if x.scale = 0 then [] else '.' :: x.fraction

theorem chars_eq (x : Decimal) : x.chars = x.sign ++ (x.whole ++ x.pointed) := by
  rw [chars, ← List.append_assoc]
  rfl

theorem whole_append_fraction (x : Decimal) : x.whole ++ x.fraction = digits x.coeff x.scale :=
  List.take_append_drop _ _

theorem length_fraction (x : Decimal) : x.fraction.length = x.scale := by
  have more := lt_length_digits x.coeff x.scale
  rw [fraction, List.length_drop]
  omega

theorem isDigit_of_mem_whole {d : Char} (mem : d ∈ x.whole) : d.isDigit = true :=
  isDigit_of_mem_digits (List.mem_of_mem_take mem)

/-- The first digits of a text end where the point or the text does. -/
theorem takeWhile_isDigit (x : Decimal) :
    (x.whole ++ x.pointed).takeWhile Char.isDigit = x.whole := by
  rw [List.takeWhile_append_of_pos fun _ => isDigit_of_mem_whole, pointed]
  split <;> simp

theorem whole_ne_nil (x : Decimal) : x.whole ≠ [] := by
  have more := lt_length_digits x.coeff x.scale
  refine List.ne_nil_of_length_pos ?_
  rw [whole, List.length_take]
  omega

/-- A digit comes first but for the sign. -/
theorem negative_iff (x : Decimal) : x.negative = true ↔ x.chars.head? = some '-' := by
  obtain ⟨d, rest, digits⟩ := List.exists_cons_of_ne_nil x.whole_ne_nil
  have digit : d.isDigit = true := isDigit_of_mem_whole (digits ▸ List.mem_cons_self)
  have unsigned : d ≠ '-' := by
    rintro rfl
    exact absurd digit (by decide)
  rw [chars_eq, sign, digits]
  cases x.negative <;> simp [unsigned]

theorem pointed_inj (same : x.pointed = y.pointed) : x.fraction = y.fraction := by
  have none (z : Decimal) (whole : z.scale = 0) : z.fraction = [] :=
    List.eq_nil_of_length_eq_zero (z.length_fraction.trans whole)
  rw [pointed, pointed] at same
  split at same <;> split at same
  · next left right => rw [none x left, none y right]
  · cases same
  · cases same
  · exact List.tail_eq_of_cons_eq same

theorem chars_inj (same : x.chars = y.chars) : x = y := by
  have negative : x.negative = y.negative := by
    rw [Bool.eq_iff_iff, negative_iff, negative_iff, same]
  rw [chars_eq, chars_eq, sign, sign, negative] at same
  have body := List.append_cancel_left same
  have whole : x.whole = y.whole := by rw [← takeWhile_isDigit, body, takeWhile_isDigit]
  rw [whole] at body
  have fraction := pointed_inj (List.append_cancel_left body)
  have scale : x.scale = y.scale := by rw [← length_fraction, fraction, length_fraction]
  have coeff : x.coeff = y.coeff := by
    rw [← ofDigitChars_digits x.coeff x.scale, ← ofDigitChars_digits y.coeff y.scale,
      ← whole_append_fraction, ← whole_append_fraction, whole, fraction]
  calc x = ⟨x.negative, x.coeff, x.scale⟩ := rfl
    _ = y := by rw [negative, coeff, scale]

theorem text_inj (same : x.text = y.text) : x = y :=
  chars_inj (String.ofList_injective same)

end Chars

section Normalize

/-- Each zero is dropped from the digits and from the scale. -/
theorem strip_ratio (c s : ℕ) : ((strip c s).1 : ℚ) / 10 ^ (strip c s).2 = c / 10 ^ s := by
  induction s generalizing c with
  | zero => rfl
  | succ s ih =>
      rw [strip]
      split
      · next zero =>
          have split : (c : ℚ) = (c / 10 : ℕ) * 10 := by
            exact_mod_cast (Nat.div_mul_cancel (Nat.dvd_of_mod_eq_zero zero)).symm
          rw [ih, split, pow_succ]
          field_simp
      · rfl

theorem value_signed (negative : Bool) (c s : ℕ) :
    (signed negative c s).value = if negative then -((c : ℚ) / 10 ^ s) else c / 10 ^ s := by
  rw [value, numerator_signed]
  cases negative <;> simp [signed, neg_div]

theorem value_normalize (x : Decimal) : x.normalize.value = x.value := by
  have sign : x.value = if x.negative then -((x.coeff : ℚ) / 10 ^ x.scale)
      else x.coeff / 10 ^ x.scale := by
    rw [value, numerator]
    cases x.negative <;> simp [neg_div]
  rw [sign, ← strip_ratio]
  exact value_signed _ _ _

end Normalize

/-- The text of a price without trailing zeros tells the number. -/
theorem value_of_text (same : x.normalize.text = y.normalize.text) : x.value = y.value := by
  rw [← value_normalize x, text_inj same, value_normalize]

end Bourse.Decimal
