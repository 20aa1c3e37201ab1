import Bourse.Proofs.Decimal

/-!
# What a buy freezes pays for all its fills

The principal is rounded once, but every fill is rounded for itself, perhaps up. What is left of the
principal need not cover the rest of the order at its exact price, so more is carried along.

* `Covers`: the frozen money covers a quantity at a price, with room for all that rounding may add;
* `Covers.fill`, `Covers.rest`: then it pays for a fill at no higher price, and what is left covers
  the rest;
* `principal_covers_fills`: so the principal of a buy pays for every way to fill it.
-/

namespace Bourse

theorem Price.scaled_le_iff {n s n' s' : Nat} : scaled n s ≤ scaled n' s' ↔
    (scaled n s).coeff * 10 ^ (scaled n' s').scale ≤
      (scaled n' s').coeff * 10 ^ (scaled n s).scale := by
  change ((n : Int) * 10 ^ _ ≤ (n' : Int) * 10 ^ _) ↔ _
  norm_cast

theorem Price.scaled_scale (n s : Nat) : (scaled n s).scale ≤ Decimal.maxScale :=
  (Nat.min_le_right _ _).trans (by decide)

namespace Fee

open Decimal (grain maxScale)

variable {frozen quantity taken paid : Nat} {limit price : Decimal}

/-- The money covers the quantity at the price, although each fill of it may be rounded up by one in
`grain`. -/
def Covers (frozen quantity : Nat) (price : Decimal) : Prop :=
  quantity * price.coeff * (grain + 1) < (frozen + 1) * 10 ^ price.scale * grain

/-- What covers an order pays for a part of it at no higher price. -/
theorem Covers.fill (covers : Covers frozen quantity limit) (word : frozen < Word.size)
    (part : taken ≤ quantity) (plain : price.negative = false) (scale : price.scale ≤ maxScale)
    (below : price.coeff * 10 ^ limit.scale ≤ limit.coeff * 10 ^ price.scale) :
    ∃ paid ≤ frozen, fillMoney taken price = .ok paid ∧
      paid * 10 ^ limit.scale * grain ≤ taken * limit.coeff * (grain + 1) := by
  rw [Covers] at covers
  have unit : 0 < 10 ^ limit.scale := Nat.pow_pos (by omega)
  have unit' : 0 < 10 ^ price.scale := Nat.pow_pos (by omega)
  have enough : taken * price.coeff * (grain + 1) < (frozen + 1) * 10 ^ price.scale * grain := by
    apply Nat.lt_of_mul_lt_mul_right (a := 10 ^ limit.scale)
    have room := Nat.mul_lt_mul_of_pos_right covers unit'
    have scaled := Nat.mul_le_mul_right (grain + 1) (Nat.mul_le_mul part below)
    nlinarith
  obtain ⟨paid, held, counted, costs⟩ := fillMoney_covered plain scale word enough
  refine ⟨paid, held, counted, Nat.le_of_mul_le_mul_right ?_ unit'⟩
  have scaled := Nat.mul_le_mul_right (grain + 1) (Nat.mul_le_mul_left taken below)
  have costs := Nat.mul_le_mul_right (10 ^ limit.scale) costs
  nlinarith

/-- And what is left covers the rest. -/
theorem Covers.rest (covers : Covers frozen quantity limit) (part : taken ≤ quantity)
    (held : paid ≤ frozen)
    (cheap : paid * 10 ^ limit.scale * grain ≤ taken * limit.coeff * (grain + 1)) :
    Covers (frozen - paid) (quantity - taken) limit := by
  rw [Covers] at covers ⊢
  obtain ⟨rest, rfl⟩ := Nat.exists_eq_add_of_le part
  obtain ⟨kept, rfl⟩ := Nat.exists_eq_add_of_le held
  rw [Nat.add_sub_cancel_left, Nat.add_sub_cancel_left]
  nlinarith

/-- A part of an order, and the price as the order on the other side quotes it. -/
structure Slice where
  quantity : Nat
  price : Nat
  precision : Nat

def Slice.unitPrice (f : Slice) : Decimal := Price.scaled f.price f.precision

/-- Along a sequence of fills, each is paid from what those before it left. -/
theorem Covers.fills {fills : List Slice} (covers : Covers frozen quantity limit)
    (word : frozen < Word.size) (fits : (fills.map (·.quantity)).sum ≤ quantity)
    (below : ∀ f ∈ fills,
      f.unitPrice.coeff * 10 ^ limit.scale ≤ limit.coeff * 10 ^ f.unitPrice.scale) :
    ∃ amounts, List.Forall₂ (fun f m => fillMoney f.quantity f.unitPrice = .ok m) fills amounts ∧
      amounts.sum ≤ frozen := by
  induction fills generalizing frozen quantity with
  | nil => exact ⟨[], .nil, Nat.zero_le _⟩
  | cons f rest ih =>
      rw [List.map_cons, List.sum_cons] at fits
      rw [List.forall_mem_cons] at below
      have part : f.quantity ≤ quantity := by omega
      obtain ⟨paid, held, counted, cheap⟩ := covers.fill word part rfl
        (Price.scaled_scale f.price f.precision) below.1
      have left := covers.rest part held cheap
      obtain ⟨amounts, each, most⟩ := ih left (by omega) (by omega) below.2
      refine ⟨paid :: amounts, .cons counted each, ?_⟩
      rw [List.sum_cons]
      omega

/-- However an order to buy is filled, at prices no higher than its own, the money of every fill is
an amount and the principal pays for all of them. -/
theorem principal_covers_fills {price precision : Nat} {mode : Rounding} {principal : Nat}
    {fills : List Slice} (froze : buyPrincipal price precision quantity mode = .ok principal)
    (fits : (fills.map (·.quantity)).sum ≤ quantity)
    (below : ∀ f ∈ fills, f.unitPrice ≤ Price.scaled price precision) :
    ∃ amounts, List.Forall₂ (fun f m => fillMoney f.quantity f.unitPrice = .ok m) fills amounts ∧
      amounts.sum ≤ principal := by
  obtain ⟨word, covers⟩ := buyPrincipal_covers froze
  have covers : Covers principal quantity (Price.scaled price precision) := covers
  exact covers.fills word fits fun f mem => Price.scaled_le_iff.1 (below f mem)

section Parts

/-- All but one unit of an order at its own price, and the last unit a little below it. -/
def twoParts : List Slice := [⟨672288177322074789, 12345678901234567891, 18⟩, ⟨1, 12, 0⟩]

/-- The first part costs `8299853966314582623.999999999999999999`, which has too many digits and is
rounded up. The principal pays for it still, and for the last unit, and nothing is left. -/
theorem twoParts_covered :
    buyPrincipal 12345678901234567891 18 672288177322074790 .halfEven =
      .ok 8299853966314582636 ∧
    (twoParts.map fun f => fillMoney f.quantity f.unitPrice) =
      [.ok 8299853966314582624, .ok 12] ∧
    ∃ amounts, List.Forall₂ (fun f m => fillMoney f.quantity f.unitPrice = .ok m) twoParts
      amounts ∧ amounts.sum ≤ 8299853966314582636 := by
  have froze : buyPrincipal 12345678901234567891 18 672288177322074790 .halfEven =
      .ok 8299853966314582636 := by
    decide +kernel
  exact ⟨froze, by decide +kernel, principal_covers_fills froze (by decide) (by decide)⟩

end Parts

end Fee

end Bourse
