import Bourse.Proofs.Pass
import Bourse.Proofs.Principal

/-!
# Escrow covers every fill

* `Order.Covered`: what an order has frozen covers whatever fills may still ask of it;
* `execute_total`, `execute_covered`: covered orders that cross can be filled, where no counter
  stops it, and stay covered.
-/

namespace Bourse

open Decimal (grain)

namespace Order

/-- The principal covers the remainder: of a sell exactly, of a buy at its own price and with room
for all that rounding may add. -/
structure Covered (o : Order) : Prop where
  remaining : o.remaining < Word.size
  principal : o.frozenPrincipal < Word.size
  buy : o.side = .buy → o.remaining * o.effectivePrice.coeff * (grain + 1) <
    (o.frozenPrincipal + 1) * 10 ^ o.effectivePrice.scale * grain
  sell : o.side = .sell → o.frozenPrincipal = o.remaining

variable {o : Order}

theorem Covered.covers (covered : o.Covered) (buys : o.side = .buy) :
    Fee.Covers o.frozenPrincipal o.remaining o.effectivePrice :=
  covered.buy buys

theorem Covered.released (covered : o.Covered) (filled : o.remaining = 0) : o.released.Covered where
  remaining := covered.remaining
  principal := Nat.two_pow_pos 64
  buy _ := by
    have none : o.released.remaining = 0 := filled
    have empty : o.released.frozenPrincipal = 0 := rfl
    have pos : 0 < 10 ^ o.released.effectivePrice.scale := Nat.pow_pos (by omega)
    have fine : 0 < grain := by decide
    rw [none, empty]
    simp only [Nat.zero_mul, Nat.zero_add, Nat.one_mul]
    exact Nat.mul_pos pos fine
  sell _ := filled.symm

end Order

namespace Fill

variable {v : Venue} {seq money fee : Nat} {maker : Side} {buyer seller o : Order} {f : Fill}
  {quantity : Nat}

theorem remaining_settle {principal : Nat} (le : quantity ≤ o.remaining)
    (word : o.remaining < Word.size) :
    (settle o principal fee quantity money).remaining = o.remaining - quantity := by
  rw [settle, Order.recordFill]
  exact Word.wrapSub_of_le le word

theorem covered_close (covered : o.Covered) : (close o).Covered := by
  rw [close]
  split
  · next filled => exact covered.released (by simpa [Order.isFilled] using filled)
  · exact covered

/-- A buy that pays little above its price for what it takes stays covered. -/
theorem covered_paid (covered : o.Covered) (buys : o.side = .buy) (le : quantity ≤ o.remaining)
    (pays : money ≤ o.frozenPrincipal)
    (cheap : money * 10 ^ o.effectivePrice.scale * grain ≤
      quantity * o.effectivePrice.coeff * (grain + 1)) :
    (settle o money fee quantity money).Covered := by
  have same : (settle o money fee quantity money).terms = o.terms := terms_settle
  have left : (settle o money fee quantity money).remaining = o.remaining - quantity :=
    remaining_settle le covered.remaining
  refine ⟨?_, ?_, fun _ => ?_, fun sells => ?_⟩
  · rw [left]
    exact Nat.lt_of_le_of_lt (Nat.sub_le _ _) covered.remaining
  · rw [principal_settle]
    exact Nat.lt_of_le_of_lt (Nat.sub_le _ _) covered.principal
  · rw [left, principal_settle, Order.effectivePrice_of_terms same]
    exact (covered.covers buys).rest le pays cheap
  · rw [Order.side_of_terms same, buys] at sells
    cases sells

/-- A sell that delivers what it sells stays covered. -/
theorem covered_delivered (covered : o.Covered) (sells : o.side = .sell)
    (le : quantity ≤ o.remaining) : (settle o quantity fee quantity money).Covered := by
  have same : (settle o quantity fee quantity money).terms = o.terms := terms_settle
  have left : (settle o quantity fee quantity money).remaining = o.remaining - quantity :=
    remaining_settle le covered.remaining
  refine ⟨?_, ?_, fun buys => ?_, fun _ => ?_⟩
  · rw [left]
    exact Nat.lt_of_le_of_lt (Nat.sub_le _ _) covered.remaining
  · rw [principal_settle]
    exact Nat.lt_of_le_of_lt (Nat.sub_le _ _) covered.principal
  · rw [Order.side_of_terms same, sells] at buys
    cases buys
  · rw [left, principal_settle, covered.sell sells]

section Execute

variable (buys : buyer.side = .buy) (sells : seller.side = .sell)
  (crosses : seller.effectivePrice ≤ buyer.effectivePrice) (buyerCovered : buyer.Covered)
  (sellerCovered : seller.Covered)

include buys crosses buyerCovered in
/-- At the price of either side the fill costs at most a little above the buyer's own price. -/
theorem fillMoney_total (maker : Side) : ∃ money ≤ buyer.frozenPrincipal,
    Fee.fillMoney (volume buyer seller) (Pass.makerPrice maker buyer seller) = .ok money ∧
      money * 10 ^ buyer.effectivePrice.scale * grain ≤
        volume buyer seller * buyer.effectivePrice.coeff * (grain + 1) := by
  have covers := buyerCovered.covers buys
  have part : volume buyer seller ≤ buyer.remaining := Nat.min_le_left _ _
  cases maker with
  | buy => exact covers.fill buyerCovered.principal part rfl (Price.scaled_scale _ _) le_rfl
  | sell =>
      exact covers.fill buyerCovered.principal part rfl (Price.scaled_scale _ _)
        (Price.scaled_le_iff.1 crosses)

include buys sells crosses buyerCovered sellerCovered

/-- Covered orders that cross can be filled, where counters wrap. -/
theorem execute_total [Build] (release : Build.isChecked = false) : ∃ f,
    execute v seq maker (Pass.makerPrice maker buyer seller) buyer seller = .ok f := by
  obtain ⟨money, pays, paid, -⟩ := fillMoney_total buys crosses buyerCovered maker
  have delivers : volume buyer seller ≤ seller.frozenPrincipal := by
    rw [sellerCovered.sell sells]
    exact Nat.min_le_right _ _
  exact ⟨_, execute_ok.2 ⟨money, paid, pays, delivers, by simp [release], rfl⟩⟩

/-- And they stay covered; the fill completes one of them. -/
theorem execute_covered [Build]
    (run : execute v seq maker (Pass.makerPrice maker buyer seller) buyer seller = .ok f) :
    f.buyer.Covered ∧ f.seller.Covered ∧ (f.buyer.remaining = 0 ∨ f.seller.remaining = 0) := by
  obtain ⟨money, paid, pays, delivers, -, rfl⟩ := execute_ok.1 run
  obtain ⟨money', -, paid', cheap⟩ := fillMoney_total buys crosses buyerCovered maker
  obtain rfl := Except.ok.inj (paid.symm.trans paid')
  have taken : volume buyer seller ≤ buyer.remaining := Nat.min_le_left _ _
  have given : volume buyer seller ≤ seller.remaining := Nat.min_le_right _ _
  refine ⟨covered_close (covered_paid buyerCovered buys taken pays cheap),
    covered_close (covered_delivered sellerCovered sells given), ?_⟩
  simp only [made, remaining_close]
  rw [remaining_settle taken buyerCovered.remaining, remaining_settle given sellerCovered.remaining,
    volume]
  omega

end Execute

/-- The record of a fill bears its number. -/
theorem execute_key [Build] {price : Decimal}
    (run : execute v seq maker price buyer seller = .ok f) :
    f.trade.id = .ofFill v.height seq ∧ f.trade.key = ⟨v.height, seq⟩ := by
  obtain ⟨money, -, -, -, -, rfl⟩ := execute_ok.1 run
  cases maker <;> exact ⟨rfl, rfl⟩

end Fill

end Bourse
