import Bourse.Proofs.Limits

/-!
# A frozen fee is charged pro rata, and in full

* `Fee.charges`: what fills are charged, each its share of what those before it left;
* `Fee.share_left_le`, `Fee.left_lt_share`: a share is taken at no more than the rate at which the
  rest of the fee is left, and less than one below it;
* `Fee.sum_charges_bounds`: hence many charges together are no more than the share of all the fills
  at once, and less than one a fill below it;
* `Fee.sum_charges_of_full`: the fills of a whole order take the whole fee;
* `Fill.Run.charged`, `Fill.Run.pays_pro_rata`: an order pays these charges, whatever orders it is
  filled against.
-/

namespace Bourse

namespace Fee

variable {frozen remaining quantity : ℕ} {fills : List ℕ}

/-- What each fill is charged of the fee that those before it left, for its part of what they left
of the quantity. -/
def charges : ℕ → ℕ → List ℕ → List ℕ
  | _, _, [] => []
  | frozen, remaining, quantity :: fills =>
      share frozen quantity remaining ::
        charges (frozen - share frozen quantity remaining) (remaining - quantity) fills

theorem share_of_full (full : remaining ≤ quantity) : share frozen quantity remaining = frozen := by
  rw [share, if_pos (.inr full)]

/-- A share is taken at no higher rate than the rest is left at. -/
theorem share_left_le (frozen remaining quantity : ℕ) :
    share frozen quantity remaining * (remaining - quantity) ≤
      (frozen - share frozen quantity remaining) * quantity := by
  obtain full | part := le_or_gt remaining quantity
  · rw [Nat.sub_eq_zero_of_le full, Nat.mul_zero]
    exact Nat.zero_le _
  · have floor : share frozen quantity remaining * remaining ≤ frozen * quantity := by
      rw [share, if_neg (by omega)]
      exact Nat.div_mul_le_self _ _
    rw [Nat.mul_sub, Nat.sub_mul]
    exact Nat.sub_le_sub_right floor _

/-- Nor is it a whole unit short of that rate. -/
theorem left_lt_share (frozen : ℕ) (pos : 0 < remaining) (within : quantity ≤ remaining) :
    (frozen - share frozen quantity remaining) * quantity <
      share frozen quantity remaining * (remaining - quantity) + remaining := by
  obtain full | part := le_or_gt remaining quantity
  · rw [share_of_full full, Nat.sub_self, Nat.zero_mul]
    exact Nat.add_pos_right _ pos
  · have floor : frozen * quantity <
        share frozen quantity remaining * remaining + remaining := by
      rw [share, if_neg (by omega), Nat.mul_comm _ remaining]
      exact Nat.lt_mul_div_succ _ pos
    have least : share frozen quantity remaining * quantity ≤
        share frozen quantity remaining * remaining := Nat.mul_le_mul_left _ within
    rw [Nat.mul_sub, Nat.sub_mul]
    omega

theorem sum_charges_le (frozen remaining : ℕ) (fills : List ℕ) :
    (charges frozen remaining fills).sum ≤ frozen := by
  induction fills generalizing frozen remaining with
  | nil => exact Nat.zero_le _
  | cons quantity fills ih =>
      have first : share frozen quantity remaining ≤ frozen := share_le
      have later := ih (frozen - share frozen quantity remaining) (remaining - quantity)
      rw [charges, List.sum_cons]
      omega

theorem charge_le_left {before after : List ℕ} {charge : ℕ}
    (split : charges frozen remaining fills = before ++ charge :: after) :
    before.sum + charge ≤ frozen := by
  have most := sum_charges_le frozen remaining fills
  rw [split, List.sum_append, List.sum_cons] at most
  omega

/-- Taking a share at no more than the rate of the rest, and of the rest no more than the share of
its fills, takes no more than the share of all. -/
theorem sum_charges_mul_le (within : fills.sum ≤ remaining) :
    (charges frozen remaining fills).sum * remaining ≤ frozen * fills.sum := by
  induction fills generalizing frozen remaining with
  | nil => simp [charges]
  | cons quantity fills ih =>
      rw [List.sum_cons] at within
      have rate := share_left_le frozen remaining quantity
      have least : share frozen quantity remaining ≤ frozen := share_le
      rw [charges, List.sum_cons, List.sum_cons]
      generalize share frozen quantity remaining = charge at rate least
      obtain ⟨left, rfl⟩ := Nat.exists_eq_add_of_le least
      obtain ⟨rest, rfl⟩ := Nat.exists_eq_add_of_le (by omega : quantity ≤ remaining)
      simp only [Nat.add_sub_cancel_left] at rate ⊢
      have later : (charges left rest fills).sum * rest ≤ left * fills.sum := ih (by omega)
      have most := sum_charges_le left rest fills
      generalize (charges left rest fills).sum = charged at later most
      obtain rfl | pos := Nat.eq_zero_or_pos rest
      · have none : fills.sum = 0 := by omega
        rw [none]
        exact Nat.mul_le_mul_right _ (Nat.add_le_add_left most charge)
      · obtain ⟨unfilled, rfl⟩ := Nat.exists_eq_add_of_le (by omega : fills.sum ≤ rest)
        generalize fills.sum = filled at *
        -- Both bounds are about products; times the rest, they differ by the rate of the unfilled.
        refine Nat.le_of_mul_le_mul_right ?_ pos
        linarith [Nat.mul_le_mul_right unfilled rate, Nat.mul_le_mul_right quantity later,
          Nat.mul_le_mul_right (filled + unfilled) later]

/-- Each charge is less than one below its share. -/
theorem mul_sum_add_length_le (frozen : ℕ) (within : fills.sum ≤ remaining) (pos : 0 < remaining) :
    frozen * fills.sum + fills.length ≤
      ((charges frozen remaining fills).sum + fills.length) * remaining := by
  induction fills generalizing frozen remaining with
  | nil => simp [charges]
  | cons quantity fills ih =>
      rw [List.sum_cons] at within
      have rate := share_left_le frozen remaining quantity
      have short := left_lt_share frozen pos (by omega : quantity ≤ remaining)
      have least : share frozen quantity remaining ≤ frozen := share_le
      rw [charges, List.sum_cons, List.sum_cons, List.length_cons]
      generalize share frozen quantity remaining = charge at rate least short
      obtain ⟨left, rfl⟩ := Nat.exists_eq_add_of_le least
      obtain ⟨rest, rfl⟩ := Nat.exists_eq_add_of_le (by omega : quantity ≤ remaining)
      simp only [Nat.add_sub_cancel_left] at rate short ⊢
      obtain rfl | some := Nat.eq_zero_or_pos rest
      · have none : fills.sum = 0 := by omega
        simp only [none, Nat.mul_zero, Nat.zero_add, Nat.add_zero, Nat.add_mul] at pos short ⊢
        have each := Nat.le_mul_of_pos_right fills.length pos
        omega
      · have later : left * fills.sum + fills.length ≤
            ((charges left rest fills).sum + fills.length) * rest := ih left (by omega) some
        generalize (charges left rest fills).sum = charged at later ⊢
        have cross : charge * fills.sum ≤ (charged + fills.length) * quantity := by
          refine Nat.le_of_mul_le_mul_right ?_ some
          linarith [Nat.mul_le_mul_right fills.sum rate, Nat.mul_le_mul_right quantity later,
            Nat.zero_le (fills.length * quantity)]
        linarith

/-- The fills of a whole order take the whole fee. -/
theorem sum_charges_of_full (some : fills ≠ []) (full : fills.sum = remaining) :
    (charges frozen remaining fills).sum = frozen := by
  induction fills generalizing frozen remaining with
  | nil => exact absurd rfl some
  | cons quantity fills ih =>
      have least : share frozen quantity remaining ≤ frozen := share_le
      rw [List.sum_cons] at full
      rw [charges, List.sum_cons]
      obtain last | part := le_or_gt remaining quantity
      · have later := sum_charges_le (frozen - share frozen quantity remaining)
          (remaining - quantity) fills
        rw [share_of_full last] at later ⊢
        omega
      · have more : fills ≠ [] := by
          rintro rfl
          rw [List.sum_nil] at full
          omega
        rw [ih more (by omega)]
        omega

theorem sum_charges_bounds (frozen : ℕ) (pos : 0 < remaining) (some : fills ≠ [])
    (within : fills.sum ≤ remaining) :
    (charges frozen remaining fills).sum ≤ frozen * fills.sum / remaining ∧
      frozen * fills.sum / remaining < (charges frozen remaining fills).sum + fills.length := by
  constructor
  · rw [Nat.le_div_iff_mul_le pos]
    exact sum_charges_mul_le within
  · have most := mul_sum_add_length_le frozen within pos
    have fill := List.length_pos_of_ne_nil some
    rw [Nat.div_lt_iff_lt_mul pos]
    omega

/-- However an order is split into fills, none is charged more than is left of the fee, together
they are charged its part for all of them, rounded down, or less than one a fill below it, and the
whole fee once the order is filled. -/
theorem charged_pro_rata (frozen : ℕ) (pos : 0 < remaining) (some : fills ≠ [])
    (within : fills.sum ≤ remaining) :
    (∀ before charge after, charges frozen remaining fills = before ++ charge :: after →
      before.sum + charge ≤ frozen) ∧
    (charges frozen remaining fills).sum ≤ frozen * fills.sum / remaining ∧
    frozen * fills.sum / remaining < (charges frozen remaining fills).sum + fills.length ∧
    (fills.sum = remaining → (charges frozen remaining fills).sum = frozen) := by
  obtain ⟨most, least⟩ := sum_charges_bounds frozen pos some within
  exact ⟨fun _ _ _ => charge_le_left, most, least, sum_charges_of_full some⟩

/-- Three fills are charged 3, one less than their part of 4, and the fourth takes the rest. -/
theorem split_charged_pro_rata :
    (charges 10 7 [1, 1, 1]).sum ≤ 10 * 3 / 7 ∧ 10 * 3 / 7 < (charges 10 7 [1, 1, 1]).sum + 3 ∧
      (charges 10 7 [1, 1, 1]).sum = 3 ∧ (charges 10 7 [1, 1, 1, 4]).sum = 10 := by
  have pos : 0 < 7 := by decide
  have part := charged_pro_rata 10 pos (by decide) (by decide : [1, 1, 1].sum ≤ 7)
  have full := charged_pro_rata 10 pos (by decide) (by decide : [1, 1, 1, 4].sum ≤ 7)
  exact ⟨part.2.1, part.2.2.1, by decide, full.2.2.2 (by decide)⟩

end Fee

namespace Fill

variable {o : Order} {f : Fill} {fills : List Fill} {quantity : ℕ}

/-- The order is one of the two that the fill is between. -/
def Between [Build] (f : Fill) (o : Order) : Prop :=
  ∃ v seq maker price buyer seller, buyer.side = .buy ∧ seller.side = .sell ∧
    execute v seq maker price buyer seller = .ok f ∧ (o = buyer ∨ o = seller)

/-- An order goes through fills one after the other. -/
inductive Run [Build] : Order → List Fill → Prop
  | nil (o : Order) : Run o []
  | fill {o : Order} {f : Fill} {fills : List Fill} (between : f.Between o)
      (later : Run (f.party o.side) fills) : Run o (f :: fills)

/-- A fill takes its quantity from an order, and from the fee of the order its share. -/
structure Pays (f : Fill) (o : Order) : Prop where
  side : (f.party o.side).side = o.side
  within : f.trade.quantity ≤ o.remaining
  left : (f.party o.side).remaining = o.remaining - f.trade.quantity
  fee : f.trade.feeOf o.side = Fee.share o.frozenFee f.trade.quantity o.remaining
  rest : (f.party o.side).frozenFee = o.frozenFee - f.trade.feeOf o.side

theorem fee_paid {o' : Order} {principal money : ℕ}
    (paid : o' = close (settle o principal (Fee.share o.frozenFee quantity o.remaining) quantity
      money)) (within : quantity ≤ o.remaining) (word : o.remaining < Word.size) :
    o'.remaining = o.remaining - quantity ∧
      o'.frozenFee = o.frozenFee - Fee.share o.frozenFee quantity o.remaining := by
  have left : o'.remaining = o.remaining - quantity := by
    rw [paid]
    exact remaining_close.trans (remaining_settle within word)
  have taken : o'.remaining + quantity = o.remaining := by omega
  rw [paid] at taken
  have spent := fee_close_settle taken
  rw [← paid] at spent
  exact ⟨left, by omega⟩

theorem Between.pays [Build] (between : f.Between o) (word : o.remaining < Word.size) :
    f.Pays o := by
  obtain ⟨v, seq, maker, price, buyer, seller, buys, sells, run, own⟩ := between
  obtain ⟨buyerTerms, sellerTerms⟩ := execute_terms run
  obtain ⟨money, -, -, -, -, same⟩ := execute_ok.1 run
  obtain ⟨-, moved, bought, sold⟩ := made_amounts buys sells v seq maker price money
  rw [← same] at moved bought sold
  have paid : f.buyer = close (settle buyer money (buyerFee buyer seller) (volume buyer seller)
      money) := congrArg Fill.buyer same
  have given : f.seller = close (settle seller (volume buyer seller) (sellerFee buyer seller)
      (volume buyer seller) money) := congrArg Fill.seller same
  rw [buyerFee] at bought paid
  rw [sellerFee] at sold given
  rw [← moved] at bought paid sold given
  obtain rfl | rfl := own
  · have within : f.trade.quantity ≤ o.remaining := moved.trans_le (Nat.min_le_left _ _)
    obtain ⟨left, rest⟩ := fee_paid paid within word
    refine ⟨?_, within, ?_, ?_, ?_⟩ <;> rw [buys]
    · exact (Order.side_of_terms buyerTerms).trans buys
    · exact left
    · exact bought
    · rw [Trade.feeOf, bought]
      exact rest
  · have within : f.trade.quantity ≤ o.remaining := moved.trans_le (Nat.min_le_right _ _)
    obtain ⟨left, rest⟩ := fee_paid given within word
    refine ⟨?_, within, ?_, ?_, ?_⟩ <;> rw [sells]
    · exact (Order.side_of_terms sellerTerms).trans sells
    · exact left
    · exact sold
    · rw [Trade.feeOf, sold]
      exact rest

/-- The fees of an order that goes through fills are the charges for their quantities. -/
theorem Run.charged [Build] (run : Run o fills) (word : o.remaining < Word.size) :
    (fills.map (·.trade.quantity)).sum ≤ o.remaining ∧ fills.map (·.trade.feeOf o.side) =
      Fee.charges o.frozenFee o.remaining (fills.map (·.trade.quantity)) := by
  induction run with
  | nil o => exact ⟨Nat.zero_le _, rfl⟩
  | @fill o f fills between later ih =>
      have pays := between.pays word
      have within := pays.within
      obtain ⟨less, fees⟩ := ih (by rw [pays.left]; omega)
      rw [pays.left] at less
      rw [pays.side, pays.rest, pays.left, pays.fee] at fees
      rw [List.map_cons, List.map_cons, List.sum_cons, Fee.charges, fees, pays.fee]
      exact ⟨by omega, rfl⟩

/-- Whatever fills an order goes through, it has paid its part of the fee but for less than one a
fill, and the whole fee once it is filled. -/
theorem Run.pays_pro_rata [Build] (run : Run o fills) (word : o.remaining < Word.size)
    (unfilled : 0 < o.remaining) (some : fills ≠ []) :
    (fills.map (·.trade.feeOf o.side)).sum ≤
        o.frozenFee * (fills.map (·.trade.quantity)).sum / o.remaining ∧
      o.frozenFee * (fills.map (·.trade.quantity)).sum / o.remaining <
        (fills.map (·.trade.feeOf o.side)).sum + fills.length ∧
      ((fills.map (·.trade.quantity)).sum = o.remaining →
        (fills.map (·.trade.feeOf o.side)).sum = o.frozenFee) := by
  obtain ⟨within, fees⟩ := run.charged word
  have some' : fills.map (·.trade.quantity) ≠ [] := by simpa using some
  obtain ⟨most, least⟩ := Fee.sum_charges_bounds o.frozenFee unfilled some' within
  rw [List.length_map] at least
  rw [fees]
  exact ⟨most, least, Fee.sum_charges_of_full some'⟩

end Fill

end Bourse
