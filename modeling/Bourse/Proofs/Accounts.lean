import Bourse.Accounts.Basic
import Bourse.Proofs.Maps

/-!
# What the operations on accounts do

* every operation is a change of one or two holdings (`freeze_ok`, `unfreeze_ok`, `send_ok`), and
  `holding_set` and `supply_set` say what such a change does;
* an amount never leaves the range of a word (`InRange`);
* the supply of a denomination bounds what an account holds of it (`total_le_supply`).
-/

namespace Bourse

namespace Accounts

variable {a a' : Accounts} {x y z : Address} {d e : Denom} {c : Coin} {h : Holding}

theorem purse_eq : (⟨x, d⟩ : Purse) = ⟨y, e⟩ ↔ x = y ∧ d = e := by simp

theorem holding_eq (a : Accounts) (x : Address) (d : Denom) :
    a.holding x d = (a.holdings[(⟨x, d⟩ : Purse)]?).getD {} := by
  simp [holding, Std.ExtTreeMap.getD_eq_getD_getElem?]

theorem holding_set : (a.set x d h).holding y e = if x = y ∧ d = e then h else a.holding y e := by
  rw [holding_eq, holding_eq, set, Maps.getElem?_insert]
  simp only [purse_eq]
  split <;> rfl

@[simp] theorem holding_set_self : (a.set x d h).holding x d = h := by simp [holding_set]

@[simp] theorem set_set {k : Holding} : (a.set x d h).set x d k = a.set x d k := by
  simp only [set, mk.injEq]
  apply Std.ExtTreeMap.ext_getElem?
  intro p
  simp only [Maps.getElem?_insert]
  split <;> rfl

/-- An account that holds something has an entry. -/
theorem mem_of_holding (some : a.holding x d ≠ {}) : (⟨x, d⟩ : Purse) ∈ a.holdings := by
  by_contra absent
  rw [holding_eq, Std.ExtTreeMap.getElem?_eq_none absent] at some
  exact some rfl

theorem mem_set {p : Purse} : p ∈ (a.set x d h).holdings ↔ ⟨x, d⟩ = p ∨ p ∈ a.holdings := by
  simp [set, Std.ExtTreeMap.mem_insert, Std.LawfulEqCmp.compare_eq_iff_eq]

theorem ext_holding (entries : ∀ p, p ∈ a.holdings ↔ p ∈ a'.holdings)
    (same : ∀ x d, a.holding x d = a'.holding x d) : a = a' := by
  suffices a.holdings = a'.holdings by cases a; cases a'; simp_all
  apply Std.ExtTreeMap.ext_getElem?
  intro p
  have eq := same p.owner p.denom
  rw [holding_eq, holding_eq] at eq
  have entry := entries p
  rw [Std.ExtTreeMap.mem_iff_isSome_getElem?, Std.ExtTreeMap.mem_iff_isSome_getElem?] at entry
  cases left : a.holdings[p]? <;> cases right : a'.holdings[p]? <;> simp_all

section Supply

theorem sum_filter_map {α : Type} (p : α → Bool) (f : α → Nat) (l : List α) :
    ((l.filter p).map f).sum = (l.map fun x => if p x then f x else 0).sum := by
  induction l with
  | nil => rfl
  | cons x rest ih => by_cases h : p x <;> simp [h, ih]

theorem sumOf_eq (f : Holding → Nat) (a : Accounts) (d : Denom) :
    a.sumOf f d = (a.holdings.toList.map fun e => if e.1.denom = d then f e.2 else 0).sum := by
  rw [sumOf, sum_filter_map]
  simp

theorem supply_set : (a.set x d h).supply e + (if d = e then (a.holding x d).total else 0) =
    a.supply e + if d = e then h.total else 0 := by
  have := Maps.sum_insert (fun p : Purse × Holding => if p.1.denom = e then p.2.total else 0)
    a.holdings ⟨x, d⟩ h
  simp only [supply, sumOf_eq, set, holding_eq]
  rw [← this]
  cases a.holdings[(⟨x, d⟩ : Purse)]? <;> simp [Holding.total]

theorem supply_set_le (a : Accounts) (x : Address) (d e : Denom) (h : Holding) :
    (a.set x d h).supply e ≤ a.supply e + if d = e then h.total else 0 :=
  supply_set ▸ Nat.le_add_right _ _

theorem total_le_supply : (a.holding x d).total ≤ a.supply d := by
  rw [holding_eq, supply, sumOf_eq]
  cases found : a.holdings[(⟨x, d⟩ : Purse)]? with
  | none => simp [Holding.total]
  | some h =>
      have := Maps.le_sum (fun p : Purse × Holding => if p.1.denom = d then p.2.total else 0)
        a.holdings ⟨x, d⟩ found
      simpa using this

end Supply

/-- Every amount is a word. -/
def InRange (a : Accounts) : Prop :=
  ∀ x d, (a.holding x d).available < Word.size ∧ (a.holding x d).frozen < Word.size

theorem inRange_empty : InRange {} := by
  intro x d
  simp [holding_eq, Word.size]

theorem InRange.set (range : a.InRange) (available : h.available < Word.size)
    (frozen : h.frozen < Word.size) : (a.set x d h).InRange := by
  intro y e
  rw [holding_set]
  split
  · exact ⟨available, frozen⟩
  · exact range y e

section Operations

theorem deposit_ok : a.deposit x c = .ok a' ↔
    (a.holding x c.denom).available + c.amount < Word.size ∧
      a' = a.set x c.denom
        { a.holding x c.denom with available := (a.holding x c.denom).available + c.amount } := by
  simp only [deposit, Word.add?]
  by_cases fits : (a.holding x c.denom).available + c.amount < Word.size <;>
    simp [fits, eq_comm]

theorem freeze_ok : a.freeze x c = .ok a' ↔
    c.amount ≤ (a.holding x c.denom).available ∧
      (c.amount = 0 ∧ a' = a ∨
        c.amount ≠ 0 ∧ (a.holding x c.denom).frozen + c.amount < Word.size ∧
          a' = a.set x c.denom ⟨(a.holding x c.denom).available - c.amount,
            (a.holding x c.denom).frozen + c.amount⟩) := by
  simp only [freeze, Word.add?, Coin.isZero, beq_iff_eq]
  by_cases short : (a.holding x c.denom).available < c.amount
  · simp [short, Nat.not_le.2 short]
  · by_cases zero : c.amount = 0
    · simp [zero, eq_comm]
    · by_cases fits : (a.holding x c.denom).frozen + c.amount < Word.size <;>
        simp [short, Nat.not_lt.1 short, zero, fits, eq_comm]

theorem unfreeze_ok : a.unfreeze x c = .ok a' ↔
    c.amount ≤ (a.holding x c.denom).frozen ∧
      (c.amount = 0 ∧ a' = a ∨
        c.amount ≠ 0 ∧ (a.holding x c.denom).available + c.amount < Word.size ∧
          a' = a.set x c.denom ⟨(a.holding x c.denom).available + c.amount,
            (a.holding x c.denom).frozen - c.amount⟩) := by
  simp only [unfreeze, Word.add?, Coin.isZero, beq_iff_eq]
  by_cases short : (a.holding x c.denom).frozen < c.amount
  · simp [short, Nat.not_le.2 short]
  · by_cases zero : c.amount = 0
    · simp [zero, eq_comm]
    · by_cases fits : (a.holding x c.denom).available + c.amount < Word.size <;>
        simp [short, Nat.not_lt.1 short, zero, fits, eq_comm]

theorem transferFrozen_ok (nonzero : c.amount ≠ 0) : a.transferFrozen x y c = .ok a' ↔
    c.amount ≤ (a.holding x c.denom).frozen ∧
      (a.holding y c.denom).available + c.amount < Word.size ∧
      (a.set x c.denom { a.holding x c.denom with
        frozen := (a.holding x c.denom).frozen - c.amount }).deposit y c = .ok a' := by
  simp only [transferFrozen, Coin.isZero, beq_iff_eq, nonzero, ↓reduceIte]
  by_cases short : (a.holding x c.denom).frozen < c.amount
  · simp [short, Nat.not_le.2 short]
  · by_cases wide : Word.size ≤ (a.holding y c.denom).available + c.amount
    · simp [short, wide, Nat.not_lt.2 wide]
    · simp [short, wide, Nat.not_lt.1 short, Nat.not_le.1 wide]

theorem send_ok : a.send x y c = .ok a' ↔
    c.amount ≤ (a.holding x c.denom).available ∧
      ((c.amount = 0 ∨ x = y) ∧ a' = a ∨
        c.amount ≠ 0 ∧ x ≠ y ∧ (a.holding y c.denom).available + c.amount < Word.size ∧
          a' = (a.set x c.denom { a.holding x c.denom with
              available := (a.holding x c.denom).available - c.amount }).set y c.denom
            { a.holding y c.denom with
              available := (a.holding y c.denom).available + c.amount }) := by
  simp only [send, Coin.isZero, beq_iff_eq]
  by_cases short : (a.holding x c.denom).available < c.amount
  · simp [short, Nat.not_le.2 short]
  · have enough := Nat.not_lt.1 short
    by_cases still : c.amount = 0 ∨ x = y
    · simp only [short, still, enough, ↓reduceIte, true_and]
      rw [Except.ok.injEq, eq_comm]
      refine ⟨.inl, fun moved => moved.elim id fun ⟨nonzero, apart, _⟩ => ?_⟩
      exact absurd still (not_or.2 ⟨nonzero, apart⟩)
    · obtain ⟨nonzero, apart⟩ := not_or.1 still
      have credited : ∀ h, ((a.set x c.denom h).holding y c.denom) = a.holding y c.denom := by
        simp [holding_set, apart]
      by_cases wide : Word.size ≤ (a.holding y c.denom).available + c.amount
      · simp [short, nonzero, apart, wide, Nat.not_lt.2 wide]
      · simp only [short, nonzero, apart, wide, or_self, ↓reduceIte, deposit_ok, credited]
        simp [enough, nonzero, apart, Nat.not_le.1 wide]

/-- The amount moved from the available funds of `source` to those of `target`; both may be one
account. -/
structure Sent (source target : Address) (coin : Coin) (a a' : Accounts) : Prop where
  available : ∀ x d,
    (a'.holding x d).available + (if source = x ∧ coin.denom = d then coin.amount else 0) =
      (a.holding x d).available + if target = x ∧ coin.denom = d then coin.amount else 0
  frozen : ∀ x d, (a'.holding x d).frozen = (a.holding x d).frozen

theorem sent_of_send (run : a.send x y c = .ok a') : Sent x y c a a' := by
  obtain ⟨enough, ⟨still, rfl⟩ | ⟨-, apart, -, rfl⟩⟩ := send_ok.1 run
  · refine ⟨fun z d => ?_, fun _ _ => rfl⟩
    obtain zero | rfl := still
    · simp [zero]
    · rfl
  · constructor
    · intro z d
      simp only [holding_set]
      grind
    · intro z d
      simp only [holding_set]
      grind

end Operations

section Range

theorem InRange.deposit (range : a.InRange) (run : a.deposit x c = .ok a') : a'.InRange := by
  obtain ⟨fits, rfl⟩ := deposit_ok.1 run
  exact range.set fits (range x c.denom).2

theorem InRange.freeze (range : a.InRange) (run : a.freeze x c = .ok a') : a'.InRange := by
  obtain ⟨_, ⟨_, rfl⟩ | ⟨_, fits, rfl⟩⟩ := freeze_ok.1 run
  · exact range
  · exact range.set (Nat.lt_of_le_of_lt (Nat.sub_le _ _) (range x c.denom).1) fits

theorem InRange.unfreeze (range : a.InRange) (run : a.unfreeze x c = .ok a') : a'.InRange := by
  obtain ⟨_, ⟨_, rfl⟩ | ⟨_, fits, rfl⟩⟩ := unfreeze_ok.1 run
  · exact range
  · exact range.set fits (Nat.lt_of_le_of_lt (Nat.sub_le _ _) (range x c.denom).2)

theorem InRange.send (range : a.InRange) (run : a.send x y c = .ok a') : a'.InRange := by
  obtain ⟨_, ⟨_, rfl⟩ | ⟨_, _, fits, rfl⟩⟩ := send_ok.1 run
  · exact range
  · refine InRange.set (InRange.set range ?_ (range x c.denom).2) fits (range y c.denom).2
    exact Nat.lt_of_le_of_lt (Nat.sub_le _ _) (range x c.denom).1

end Range

end Accounts

end Bourse
