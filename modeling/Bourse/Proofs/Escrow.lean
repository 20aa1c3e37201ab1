import Bourse.Accounts.Escrow
import Bourse.Proofs.Accounts
import Bourse.Proofs.Action

/-!
# Escrow happens in full or not at all

* `allOrUndo_eq_change`: a list of changes, each with an inverse, is one change;
* `freezeAll_eq_change`, `releaseAll_eq_change`: so are the freeze and the release of several coins,
  on accounts whose amounts are words;
* `freezeAll_moves`: what a freeze moves;
* `releaseAll_of_freezeAll`: the release after a freeze restores the accounts.
-/

namespace Bourse

namespace Action

variable {σ α : Type}

/-- A list of changes that are each undone by `g` and keep `P`, under which `g` undoes them, is a
single change. -/
theorem allOrUndo_eq_change {P : σ → Prop} {f g : α → σ → Except Fault σ}
    (keeps : ∀ a s s', P s → f a s = .ok s' → P s')
    (inverse : ∀ a s s', P s → f a s = .ok s' → g a s' = .ok s) (l : List α) {s : σ} (start : P s) :
    allOrUndo (fun a => change (f a)) (fun a => change (g a)) [] l s =
      change (fun s => l.foldlM (fun s a => f a s) s) s := by
  -- Undoing what is done so far, the latest first, leads back to the state `s₀` of the start.
  suffices general : ∀ l done s₀ s, P s → (done.forM fun a => change (g a)) s = .ok () s₀ →
      allOrUndo (fun a => change (f a)) (fun a => change (g a)) done l s =
        change (fun _ => l.foldlM (fun s a => f a s) s) s₀ by
    exact general l [] s s start rfl
  intro l
  induction l with
  | nil => exact fun _ _ _ _ _ => rfl
  | cons a rest ih =>
      intro done s₀ s start undo
      rw [List.foldlM_cons]
      cases step : f a s with
      | error fault =>
          apply bind_error.2
          left
          exact orUndo_error.2 ⟨fault, s, change_error.2 ⟨step, rfl⟩, .inr ⟨undo, rfl⟩⟩
      | ok s' =>
          have undo' : ((a :: done).forM fun a => change (g a)) s' = .ok () s₀ :=
            bind_ok.2 ⟨(), s, change_ok.2 (inverse a s s' start step), undo⟩
          have first : ((change (f a)).orUndo (done.forM fun a => change (g a))) s = .ok () s' :=
            orUndo_ok.2 (change_ok.2 step)
          have next := ih (a :: done) s₀ s' (keeps a s s' start step) undo'
          simp only [allOrUndo, bind, EStateM.bind, first, Except.bind] at next ⊢
          exact next

end Action

section Adding

variable {c h : Coin} {rest held : List Coin}

theorem addHold_nil : addHold c [] = .ok held ↔ held = [c] := by
  simp [addHold, eq_comm]

/-- A coin goes to the first one of its denomination. -/
theorem addHold_cons : addHold c (h :: rest) = .ok held ↔
    h.denom = c.denom ∧ h.amount + c.amount < Word.size ∧
        held = { h with amount := h.amount + c.amount } :: rest ∨
      h.denom ≠ c.denom ∧ ∃ more, addHold c rest = .ok more ∧ held = h :: more := by
  rw [addHold]
  by_cases same : h.denom = c.denom
  · simp only [same, ↓reduceIte, ne_eq, not_true_eq_false, false_and, or_false, true_and]
    by_cases fits : h.amount + c.amount < Word.size
    · rw [Word.add?_eq_some_iff.2 ⟨fits, rfl⟩]
      simp [fits, eq_comm]
    · simp [Word.add?, fits]
  · rw [if_neg same, Check.bind_ok]
    simp only [Check.pure_ok, same, false_and, false_or, ne_eq, not_false_eq_true, true_and,
      eq_comm (a := held)]

end Adding

namespace Coin

/-- What the coins make up of a denomination. -/
def amountOf (coins : List Coin) (d : Denom) : Nat :=
  (coins.map fun c => if c.denom = d then c.amount else 0).sum

variable {coins held held' : List Coin} {c : Coin} {d : Denom}

@[simp] theorem amountOf_nil : amountOf [] d = 0 := rfl

@[simp] theorem amountOf_cons :
    amountOf (c :: coins) d = (if c.denom = d then c.amount else 0) + amountOf coins d := by
  simp [amountOf]

theorem amountOf_addHold (added : addHold c held = .ok held') :
    amountOf held' d = amountOf held d + if c.denom = d then c.amount else 0 := by
  induction held generalizing held' with
  | nil =>
      rw [addHold_nil.1 added, amountOf_cons, amountOf_nil, Nat.add_comm]
  | cons h rest ih =>
      obtain ⟨same, -, rfl⟩ | ⟨-, more, run, rfl⟩ := addHold_cons.1 added
      · simp only [amountOf_cons, same]
        split <;> omega
      · rw [amountOf_cons, amountOf_cons, ih run]
        omega

/-- Zero amounts make up nothing. -/
theorem amountOf_filter :
    amountOf (coins.filter fun c => !c.isZero) d = amountOf coins d := by
  induction coins with
  | nil => rfl
  | cons c rest ih =>
      by_cases zero : c.isZero
      · have nothing : c.amount = 0 := by simpa [isZero] using zero
        rw [List.filter_cons_of_neg (by simp [zero]), amountOf_cons, ih]
        simp [nothing]
      · rw [List.filter_cons_of_pos (by simp [zero]), amountOf_cons, amountOf_cons, ih]

theorem amountOf_mergeHolds (merged : mergeHolds coins = .ok held) :
    amountOf held d = amountOf coins d := by
  have general : ∀ l start, l.foldlM (fun held coin => addHold coin held) start = .ok held →
      amountOf held d = amountOf start d + amountOf l d := by
    intro l
    induction l with
    | nil =>
        intro start run
        rw [List.foldlM_nil, Check.pure_ok] at run
        simp [run]
    | cons c rest ih =>
        intro start run
        rw [List.foldlM_cons, Check.bind_ok] at run
        obtain ⟨next, added, run⟩ := run
        rw [ih next run, amountOf_addHold added, amountOf_cons]
        omega
  have sum := general _ [] merged
  rwa [amountOf_filter, amountOf_nil, Nat.zero_add] at sum

end Coin

namespace Accounts

variable {a a' b : Accounts} {owner : Address} {c : Coin} {coins holds : List Coin}

theorem set_restore {x : Address} {d : Denom} {h : Holding} (some : a.holding x d ≠ {}) :
    (a.set x d h).set x d (a.holding x d) = a := by
  refine ext_holding (fun p => ?_) fun y e => ?_
  · rw [mem_set, mem_set]
    exact ⟨fun h => h.elim (fun eq => eq ▸ mem_of_holding some)
      (·.elim (fun eq => eq ▸ mem_of_holding some) id), fun h => .inr (.inr h)⟩
  · rw [set_set, holding_set]
    split
    · next same => rw [same.1, same.2]
    · rfl

theorem unfreeze_of_freeze (range : a.InRange) (frozen : a.freeze owner c = .ok a') :
    a'.unfreeze owner c = .ok a := by
  obtain ⟨enough, ⟨zero, rfl⟩ | ⟨nonzero, fits, rfl⟩⟩ := freeze_ok.1 frozen
  · exact unfreeze_ok.2 ⟨by omega, .inl ⟨zero, rfl⟩⟩
  · have available := (range owner c.denom).1
    have some : a.holding owner c.denom ≠ {} := fun none => by simp [none] at enough; omega
    refine unfreeze_ok.2 ⟨by simp, .inr ⟨nonzero, by simp; omega, ?_⟩⟩
    rw [holding_set_self, Nat.sub_add_cancel enough, Nat.add_sub_cancel]
    exact (set_restore some).symm

theorem freeze_of_unfreeze (range : a.InRange) (released : a.unfreeze owner c = .ok a') :
    a'.freeze owner c = .ok a := by
  obtain ⟨enough, ⟨zero, rfl⟩ | ⟨nonzero, fits, rfl⟩⟩ := unfreeze_ok.1 released
  · exact freeze_ok.2 ⟨by omega, .inl ⟨zero, rfl⟩⟩
  · have frozen := (range owner c.denom).2
    have some : a.holding owner c.denom ≠ {} := fun none => by simp [none] at enough; omega
    refine freeze_ok.2 ⟨by simp, .inr ⟨nonzero, by simp; omega, ?_⟩⟩
    rw [holding_set_self, Nat.sub_add_cancel enough, Nat.add_sub_cancel]
    exact (set_restore some).symm

theorem freezeAll_eq_change (range : a.InRange) :
    freezeAll owner coins a = Action.change (fun a => do
      let holds ← mergeHolds coins
      a.checkSufficient owner holds
      holds.foldlM (fun a hold => a.freeze owner hold) a) a := by
  simp only [freezeAll, bind, EStateM.bind, Action.ask]
  cases merged : mergeHolds coins with
  | error fault => simp [Action.change, Except.bind]
  | ok holds =>
      cases sufficient : a.checkSufficient owner holds with
      | error fault => simp [Action.change, Except.bind, sufficient]
      | ok _ =>
          simp only [Action.change, Except.bind, sufficient]
          exact Action.allOrUndo_eq_change (f := fun hold a => a.freeze owner hold)
            (g := fun hold a => a.unfreeze owner hold) (fun _ _ _ => InRange.freeze)
            (fun _ _ _ => unfreeze_of_freeze) holds range

theorem releaseAll_eq_change (range : a.InRange) :
    releaseAll owner coins a = Action.change (fun a => do
      let holds ← mergeHolds coins
      holds.foldlM (fun a hold => a.unfreeze owner hold) a) a := by
  simp only [releaseAll, bind, EStateM.bind, Action.ask]
  cases merged : mergeHolds coins with
  | error fault => simp [Action.change, Except.bind]
  | ok holds =>
      simp only [Action.change, Except.bind]
      exact Action.allOrUndo_eq_change (f := fun hold a => a.unfreeze owner hold)
        (g := fun hold a => a.freeze owner hold) (fun _ _ _ => InRange.unfreeze)
        (fun _ _ _ => freeze_of_unfreeze) holds range

/-- `a'` is `a` with amounts of an owner moved from the available to the frozen funds. -/
structure Frozen (owner : Address) (amount : Denom → Nat) (a a' : Accounts) : Prop where
  available : ∀ x d, (a'.holding x d).available + (if owner = x then amount d else 0) =
    (a.holding x d).available
  frozen : ∀ x d, (a'.holding x d).frozen =
    (a.holding x d).frozen + if owner = x then amount d else 0
  entries : ∀ p, p ∈ a'.holdings ↔ p ∈ a.holdings
  supply : ∀ d, a'.supply d = a.supply d

section Frozen

variable {amount more : Denom → Nat}

theorem Frozen.refl (owner : Address) (a : Accounts) : Frozen owner (fun _ => 0) a a :=
  ⟨by simp, by simp, fun _ => .rfl, fun _ => rfl⟩

theorem Frozen.trans (first : Frozen owner amount a b) (second : Frozen owner more b a') :
    Frozen owner (fun d => amount d + more d) a a' where
  available x d := by
    have := first.available x d
    have := second.available x d
    by_cases own : owner = x
    · simp only [own, ↓reduceIte] at *
      omega
    · simp_all
  frozen x d := by
    have := first.frozen x d
    have := second.frozen x d
    by_cases own : owner = x
    · simp only [own, ↓reduceIte] at *
      omega
    · simp_all
  entries p := (second.entries p).trans (first.entries p)
  supply d := (second.supply d).trans (first.supply d)

/-- What was frozen says what it was frozen from. -/
theorem Frozen.source_unique (left : Frozen owner amount a b) (right : Frozen owner amount a' b) :
    a = a' := by
  apply ext_holding (fun p => (left.entries p).symm.trans (right.entries p))
  intro x d
  have available := (left.available x d).symm.trans (right.available x d)
  have frozen := (left.frozen x d).symm.trans (right.frozen x d)
  cases h : a.holding x d
  cases h' : a'.holding x d
  simp_all

theorem mem_set_of_some {x : Address} {d : Denom} {h : Holding} {p : Purse}
    (some : a.holding x d ≠ {}) : p ∈ (a.set x d h).holdings ↔ p ∈ a.holdings := by
  rw [mem_set]
  exact ⟨fun h => h.elim (fun eq => eq ▸ mem_of_holding some) id, .inr⟩

theorem frozen_of_freeze (run : a.freeze owner c = .ok a') :
    Frozen owner (fun d => if c.denom = d then c.amount else 0) a a' := by
  obtain ⟨enough, ⟨zero, rfl⟩ | ⟨nonzero, -, rfl⟩⟩ := freeze_ok.1 run
  · exact ⟨by simp [zero], by simp [zero], fun _ => .rfl, fun _ => rfl⟩
  · have some : a.holding owner c.denom ≠ {} := fun none => by simp [none] at enough; omega
    refine ⟨fun x d => ?_, fun x d => ?_, fun p => mem_set_of_some some, fun d => ?_⟩
    · rw [holding_set]
      grind
    · rw [holding_set]
      grind
    · have set := supply_set (a := a) (x := owner) (d := c.denom) (e := d)
        (h := ⟨(a.holding owner c.denom).available - c.amount,
          (a.holding owner c.denom).frozen + c.amount⟩)
      simp only [Holding.total] at set
      split at set <;> omega

theorem frozen_of_freezes (run : holds.foldlM (fun a hold => a.freeze owner hold) a = .ok a') :
    Frozen owner (Coin.amountOf holds) a a' := by
  induction holds generalizing a with
  | nil =>
      rw [List.foldlM_nil, Check.pure_ok] at run
      exact run ▸ .refl owner a
  | cons c rest ih =>
      rw [List.foldlM_cons, Check.bind_ok] at run
      obtain ⟨b, first, run⟩ := run
      have both := (frozen_of_freeze first).trans (ih run)
      simpa only [← Coin.amountOf_cons] using both

theorem frozen_of_unfreezes (range : a.InRange)
    (run : holds.foldlM (fun a hold => a.unfreeze owner hold) a = .ok a') :
    Frozen owner (Coin.amountOf holds) a' a := by
  induction holds generalizing a with
  | nil =>
      rw [List.foldlM_nil, Check.pure_ok] at run
      exact run ▸ .refl owner a
  | cons c rest ih =>
      rw [List.foldlM_cons, Check.bind_ok] at run
      obtain ⟨b, first, run⟩ := run
      have both := (ih (range.unfreeze first) run).trans
        (frozen_of_freeze (freeze_of_unfreeze range first))
      simpa only [Nat.add_comm, ← Coin.amountOf_cons] using both

/-- Coins that are frozen can be released while the available funds stay words. -/
theorem unfreezes_of_enough (range : a.InRange)
    (frozen : ∀ d, Coin.amountOf holds d ≤ (a.holding owner d).frozen)
    (fits : ∀ d, (a.holding owner d).available + Coin.amountOf holds d < Word.size) :
    ∃ a', holds.foldlM (fun a hold => a.unfreeze owner hold) a = .ok a' := by
  induction holds generalizing a with
  | nil => exact ⟨a, rfl⟩
  | cons c rest ih =>
      have enough : c.amount ≤ (a.holding owner c.denom).frozen := by
        have := frozen c.denom
        rw [Coin.amountOf_cons, if_pos rfl] at this
        omega
      have room : (a.holding owner c.denom).available + c.amount < Word.size := by
        have := fits c.denom
        rw [Coin.amountOf_cons, if_pos rfl] at this
        omega
      obtain ⟨b, first⟩ : ∃ b, a.unfreeze owner c = .ok b := by
        by_cases zero : c.amount = 0
        · exact ⟨a, unfreeze_ok.2 ⟨enough, .inl ⟨zero, rfl⟩⟩⟩
        · exact ⟨_, unfreeze_ok.2 ⟨enough, .inr ⟨zero, room, rfl⟩⟩⟩
      have moved := frozen_of_freeze (freeze_of_unfreeze range first)
      obtain ⟨a', run⟩ := ih (range.unfreeze first)
        (fun d => by
          have := frozen d
          have := moved.frozen owner d
          simp only [Coin.amountOf_cons, ↓reduceIte] at *
          omega)
        (fun d => by
          have := fits d
          have := moved.available owner d
          simp only [Coin.amountOf_cons, ↓reduceIte] at *
          omega)
      exact ⟨a', by rw [List.foldlM_cons, Check.bind_ok]; exact ⟨b, first, run⟩⟩

end Frozen

theorem InRange.freezes (range : a.InRange)
    (run : holds.foldlM (fun a hold => a.freeze owner hold) a = .ok a') : a'.InRange :=
  Check.foldlM_keeps (fun _ _ _ _ => InRange.freeze) range run

/-- A freeze that succeeds moves what its coins make up of each denomination. -/
theorem freezeAll_ok (range : a.InRange) (run : freezeAll owner coins a = .ok () a') :
    Frozen owner (Coin.amountOf coins) a a' ∧ a'.InRange := by
  rw [freezeAll_eq_change range, Action.change_ok, Check.bind_ok] at run
  obtain ⟨holds, merged, run⟩ := run
  obtain ⟨_, -, run⟩ := Check.bind_ok.1 run
  have moved := frozen_of_freezes run
  rw [show Coin.amountOf holds = Coin.amountOf coins from
    funext fun d => Coin.amountOf_mergeHolds merged] at moved
  exact ⟨moved, range.freezes run⟩

theorem freezeAll_error {fault : Fault} (range : a.InRange)
    (run : freezeAll owner coins a = .error fault a') : a' = a := by
  rw [freezeAll_eq_change range] at run
  exact (Action.change_error.1 run).2.symm

/-- The release after a freeze of the same coins restores the accounts. -/
theorem releaseAll_of_freezeAll (range : a.InRange) (run : freezeAll owner coins a = .ok () a') :
    releaseAll owner coins a' = .ok () a := by
  obtain ⟨moved, range'⟩ := freezeAll_ok range run
  rw [freezeAll_eq_change range, Action.change_ok, Check.bind_ok] at run
  obtain ⟨holds, merged, -⟩ := run
  have amount : ∀ d, Coin.amountOf holds d = Coin.amountOf coins d :=
    fun d => Coin.amountOf_mergeHolds merged
  obtain ⟨b, released⟩ : ∃ b, holds.foldlM (fun a hold => a.unfreeze owner hold) a' = .ok b := by
    refine unfreezes_of_enough range' (fun d => ?_) fun d => ?_
    · have := moved.frozen owner d
      simp only [amount, ↓reduceIte] at *
      omega
    · have := moved.available owner d
      have := (range owner d).1
      simp only [amount, ↓reduceIte] at *
      omega
  have restored := frozen_of_unfreezes range' released
  rw [show Coin.amountOf holds = Coin.amountOf coins from funext amount] at restored
  rw [releaseAll_eq_change range', Action.change_ok, Check.bind_ok]
  exact ⟨holds, merged, restored.source_unique moved ▸ released⟩

end Accounts

end Bourse
