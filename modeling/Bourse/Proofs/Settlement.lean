import Bourse.Settlement.Clearing
import Bourse.Proofs.Accounts
import Bourse.Proofs.Action

/-!
# Settlement is one change

* `applyEffect_iff_rehearse`: an effect that moves something is applied exactly when its rehearsal
  accepts it, and with the same result;
* `rehearsal_moves`: the accounts after a batch, by what its effects debit and credit;
* `settle_eq_change`: hence a batch that passed the rehearsal cannot fail any more, and settlement
  is one change that happens in full or leaves everything as it was.
-/

namespace Bourse

namespace Effect

/-- What an effect takes from the frozen funds of an account. -/
def debit (e : Effect) (x : Address) (d : Denom) : Nat :=
  if e.debited = x ∧ e.coin.denom = d then e.coin.amount else 0

/-- What an effect adds to the available funds of an account. -/
def credit (e : Effect) (x : Address) (d : Denom) : Nat :=
  if e.credited = x ∧ e.coin.denom = d then e.coin.amount else 0

def debits (effects : List Effect) (x : Address) (d : Denom) : Nat :=
  (effects.map fun e => e.debit x d).sum

def credits (effects : List Effect) (x : Address) (d : Denom) : Nat :=
  (effects.map fun e => e.credit x d).sum

variable (x : Address) (d : Denom) (e : Effect) (effects more : List Effect)

@[simp] theorem debits_nil : debits [] x d = 0 := rfl

@[simp] theorem credits_nil : credits [] x d = 0 := rfl

@[simp] theorem debits_cons : debits (e :: effects) x d = e.debit x d + debits effects x d := by
  simp [debits]

@[simp] theorem credits_cons : credits (e :: effects) x d = e.credit x d + credits effects x d := by
  simp [credits]

@[simp] theorem debits_append :
    debits (effects ++ more) x d = debits effects x d + debits more x d := by
  simp [debits]

@[simp] theorem credits_append :
    credits (effects ++ more) x d = credits effects x d + credits more x d := by
  simp [credits]

theorem debit_of_noop {e : Effect} (noop : e.isNoop = true) : e.debit x d = 0 := by
  simp_all [isNoop, Coin.isZero, debit]

theorem credit_of_noop {e : Effect} (noop : e.isNoop = true) : e.credit x d = 0 := by
  simp_all [isNoop, Coin.isZero, credit]

@[simp] theorem debits_moving : debits (moving effects) x d = debits effects x d := by
  induction effects with
  | nil => rfl
  | cons e rest ih =>
      simp only [moving, List.filter_cons] at ih ⊢
      split
      · simp [ih]
      · next noop => simp [ih, debit_of_noop x d (by simpa using noop)]

@[simp] theorem credits_moving : credits (moving effects) x d = credits effects x d := by
  induction effects with
  | nil => rfl
  | cons e rest ih =>
      simp only [moving, List.filter_cons] at ih ⊢
      split
      · simp [ih]
      · next noop => simp [ih, credit_of_noop x d (by simpa using noop)]

end Effect

namespace Accounts

variable {a a' : Accounts} {e : Effect} {effects : List Effect}

/-- The accounts once an effect has moved. -/
def after (a : Accounts) (e : Effect) : Accounts :=
  let source := a.holding e.debited e.coin.denom
  let debited := a.set e.debited e.coin.denom
    { source with frozen := source.frozen - e.coin.amount }
  let target := debited.holding e.credited e.coin.denom
  debited.set e.credited e.coin.denom
    { target with available := target.available + e.coin.amount }

theorem available_debited {x y : Address} {d : Denom} {n : Nat} :
    ((a.set x d { a.holding x d with frozen := n }).holding y d).available =
      (a.holding y d).available := by
  rw [holding_set]
  split
  · next h => rw [h.1]
  · rfl

theorem rehearse_ok : a.rehearse e = .ok a' ↔
    e.coin.amount ≤ (a.holding e.debited e.coin.denom).frozen ∧
      (a.holding e.credited e.coin.denom).available + e.coin.amount < Word.size ∧
        a' = a.after e := by
  simp only [rehearse, Check.guard_ok, Nat.not_lt, Word.add?, available_debited]
  by_cases fits : (a.holding e.credited e.coin.denom).available + e.coin.amount < Word.size
  · simp only [fits, ↓reduceIte, Check.pure_ok, true_and, after, available_debited]
    exact and_congr_right fun _ => eq_comm
  · simp [fits, Check.throw_ok]

theorem mapError_ok {x : Except Fault Accounts} {f : Fault → Fault} :
    x.mapError f = .ok a ↔ x = .ok a := by
  cases x <;> simp [Except.mapError]

theorem applyEffect_iff_rehearse (moves : e.isNoop = false) :
    a.applyEffect e = .ok a' ↔ a.rehearse e = .ok a' := by
  rw [rehearse_ok]
  unfold applyEffect
  rw [mapError_ok]
  cases e with
  | transfer source target coin =>
      have nonzero : coin.amount ≠ 0 := by
        simpa [Effect.isNoop, Effect.coin, Coin.isZero] using moves
      simp only [transferFrozen_ok nonzero, deposit_ok, Effect.coin, Effect.debited,
        Effect.credited, available_debited, after]
      tauto
  | unfreeze owner coin =>
      have nonzero : coin.amount ≠ 0 := by
        simpa [Effect.isNoop, Effect.coin, Coin.isZero] using moves
      simp [unfreeze_ok, nonzero, Effect.coin, Effect.debited, Effect.credited, after]

/-- The accounts after a whole batch, unless an effect is refused. -/
def rehearsal (effects : List Effect) (a : Accounts) : Except Fault Accounts :=
  (Effect.moving effects).foldlM rehearse a

theorem dryRun_eq (a : Accounts) (effects : List Effect) :
    a.dryRun effects = (a.rehearsal effects).map fun _ => () := by
  rw [dryRun, rehearsal]
  cases (Effect.moving effects).foldlM rehearse a <;> rfl

/-- What passed the rehearsal is applied without a fault. -/
theorem applyEffects_of_rehearsal (accepted : a.rehearsal effects = .ok a') :
    applyEffects effects a = .ok () a' := by
  have moving : ∀ e ∈ Effect.moving effects, e.isNoop = false := by simp [Effect.moving]
  rw [rehearsal] at accepted
  rw [applyEffects]
  generalize Effect.moving effects = l at accepted moving
  induction l generalizing a with
  | nil =>
      rw [List.foldlM_nil, Check.pure_ok] at accepted
      subst accepted
      rfl
  | cons e rest ih =>
      rw [List.foldlM_cons, Check.bind_ok] at accepted
      obtain ⟨b, first, accepted⟩ := accepted
      have applied := (applyEffect_iff_rehearse (moving e (by simp))).2 first
      exact Action.bind_ok.2 ⟨(), b, Action.change_ok.2 applied,
        ih accepted fun e mem => moving e (by simp [mem])⟩

section Movement

variable {x : Address} {d : Denom}

theorem after_frozen (enough : e.coin.amount ≤ (a.holding e.debited e.coin.denom).frozen) :
    ((a.after e).holding x d).frozen + e.debit x d = (a.holding x d).frozen := by
  simp only [after, holding_set, Effect.debit]
  grind

theorem after_available :
    ((a.after e).holding x d).available = (a.holding x d).available + e.credit x d := by
  simp only [after, holding_set, Effect.credit]
  grind

theorem after_supply (enough : e.coin.amount ≤ (a.holding e.debited e.coin.denom).frozen) :
    (a.after e).supply d = a.supply d := by
  simp only [after]
  generalize drained : a.set e.debited e.coin.denom _ = b
  have credited := supply_set (a := b) (x := e.credited) (d := e.coin.denom) (e := d)
    (h := { b.holding e.credited e.coin.denom with
      available := (b.holding e.credited e.coin.denom).available + e.coin.amount })
  have debited := supply_set (a := a) (x := e.debited) (d := e.coin.denom) (e := d)
    (h := { a.holding e.debited e.coin.denom with
      frozen := (a.holding e.debited e.coin.denom).frozen - e.coin.amount })
  rw [drained] at debited
  simp only [Holding.total] at credited debited
  split at credited
  · next named =>
      rw [if_pos named, if_pos named] at debited
      omega
  · next other =>
      rw [if_neg other, if_neg other] at debited
      omega

/-- After a batch the frozen funds are down by its debits, the available ones up by its credits, and
no supply has changed. -/
theorem rehearsal_moves (accepted : a.rehearsal effects = .ok a') :
    (∀ x d, (a'.holding x d).frozen + Effect.debits effects x d = (a.holding x d).frozen) ∧
      (∀ x d, (a'.holding x d).available =
        (a.holding x d).available + Effect.credits effects x d) ∧
      ∀ d, a'.supply d = a.supply d := by
  rw [rehearsal] at accepted
  simp only [← Effect.debits_moving _ _ effects, ← Effect.credits_moving _ _ effects]
  generalize Effect.moving effects = l at accepted
  induction l generalizing a with
  | nil =>
      rw [List.foldlM_nil, Check.pure_ok] at accepted
      subst accepted
      simp
  | cons e rest ih =>
      rw [List.foldlM_cons, Check.bind_ok] at accepted
      obtain ⟨b, first, accepted⟩ := accepted
      obtain ⟨enough, -, rfl⟩ := rehearse_ok.1 first
      obtain ⟨frozen, available, supply⟩ := ih accepted
      refine ⟨fun x d => ?_, fun x d => ?_, fun d => ?_⟩
      · have moved := after_frozen (x := x) (d := d) enough
        have later := frozen x d
        rw [Effect.debits_cons]
        omega
      · rw [available x d, after_available, Effect.credits_cons]
        omega
      · rw [supply d, after_supply enough]

theorem InRange.rehearse {e : Effect} (range : a.InRange) (run : a.rehearse e = .ok a') :
    a'.InRange := by
  obtain ⟨enough, fits, rfl⟩ := rehearse_ok.1 run
  intro x d
  constructor
  · rw [after_available]
    simp only [Effect.credit]
    split
    · next h => rwa [← h.1, ← h.2]
    · exact (range x d).1
  · have moved := after_frozen (x := x) (d := d) enough
    have := (range x d).2
    omega

theorem InRange.rehearsal (range : a.InRange) (accepted : a.rehearsal effects = .ok a') :
    a'.InRange :=
  Check.foldlM_keeps (fun _ _ _ _ => InRange.rehearse) range accepted

/-- Effects that the frozen funds cover are accepted as long as the supplies are words. -/
theorem rehearsal_total (enough : ∀ x d, Effect.debits effects x d ≤ (a.holding x d).frozen)
    (words : ∀ d, a.supply d < Word.size) : ∃ a', a.rehearsal effects = .ok a' := by
  rw [rehearsal]
  simp only [← Effect.debits_moving _ _ effects] at enough
  generalize Effect.moving effects = l at enough
  induction l generalizing a with
  | nil => exact ⟨a, rfl⟩
  | cons e rest ih =>
      have held : e.coin.amount ≤ (a.holding e.debited e.coin.denom).frozen := by
        have all := enough e.debited e.coin.denom
        rw [Effect.debits_cons, Effect.debit, if_pos ⟨rfl, rfl⟩] at all
        omega
      -- What is credited is part of the supply, which the effect leaves as it is.
      have fits : (a.holding e.credited e.coin.denom).available + e.coin.amount < Word.size := by
        have credited := after_available (a := a) (e := e) (x := e.credited) (d := e.coin.denom)
        rw [Effect.credit, if_pos ⟨rfl, rfl⟩] at credited
        have part := total_le_supply (a := a.after e) (x := e.credited) (d := e.coin.denom)
        rw [after_supply held, Holding.total] at part
        have word := words e.coin.denom
        omega
      have later : ∀ x d, Effect.debits rest x d ≤ ((a.after e).holding x d).frozen := by
        intro x d
        have all := enough x d
        have moved := after_frozen (x := x) (d := d) held
        rw [Effect.debits_cons] at all
        omega
      have words' : ∀ d, (a.after e).supply d < Word.size := by
        intro d
        rw [after_supply held]
        exact words d
      obtain ⟨a', accepted⟩ := ih words' later
      exact ⟨a', List.foldlM_cons.trans
        (Check.bind_ok.2 ⟨_, rehearse_ok.2 ⟨held, fits, rfl⟩, accepted⟩)⟩

end Movement

end Accounts

namespace SupplySnapshot

variable {a b : Accounts}

theorem noted_foldl (denoms : List Denom) {noted : Std.ExtTreeMap Denom Nat}
    (right : ∀ d n, noted[d]? = some n → n = a.supply d) (d : Denom) (n : Nat)
    (found : (denoms.foldl (fun noted d => noted.insert d (a.supply d)) noted)[d]? = some n) :
    n = a.supply d := by
  induction denoms generalizing noted with
  | nil => exact right d n found
  | cons e rest ih =>
      refine ih (fun d n found => ?_) found
      rw [Maps.getElem?_insert] at found
      split at found
      · next same => simp_all
      · exact right d n found

theorem expected_take (denoms : List Denom) {d : Denom} {n : Nat}
    (noted : (take a denoms).expected[d]? = some n) : n = a.supply d :=
  noted_foldl denoms (by simp) d n noted

/-- A snapshot holds of every accounts with the same supplies. -/
theorem verify_of_supply (denoms : List Denom) (same : ∀ d, b.supply d = a.supply d) :
    (take a denoms).verify b = .ok () := by
  have right : ∀ e ∈ (take a denoms).expected.toList, b.supply e.1 = e.2 := by
    intro e mem
    rw [same, expected_take denoms (Std.ExtTreeMap.mem_toList_iff_getElem?_eq_some.1 mem)]
  rw [verify]
  generalize (take a denoms).expected.toList = l at right
  induction l with
  | nil => rfl
  | cons e rest ih =>
      have first := right e (by simp)
      exact Check.bind_ok.2 ⟨(), by simp [first], ih fun e mem => right e (by simp [mem])⟩

end SupplySnapshot

namespace Clearing

/-- The clearing after a batch, unless the replay guard or the rehearsal refuses it. -/
def settled (b : Batch) (c : Clearing) : Except Fault Clearing := do
  let watermark ← Replay.check c.watermark b.trades
  let accounts ← c.accounts.rehearsal b.effects
  return { c with accounts }.note watermark b.trades

/-- Once the guard and the rehearsal have passed, nothing can fail: the rest moves what was
rehearsed, and the supplies are what they were. -/
theorem settle_eq_change (b : Batch) : settle b = .change (settled b) := by
  funext c
  simp only [Action.change, settled]
  cases guard : Replay.check c.watermark b.trades with
  | error fault => exact Action.bind_error.2 (.inl (Action.ask_error.2 ⟨guard, rfl⟩))
  | ok watermark =>
      have guarded : (Action.ask fun c : Clearing => Replay.check c.watermark b.trades) c =
          .ok watermark c := Action.ask_ok.2 ⟨guard, rfl⟩
      have dry := Accounts.dryRun_eq c.accounts b.effects
      cases rehearsed : c.accounts.rehearsal b.effects with
      | error fault =>
          rw [rehearsed] at dry
          have refused : (Action.ask fun c : Clearing => c.accounts.dryRun b.effects) c =
              .error fault c := Action.ask_error.2 ⟨dry, rfl⟩
          exact Action.bind_error.2 (.inr ⟨watermark, c, guarded,
            Action.bind_error.2 (.inl refused)⟩)
      | ok accounts =>
          rw [rehearsed] at dry
          have accepted : (Action.ask fun c : Clearing => c.accounts.dryRun b.effects) c =
              .ok () c := Action.ask_ok.2 ⟨dry, rfl⟩
          have applied : onAccounts (Accounts.applyEffects b.effects) c =
              .ok () { c with accounts } :=
            Action.within_ok.2 ⟨accounts, Accounts.applyEffects_of_rehearsal rehearsed, rfl⟩
          have verified := SupplySnapshot.verify_of_supply (SupplySnapshot.denomsOf b.effects)
            (Accounts.rehearsal_moves rehearsed).2.2
          exact Action.bind_ok.2 ⟨watermark, c, guarded, Action.bind_ok.2 ⟨(), c, accepted,
            Action.bind_ok.2 ⟨c, c, rfl, Action.bind_ok.2 ⟨(), _, applied,
              Action.bind_ok.2 ⟨(), _, Action.ask_ok.2 ⟨verified, rfl⟩, rfl⟩⟩⟩⟩⟩

end Clearing

end Bourse
