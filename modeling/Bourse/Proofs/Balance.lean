import Bourse.Proofs.Resting
import Bourse.Proofs.Upkeep

/-!
# What a block end settles

The matching of several markets and the sweep of due delistings settle exactly what the stored
orders hold less afterwards, and credit beyond what they debit what their trades say.
-/

namespace Bourse.Store

variable {s s' : Store} {v : Venue} {seq seq' : Nat} {batch : Batch} {sweep : Sweep}
  {id : PairId}

section Matching

variable [Build] {pairs : List PairId}

theorem matchPairs_nil_ok :
    matchPairs v seq [] s = .ok (batch, seq') s' ↔ {} = batch ∧ seq = seq' ∧ s = s' := by
  rw [matchPairs, Action.pure_ok, Prod.mk.injEq, and_assoc]

theorem matchPairs_cons_ok :
    matchPairs v seq (id :: pairs) s = .ok (batch, seq') s' ↔
      ∃ c seq₁ t more, matchPair v seq id s = .ok (c, seq₁) t ∧
        matchPairs v seq₁ pairs t = .ok (more, seq') s' ∧ batch = c.batch ++ more := by
  constructor
  · intro run
    obtain ⟨⟨c, seq₁⟩, t, first, run⟩ := Action.bind_ok.1 run
    obtain ⟨⟨more, _⟩, _, later, run⟩ := Action.bind_ok.1 run
    obtain ⟨out, rfl⟩ := Action.pure_ok.1 run
    obtain ⟨rfl, rfl⟩ := Prod.mk.inj out
    exact ⟨c, seq₁, t, more, first, later, rfl⟩
  · rintro ⟨c, seq₁, t, more, first, later, rfl⟩
    exact Action.bind_ok.2 ⟨_, t, first, Action.bind_ok.2 ⟨_, s', later, rfl⟩⟩

theorem matchPairs_nets (run : matchPairs v seq pairs s = .ok (batch, seq') s') :
    Nets v batch.trades batch.effects := by
  induction pairs generalizing s seq batch with
  | nil =>
      obtain ⟨rfl, -⟩ := matchPairs_nil_ok.1 run
      exact nets_nil v
  | cons id rest ih =>
      obtain ⟨c, seq₁, t, more, first, later, rfl⟩ := matchPairs_cons_ok.1 run
      exact (matchPair_nets first).append (ih later)

theorem matchPairs_balanced (wf : s.tables.WellFormed)
    (run : matchPairs v seq pairs s = .ok (batch, seq') s') :
    Balanced v s.resting s'.resting batch.trades batch.effects := by
  induction pairs generalizing s seq batch with
  | nil =>
      obtain ⟨rfl, rfl, rfl⟩ := matchPairs_nil_ok.1 run
      exact balanced_start v s.resting
  | cons id rest ih =>
      obtain ⟨c, seq₁, t, more, first, later, rfl⟩ := matchPairs_cons_ok.1 run
      have wf' := ((upkeep_extends.matchPair v seq id).ok first wf).1
      exact (matchPair_balanced wf first).append (ih wf' later)

end Matching

section Sweeping

theorem resting_removeDelist (s : Store) (r : DelistRequest) :
    (s.removeDelist r).2.resting = s.resting := by
  rw [removeDelist]
  split <;> rfl

theorem resting_removePair {p : Option Pair} (run : s.removePair id = .ok (p, s')) :
    s'.resting = s.resting := by
  rw [resting, (removePair_ok run).2.1, resting]

/-- A sweep of due delistings settles what the expired orders held. -/
theorem sweepDue_balanced {now : Int} (run : sweepDue now v.baseCurrency s = .ok sweep s') :
    Balanced v s.resting s'.resting [] sweep.effects := by
  have sweeping : Sweeping v.baseCurrency fun sweep t =>
      Balanced v s.resting t.resting [] sweep.effects := by
    constructor
    · intro sweep t id out t' balanced run
      exact balanced.append (cancel_balanced run)
    · intro sweep t p q t' balanced run
      rw [resting_removePair run]
      exact balanced
    · intro sweep t r balanced
      rw [resting_removeDelist]
      exact balanced
  exact sweeping.sweepDue (balanced_start v s.resting) run

end Sweeping

end Bourse.Store
