import Bourse.Settlement.Replay

/-!
# Fills that are numbered in turn pass the replay guard

* `Trade.Numbered`: trades of one height, numbered without a gap;
* `check_numbered`: if the first lies above the watermark, the guard accepts all of them;
* `below_advance`: the watermark then lies below the next number.
-/

namespace Bourse

namespace FillKey

variable {k l m : FillKey}

theorem lt_iff : k < l ↔ k.height < l.height ∨ (k.height = l.height ∧ k.seq < l.seq) := Iff.rfl

theorem not_le_of_lt (lt : k < l) : ¬l ≤ k := fun le => le lt

end FillKey

namespace Trade

variable {height seq : Nat} {t : Trade} {trades more : List Trade}

/-- The trades bear the names of the fills of a height from `seq` on. -/
inductive Numbered (height : Nat) : Nat → List Trade → Prop
  | nil (seq : Nat) : Numbered height seq []
  | cons {seq : Nat} {t : Trade} {rest : List Trade} : t.id = .ofFill height seq →
      t.key = ⟨height, seq⟩ → Numbered height (seq + 1) rest → Numbered height seq (t :: rest)

theorem Numbered.append (first : Numbered height seq trades)
    (second : Numbered height (seq + trades.length) more) :
    Numbered height seq (trades ++ more) := by
  induction first with
  | nil seq => exact second
  | cons id key _ ih =>
      refine .cons id key (ih ?_)
      rwa [List.length_cons, Nat.add_comm _ 1, ← Nat.add_assoc] at second

theorem numbered_single (id : t.id = .ofFill height seq) (key : t.key = ⟨height, seq⟩) :
    Numbered height seq [t] :=
  .cons id key (.nil _)

end Trade

namespace Replay

variable {height seq : Nat} {trades : List Trade} {watermark next : Option FillKey} {key : FillKey}

/-- Whatever was settled lies below the key. -/
def Below (watermark : Option FillKey) (key : FillKey) : Prop := ∀ last ∈ watermark, last < key

theorem not_settled (below : Below watermark key) : isSettled watermark key = false := by
  cases watermark with
  | none => rfl
  | some last =>
      have above := FillKey.not_le_of_lt (below last rfl)
      simpa [isSettled] using above

theorem below_self (height seq : Nat) : Below (some ⟨height, seq⟩) ⟨height, seq + 1⟩ := by
  intro last mem
  rw [← Option.some.inj mem]
  exact .inr ⟨rfl, Nat.lt_succ_self seq⟩

theorem Below.mono (below : Below watermark ⟨height, seq⟩) {later : Nat} (le : seq ≤ later) :
    Below watermark ⟨height, later⟩ := by
  intro last mem
  have lt := below last mem
  rw [FillKey.lt_iff] at lt ⊢
  dsimp only at lt ⊢
  omega

/-- The guard accepts fills numbered in turn. -/
theorem check_numbered (numbered : Trade.Numbered height seq trades)
    (below : Below watermark ⟨height, seq⟩) : ∃ next, check watermark trades = .ok next ∧
      Below next ⟨height, seq + trades.length⟩ := by
  induction numbered generalizing watermark with
  | nil seq => exact ⟨watermark, rfl, below⟩
  | @cons seq t rest id key _ ih =>
      obtain ⟨next, accepted, above⟩ := ih (below_self height seq)
      refine ⟨next, ?_, ?_⟩
      · have named : t.id = .ofFill t.height t.fillSeq := by
          have parts := FillKey.mk.inj key
          rw [id, parts.1, parts.2]
        rw [check, if_neg (by simp [named]), key, not_settled below]
        exact accepted
      · rwa [List.length_cons, Nat.add_comm rest.length 1, ← Nat.add_assoc]

theorem below_advance (before : Below watermark key) (after : Below next key) :
    Below (advance watermark next) key := by
  cases watermark with
  | none => exact after
  | some last =>
      cases next with
      | none => exact before
      | some new =>
          rw [advance]
          split
          · exact after
          · exact before

end Replay

end Bourse
