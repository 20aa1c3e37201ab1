import Bourse.Proofs.Watermark

/-!
# A batch is settled in full or not at all

The rehearsal runs on a copy of the accounts what settlement then does to them, so an account that
is debited and credited in one batch, or by one effect, is seen as it will be.

* `applyEffects_ok`: effects can be applied exactly when their rehearsal accepts them, and lead to
  the same accounts;
* `Replay.check_ok_iff`: the guard accepts exactly what bears the names of its fills and rises from
  above the watermark (`Replay.Rising`);
* `settled_in_full_or_not`: so a batch that passes both is settled whole, and any other changes
  nothing.
-/

namespace Bourse

namespace Accounts

variable {a a' : Accounts} {effects : List Effect}

/-- Effects can be applied exactly when their rehearsal accepts them. -/
theorem applyEffects_ok : applyEffects effects a = .ok () a' ↔ a.rehearsal effects = .ok a' := by
  refine ⟨fun applied => ?_, applyEffects_of_rehearsal⟩
  have moves : ∀ e ∈ Effect.moving effects, e.isNoop = false := by simp [Effect.moving]
  rw [applyEffects] at applied
  rw [rehearsal]
  generalize Effect.moving effects = l at applied moves
  induction l generalizing a with
  | nil =>
      rw [List.foldlM_nil, Check.pure_ok]
      exact Action.forM_nil_ok.1 applied
  | cons e rest ih =>
      obtain ⟨b, first, later⟩ := Action.forM_cons_ok.1 applied
      rw [List.forall_mem_cons] at moves
      rw [List.foldlM_cons, Check.bind_ok]
      exact ⟨b, (applyEffect_iff_rehearse moves.1).1 (Action.change_ok.1 first), ih later moves.2⟩

theorem dryRun_ok : a.dryRun effects = .ok () ↔ ∃ a', a.rehearsal effects = .ok a' := by
  rw [dryRun_eq]
  cases a.rehearsal effects with
  | error fault => simp [Except.map]
  | ok a' => simp [Except.map]

end Accounts

namespace Replay

variable {watermark next : Option FillKey} {trades : List Trade}

/-- The trades bear the names of their fills, and their keys rise from above the watermark. -/
structure Rising (watermark : Option FillKey) (trades : List Trade) : Prop where
  named : ∀ t ∈ trades, t.id = .ofFill t.height t.fillSeq
  keys : (watermark.toList ++ trades.map Trade.key).Pairwise (· < ·)

theorem rising_iff : Rising watermark trades ↔ (∀ t ∈ trades, t.id = .ofFill t.height t.fillSeq) ∧
    (trades.map Trade.key).Pairwise (· < ·) ∧ ∀ t ∈ trades, Below watermark t.key := by
  have above : (∀ k ∈ watermark.toList, ∀ l ∈ trades.map Trade.key, k < l) ↔
      ∀ t ∈ trades, Below watermark t.key := by
    simp only [Option.mem_toList, List.forall_mem_map, Below]
    exact ⟨fun all t mem k known => all k known t mem, fun all k known t mem => all t mem k known⟩
  have alone : watermark.toList.Pairwise (· < ·) := by cases watermark <;> simp
  constructor
  · intro rising
    obtain ⟨-, keys, apart⟩ := List.pairwise_append.1 rising.keys
    exact ⟨rising.named, keys, above.1 apart⟩
  · intro ⟨named, keys, below⟩
    exact ⟨named, List.pairwise_append.2 ⟨alone, keys, above.2 below⟩⟩

/-- The guard accepts what rises. -/
theorem check_total (named : ∀ t ∈ trades, t.id = .ofFill t.height t.fillSeq)
    (keys : (trades.map Trade.key).Pairwise (· < ·))
    (below : ∀ t ∈ trades, Below watermark t.key) : ∃ next, check watermark trades = .ok next := by
  induction trades generalizing watermark with
  | nil => exact ⟨watermark, rfl⟩
  | cons t rest ih =>
      rw [List.forall_mem_cons] at named below
      rw [List.map_cons, List.pairwise_cons, List.forall_mem_map] at keys
      have higher : ∀ t' ∈ rest, Below (some t.key) t'.key := by
        intro t' mem last known
        exact Option.some.inj known ▸ keys.1 t' mem
      obtain ⟨next, accepted⟩ := ih named.2 keys.2 higher
      refine ⟨next, ?_⟩
      rw [check, if_neg (not_not_intro named.1), not_settled below.1]
      exact accepted

theorem check_ok_iff : check watermark trades = .ok next ↔
    Rising watermark trades ∧ next = (trades.map Trade.key).getLast?.or watermark := by
  rw [rising_iff]
  constructor
  · intro accepted
    obtain ⟨named, keys, below, last⟩ := check_ok accepted
    exact ⟨⟨named, keys, below⟩, last⟩
  · rintro ⟨⟨named, keys, below⟩, rfl⟩
    obtain ⟨next, accepted⟩ := check_total named keys below
    rw [accepted, (check_ok accepted).2.2.2]

end Replay

namespace Clearing

variable {c c' : Clearing} {b : Batch}

/-- A batch is settled if its trades rise and its effects can be applied, and then this is what was
done. -/
theorem settle_ok_iff : settle b c = .ok () c' ↔ Replay.Rising c.watermark b.trades ∧
    Accounts.applyEffects b.effects c.accounts = .ok () c'.accounts ∧
    c'.watermark = (b.trades.map Trade.key).getLast?.or c.watermark ∧
    c'.settledTrades = Word.wrapAdd c.settledTrades b.trades.length := by
  rw [settle_eq_change, Action.change_ok, settled_ok, Accounts.applyEffects_ok]
  constructor
  · rintro ⟨watermark, accounts, accepted, rehearsed, rfl⟩
    obtain ⟨rising, last⟩ := Replay.check_ok_iff.1 accepted
    exact ⟨rising, rehearsed, (Replay.advance_of_check accepted).trans last, rfl⟩
  · rintro ⟨rising, rehearsed, last, counted⟩
    have accepted := Replay.check_ok_iff.2 ⟨rising, rfl⟩
    refine ⟨_, _, accepted, rehearsed, ?_⟩
    rw [note, Replay.advance_of_check accepted, ← last, ← counted]

/-- The dry run accepts the effects that can be applied and no others. A batch is settled exactly
when its trades bear the names of their fills, rise from above the watermark, and its effects pass
the dry run; nothing can go wrong any more after that. Then its effects are applied in order, no
supply has changed, and the watermark is the last key. Any other batch leaves accounts and clearing
as they were. -/
theorem settled_in_full_or_not (b : Batch) (c : Clearing) :
    (c.accounts.dryRun b.effects = .ok () ↔
      ∃ a, Accounts.applyEffects b.effects c.accounts = .ok () a) ∧
    ((∃ c', settle b c = .ok () c') ↔
      (∀ t ∈ b.trades, t.id = .ofFill t.height t.fillSeq) ∧
      (c.watermark.toList ++ b.trades.map Trade.key).Pairwise (· < ·) ∧
      c.accounts.dryRun b.effects = .ok ()) ∧
    (c.accounts.dryRun b.effects = .ok () →
      ∃ a, Accounts.applyEffects b.effects c.accounts = .ok () a ∧
        (SupplySnapshot.take c.accounts (SupplySnapshot.denomsOf b.effects)).verify a = .ok ()) ∧
    (∀ c', settle b c = .ok () c' →
      Accounts.applyEffects b.effects c.accounts = .ok () c'.accounts ∧
      (∀ d, c'.accounts.supply d = c.accounts.supply d) ∧
      c'.watermark = (b.trades.getLast?.map Trade.key).or c.watermark ∧
      c'.settledTrades = Word.wrapAdd c.settledTrades b.trades.length) ∧
    ∀ fault c', settle b c = .error fault c' → c' = c := by
  have agrees : c.accounts.dryRun b.effects = .ok () ↔
      ∃ a, Accounts.applyEffects b.effects c.accounts = .ok () a := by
    simp only [Accounts.dryRun_ok, Accounts.applyEffects_ok]
  refine ⟨agrees, ?_, fun accepted => ?_, fun c' settled => ?_, fun fault c' refused => ?_⟩
  · rw [agrees]
    constructor
    · rintro ⟨c', settled⟩
      obtain ⟨⟨named, keys⟩, applied, -⟩ := settle_ok_iff.1 settled
      exact ⟨named, keys, _, applied⟩
    · rintro ⟨named, keys, a, applied⟩
      exact ⟨⟨a, _, _⟩, settle_ok_iff.2 ⟨⟨named, keys⟩, applied, rfl, rfl⟩⟩
  · obtain ⟨a, applied⟩ := agrees.1 accepted
    have moved := Accounts.rehearsal_moves (Accounts.applyEffects_ok.1 applied)
    exact ⟨a, applied, SupplySnapshot.verify_of_supply _ moved.2.2⟩
  · obtain ⟨-, applied, last, counted⟩ := settle_ok_iff.1 settled
    have moved := Accounts.rehearsal_moves (Accounts.applyEffects_ok.1 applied)
    rw [List.getLast?_map] at last
    exact ⟨applied, moved.2.2, last, counted⟩
  · rw [settle_eq_change] at refused
    exact (Action.change_error.1 refused).2.symm

end Clearing

end Bourse
