import Bourse.Proofs.Escrow

/-!
# When an escrow goes through

* `Merged`: coins of distinct denominations, none of them zero; merging makes such coins and keeps
  the sums (`merged_of_mergeHolds`), and it succeeds while the sums are words (`mergeHolds_total`);
* `checkSufficient_ok`: the available funds suffice if they cover the sum of every denomination;
* `freezeAll_ok_iff`, `releaseAll_ok_iff`: coins are frozen, or released, exactly if the sums are
  covered on the one side and fit on the other;
* `escrow_exact`: what either moves, and that one undoes the other.
-/

namespace Bourse

section Merging

variable {coins held held' : List Coin} {c : Coin}

/-- Coins of distinct denominations, none of them zero. -/
structure Merged (coins : List Coin) : Prop where
  distinct : (coins.map Coin.denom).Nodup
  nonzero : ∀ c ∈ coins, c.amount ≠ 0

/-- Adding a coin adds its denomination, unless it is there. -/
theorem denoms_addHold (added : addHold c held = .ok held') (d : Denom) :
    d ∈ held'.map Coin.denom ↔ d = c.denom ∨ d ∈ held.map Coin.denom := by
  induction held generalizing held' with
  | nil => simp [addHold_nil.1 added]
  | cons h rest ih =>
      obtain ⟨same, -, rfl⟩ | ⟨-, more, run, rfl⟩ := addHold_cons.1 added
      · simp [same]
      · simp only [List.map_cons, List.mem_cons, ih run]
        tauto

theorem Merged.addHold (merged : Merged held) (nonzero : c.amount ≠ 0)
    (added : addHold c held = .ok held') : Merged held' := by
  induction held generalizing held' with
  | nil =>
      rw [addHold_nil.1 added]
      exact ⟨List.nodup_singleton c.denom, List.forall_mem_singleton.2 nonzero⟩
  | cons h rest ih =>
      obtain ⟨fresh, distinct⟩ := List.nodup_cons.1 merged.distinct
      obtain ⟨first, others⟩ := List.forall_mem_cons.1 merged.nonzero
      obtain ⟨-, -, rfl⟩ | ⟨other, more, run, rfl⟩ := addHold_cons.1 added
      · refine ⟨merged.distinct, List.forall_mem_cons.2 ⟨?_, others⟩⟩
        dsimp only
        omega
      · have kept := ih ⟨distinct, others⟩ run
        have apart : h.denom ∉ more.map Coin.denom := by
          rw [denoms_addHold run]
          exact fun named => named.elim other fresh
        exact ⟨List.nodup_cons.2 ⟨apart, kept.distinct⟩,
          List.forall_mem_cons.2 ⟨first, kept.nonzero⟩⟩

theorem merged_of_mergeHolds (run : mergeHolds coins = .ok held) : Merged held := by
  have start : Merged [] := ⟨List.nodup_nil, nofun⟩
  refine Check.foldlM_keeps (fun c mem _ _ merged added => ?_) start run
  have nonzero : c.amount ≠ 0 := by simpa [Coin.isZero] using (List.mem_filter.1 mem).2
  exact merged.addHold nonzero added

/-- A coin can be added while the sum of its denomination is a word. -/
theorem addHold_total (fits : Coin.amountOf held c.denom + c.amount < Word.size) :
    ∃ held', addHold c held = .ok held' := by
  induction held with
  | nil => exact ⟨[c], rfl⟩
  | cons h rest ih =>
      rw [Coin.amountOf_cons] at fits
      by_cases same : h.denom = c.denom
      · rw [if_pos same] at fits
        exact ⟨_, addHold_cons.2 (.inl ⟨same, by omega, rfl⟩)⟩
      · obtain ⟨more, added⟩ := ih (by omega)
        exact ⟨_, addHold_cons.2 (.inr ⟨same, more, added, rfl⟩)⟩

/-- Coins can be merged while the sum of every denomination is a word. -/
theorem mergeHolds_total (fits : ∀ d, Coin.amountOf coins d < Word.size) :
    ∃ held, mergeHolds coins = .ok held := by
  have general : ∀ l start, (∀ d, Coin.amountOf start d + Coin.amountOf l d < Word.size) →
      ∃ held, l.foldlM (fun held coin => addHold coin held) start = .ok held := by
    intro l
    induction l with
    | nil => exact fun start _ => ⟨start, rfl⟩
    | cons c rest ih =>
        intro start fits
        simp only [Coin.amountOf_cons] at fits
        have room := fits c.denom
        rw [if_pos rfl] at room
        have fits' : Coin.amountOf start c.denom + c.amount < Word.size := by omega
        obtain ⟨next, added⟩ := addHold_total fits'
        obtain ⟨held, run⟩ := ih next fun d => by
          have := fits d
          rw [Coin.amountOf_addHold added]
          omega
        exact ⟨held, List.foldlM_cons.trans (Check.bind_ok.2 ⟨next, added, run⟩)⟩
  apply general _ []
  intro d
  rw [Coin.amountOf_nil, Nat.zero_add, Coin.amountOf_filter]
  exact fits d

theorem Coin.amountOf_eq_zero {d : Denom} (absent : d ∉ coins.map Coin.denom) :
    amountOf coins d = 0 := by
  induction coins with
  | nil => rfl
  | cons c rest ih =>
      rw [List.map_cons, List.mem_cons, not_or] at absent
      rw [amountOf_cons, if_neg (Ne.symm absent.1), ih absent.2]

/-- Merged coins hold one amount of each denomination. -/
theorem Merged.amountOf (merged : Merged coins) (mem : c ∈ coins) :
    Coin.amountOf coins c.denom = c.amount := by
  induction coins with
  | nil => exact absurd mem List.not_mem_nil
  | cons h rest ih =>
      obtain ⟨fresh, distinct⟩ := List.nodup_cons.1 merged.distinct
      rw [Coin.amountOf_cons]
      obtain rfl | mem := List.mem_cons.1 mem
      · rw [if_pos rfl, Coin.amountOf_eq_zero fresh, Nat.add_zero]
      · have other : h.denom ≠ c.denom := fun same =>
          fresh (same ▸ List.mem_map_of_mem mem)
        rw [if_neg other, Nat.zero_add]
        exact ih ⟨distinct, (List.forall_mem_cons.1 merged.nonzero).2⟩ mem

/-- So a bound on the coins is one on the sums. -/
theorem Merged.forall_le_iff (merged : Merged coins) (bound : Denom → Nat) :
    (∀ c ∈ coins, c.amount ≤ bound c.denom) ↔ ∀ d, Coin.amountOf coins d ≤ bound d := by
  constructor
  · intro each d
    by_cases named : d ∈ coins.map Coin.denom
    · obtain ⟨c, mem, rfl⟩ := List.mem_map.1 named
      rw [merged.amountOf mem]
      exact each c mem
    · rw [Coin.amountOf_eq_zero named]
      exact Nat.zero_le _
  · intro sums c mem
    rw [← merged.amountOf mem]
    exact sums c.denom

end Merging

theorem Holding.eq_of {h h' : Holding} (available : h.available = h'.available)
    (frozen : h.frozen = h'.frozen) : h = h' := by
  cases h
  cases h'
  simp_all

namespace Accounts

variable {a a' : Accounts} {owner : Address} {coins holds : List Coin}

theorem requireEach_ok {u : Unit} : a.requireEach owner holds = .ok u ↔
    ∀ c ∈ holds, c.amount ≤ (a.holding owner c.denom).available := by
  induction holds with
  | nil => simp [requireEach]
  | cons c rest ih =>
      rw [requireEach, List.forall_mem_cons, ← ih]
      by_cases enough : c.amount ≤ (a.holding owner c.denom).available <;>
        simp [covers, enough]

/-- The funds suffice if the coins can be merged and each sum is available. -/
theorem checkSufficient_ok {u : Unit} : a.checkSufficient owner coins = .ok u ↔
    (∃ holds, mergeHolds coins = .ok holds) ∧
      ∀ d, Coin.amountOf coins d ≤ (a.holding owner d).available := by
  have sums : ∀ {holds}, mergeHolds coins = .ok holds →
      (a.requireEach owner holds = .ok u ↔
        ∀ d, Coin.amountOf coins d ≤ (a.holding owner d).available) := by
    intro holds merged
    rw [requireEach_ok, (merged_of_mergeHolds merged).forall_le_iff
      fun d => (a.holding owner d).available]
    simp only [Coin.amountOf_mergeHolds merged]
  rw [checkSufficient, Check.bind_ok]
  constructor
  · rintro ⟨holds, merged, enough⟩
    exact ⟨⟨holds, merged⟩, (sums merged).1 enough⟩
  · rintro ⟨⟨holds, merged⟩, enough⟩
    exact ⟨holds, merged, (sums merged).2 enough⟩

/-- Coins that are available can be frozen while the frozen funds stay words. -/
theorem freezes_of_enough (enough : ∀ d, Coin.amountOf holds d ≤ (a.holding owner d).available)
    (fits : ∀ d, (a.holding owner d).frozen + Coin.amountOf holds d < Word.size) :
    ∃ a', holds.foldlM (fun a hold => a.freeze owner hold) a = .ok a' := by
  induction holds generalizing a with
  | nil => exact ⟨a, rfl⟩
  | cons c rest ih =>
      simp only [Coin.amountOf_cons] at enough fits
      have covered := enough c.denom
      have room := fits c.denom
      rw [if_pos rfl] at covered room
      obtain ⟨b, first⟩ : ∃ b, a.freeze owner c = .ok b := by
        by_cases zero : c.amount = 0
        · exact ⟨a, freeze_ok.2 ⟨by omega, .inl ⟨zero, rfl⟩⟩⟩
        · exact ⟨_, freeze_ok.2 ⟨by omega, .inr ⟨zero, by omega, rfl⟩⟩⟩
      have moved := frozen_of_freeze first
      obtain ⟨a', run⟩ := ih (a := b)
        (fun d => by
          have := enough d
          have := moved.available owner d
          simp only [↓reduceIte] at *
          omega)
        (fun d => by
          have := fits d
          have := moved.frozen owner d
          simp only [↓reduceIte] at *
          omega)
      exact ⟨a', by rw [List.foldlM_cons, Check.bind_ok]; exact ⟨b, first, run⟩⟩

/-- Coins are frozen exactly if their sums are available and the frozen funds stay words. -/
theorem freezeAll_ok_iff (range : a.InRange) : (∃ a', freezeAll owner coins a = .ok () a') ↔
    ∀ d, Coin.amountOf coins d ≤ (a.holding owner d).available ∧
      (a.holding owner d).frozen + Coin.amountOf coins d < Word.size := by
  constructor
  · rintro ⟨a', run⟩ d
    obtain ⟨moved, range'⟩ := freezeAll_ok range run
    have available := moved.available owner d
    have frozen := moved.frozen owner d
    have word := (range' owner d).2
    rw [if_pos rfl] at available frozen
    omega
  · intro room
    have words : ∀ d, Coin.amountOf coins d < Word.size :=
      fun d => (room d).1.trans_lt (range owner d).1
    obtain ⟨holds, merged⟩ := mergeHolds_total words
    have sums : Coin.amountOf holds = Coin.amountOf coins :=
      funext fun d => Coin.amountOf_mergeHolds merged
    rw [← sums] at words room
    obtain ⟨again, remerged⟩ := mergeHolds_total words
    have enough := fun d => (room d).1
    have checked : a.checkSufficient owner holds = .ok () :=
      checkSufficient_ok.2 ⟨⟨again, remerged⟩, enough⟩
    obtain ⟨a', run⟩ := freezes_of_enough enough fun d => (room d).2
    refine ⟨a', ?_⟩
    rw [freezeAll_eq_change range, Action.change_ok, Check.bind_ok]
    exact ⟨holds, merged, Check.bind_ok.2 ⟨(), checked, run⟩⟩

theorem InRange.unfreezes (range : a.InRange)
    (run : holds.foldlM (fun a hold => a.unfreeze owner hold) a = .ok a') : a'.InRange :=
  Check.foldlM_keeps (fun _ _ _ _ => InRange.unfreeze) range run

/-- A release that succeeds moves what its coins make up back to the available funds. -/
theorem releaseAll_ok (range : a.InRange) (run : releaseAll owner coins a = .ok () a') :
    Frozen owner (Coin.amountOf coins) a' a ∧ a'.InRange := by
  rw [releaseAll_eq_change range, Action.change_ok, Check.bind_ok] at run
  obtain ⟨holds, merged, run⟩ := run
  have moved := frozen_of_unfreezes range run
  rw [show Coin.amountOf holds = Coin.amountOf coins from
    funext fun d => Coin.amountOf_mergeHolds merged] at moved
  exact ⟨moved, range.unfreezes run⟩

theorem releaseAll_error {fault : Fault} (range : a.InRange)
    (run : releaseAll owner coins a = .error fault a') : a' = a := by
  rw [releaseAll_eq_change range] at run
  exact (Action.change_error.1 run).2.symm

/-- Coins are released exactly if their sums are frozen and the available funds stay words. -/
theorem releaseAll_ok_iff (range : a.InRange) : (∃ a', releaseAll owner coins a = .ok () a') ↔
    ∀ d, Coin.amountOf coins d ≤ (a.holding owner d).frozen ∧
      (a.holding owner d).available + Coin.amountOf coins d < Word.size := by
  constructor
  · rintro ⟨a', run⟩ d
    obtain ⟨moved, range'⟩ := releaseAll_ok range run
    have available := moved.available owner d
    have frozen := moved.frozen owner d
    have word := (range' owner d).1
    rw [if_pos rfl] at available frozen
    omega
  · intro room
    have words : ∀ d, Coin.amountOf coins d < Word.size :=
      fun d => (room d).1.trans_lt (range owner d).2
    obtain ⟨holds, merged⟩ := mergeHolds_total words
    have sums : Coin.amountOf holds = Coin.amountOf coins :=
      funext fun d => Coin.amountOf_mergeHolds merged
    rw [← sums] at room
    obtain ⟨a', run⟩ := unfreezes_of_enough range (fun d => (room d).1) fun d => (room d).2
    refine ⟨a', ?_⟩
    rw [releaseAll_eq_change range, Action.change_ok, Check.bind_ok]
    exact ⟨holds, merged, run⟩

section Moved

variable {amount : Denom → Nat}

/-- What was frozen left the available funds of its owner, and nothing else changed. -/
theorem Frozen.holding (moved : Frozen owner amount a a') (x : Address) (d : Denom) :
    a'.holding x d =
      if x = owner then
        ⟨(a.holding x d).available - amount d, (a.holding x d).frozen + amount d⟩
      else a.holding x d := by
  have available := moved.available x d
  have frozen := moved.frozen x d
  by_cases own : owner = x
  · rw [if_pos own] at available frozen
    rw [if_pos own.symm]
    apply Holding.eq_of <;> dsimp only <;> omega
  · rw [if_neg own] at available frozen
    rw [if_neg (Ne.symm own)]
    exact Holding.eq_of available frozen

theorem Frozen.holding_source (moved : Frozen owner amount a' a) (x : Address) (d : Denom) :
    a'.holding x d =
      if x = owner then
        ⟨(a.holding x d).available + amount d, (a.holding x d).frozen - amount d⟩
      else a.holding x d := by
  have available := moved.available x d
  have frozen := moved.frozen x d
  by_cases own : owner = x
  · rw [if_pos own] at available frozen
    rw [if_pos own.symm]
    apply Holding.eq_of <;> dsimp only <;> omega
  · rw [if_neg own] at available frozen
    rw [if_neg (Ne.symm own)]
    exact Holding.eq_of available.symm frozen.symm

end Moved

/-- A sum of nothing asks for nothing. -/
theorem forall_positive_iff {S side other : Denom → Nat} (side_lt : ∀ d, side d < Word.size)
    (other_lt : ∀ d, other d < Word.size) :
    (∀ d, S d ≤ side d ∧ other d + S d < Word.size) ↔
      ∀ d, 0 < S d → S d < Word.size ∧ S d ≤ side d ∧ other d + S d < Word.size := by
  constructor
  · intro holds d _
    have := holds d
    have := side_lt d
    omega
  · intro holds d
    have := holds d
    have := other_lt d
    omega

/-- Whatever the coins are, those that repeat a denomination or are zero among them: all are frozen
exactly if, of every denomination that they make up an amount of, this amount is a word, available,
and still a word when it is added to the frozen funds. It then moves from the available to the
frozen funds of the owner, and no other entry changes; if anything is refused, nothing changes. The
same holds of the release, the other way round, and a release after a freeze restores the
accounts. -/
theorem escrow_exact (range : a.InRange) (owner : Address) (coins : List Coin) :
    let S := Coin.amountOf coins
    ((∃ a', freezeAll owner coins a = .ok () a') ↔ ∀ d, 0 < S d → S d < Word.size ∧
      S d ≤ (a.holding owner d).available ∧ (a.holding owner d).frozen + S d < Word.size) ∧
    (∀ a', freezeAll owner coins a = .ok () a' →
      (∀ p, p ∈ a'.holdings ↔ p ∈ a.holdings) ∧ ∀ x d, a'.holding x d =
        if x = owner then ⟨(a.holding x d).available - S d, (a.holding x d).frozen + S d⟩
        else a.holding x d) ∧
    (∀ fault a', freezeAll owner coins a = .error fault a' → a' = a) ∧
    ((∃ a', releaseAll owner coins a = .ok () a') ↔ ∀ d, 0 < S d → S d < Word.size ∧
      S d ≤ (a.holding owner d).frozen ∧ (a.holding owner d).available + S d < Word.size) ∧
    (∀ a', releaseAll owner coins a = .ok () a' →
      (∀ p, p ∈ a'.holdings ↔ p ∈ a.holdings) ∧ ∀ x d, a'.holding x d =
        if x = owner then ⟨(a.holding x d).available + S d, (a.holding x d).frozen - S d⟩
        else a.holding x d) ∧
    (∀ fault a', releaseAll owner coins a = .error fault a' → a' = a) ∧
    ∀ a', freezeAll owner coins a = .ok () a' → releaseAll owner coins a' = .ok () a := by
  intro S
  refine ⟨?_, fun a' run => ?_, fun _ _ => freezeAll_error range, ?_, fun a' run => ?_,
    fun _ _ => releaseAll_error range, fun _ => releaseAll_of_freezeAll range⟩
  · rw [freezeAll_ok_iff range]
    exact forall_positive_iff (fun d => (range owner d).1) fun d => (range owner d).2
  · have moved := (freezeAll_ok range run).1
    exact ⟨moved.entries, moved.holding⟩
  · rw [releaseAll_ok_iff range]
    exact forall_positive_iff (fun d => (range owner d).2) fun d => (range owner d).1
  · have moved := (releaseAll_ok range run).1
    exact ⟨fun p => (moved.entries p).symm, moved.holding_source⟩

section NearlyFull

/-- An account with 1000 `cet` and 50 `usd`, and with so much `usd` frozen that 39 more is all that
can be. -/
def nearlyFull : Accounts :=
  (({} : Accounts).set ⟨"a"⟩ "cet" ⟨1000, 0⟩).set ⟨"a"⟩ "usd" ⟨50, Word.size - 40⟩

theorem nearlyFull_range : nearlyFull.InRange :=
  (inRange_empty.set (by decide) (by decide)).set (by decide) (by decide)

/-- Two amounts of `cet` are frozen as one, and released again. With 40 `usd` the freeze fails when
the `cet` is frozen already, and that is taken back. -/
theorem nearlyFull_exact :
    (∃ a', freezeAll ⟨"a"⟩ [⟨"cet", 600⟩, ⟨"usd", 0⟩, ⟨"cet", 400⟩] nearlyFull = .ok () a' ∧
      a'.holding ⟨"a"⟩ "cet" = ⟨0, 1000⟩ ∧
      releaseAll ⟨"a"⟩ [⟨"cet", 600⟩, ⟨"usd", 0⟩, ⟨"cet", 400⟩] a' = .ok () nearlyFull) ∧
    ∃ fault, freezeAll ⟨"a"⟩ [⟨"cet", 600⟩, ⟨"usd", 40⟩] nearlyFull = .error fault nearlyFull := by
  constructor
  · obtain ⟨succeeds, moves, -, -, -, -, restores⟩ := escrow_exact nearlyFull_range ⟨"a"⟩
      [⟨"cet", 600⟩, ⟨"usd", 0⟩, ⟨"cet", 400⟩]
    obtain ⟨a', run⟩ := succeeds.2 fun d positive => by
      by_cases cet : "cet" = d
      · subst cet
        decide
      · simp [cet] at positive
    exact ⟨a', run, (moves a' run).2 ⟨"a"⟩ "cet", restores a' run⟩
  · obtain ⟨succeeds, -, unchanged, -⟩ := escrow_exact nearlyFull_range ⟨"a"⟩
      [⟨"cet", 600⟩, ⟨"usd", 40⟩]
    cases run : freezeAll ⟨"a"⟩ [⟨"cet", 600⟩, ⟨"usd", 40⟩] nearlyFull with
    | ok u a' => exact absurd (succeeds.1 ⟨a', run⟩ "usd" (by decide)) (by decide)
    | error fault a' => exact ⟨fault, unchanged fault a' run ▸ rfl⟩

end NearlyFull

end Accounts

end Bourse
