import Bourse.Proofs.Conservation
import Bourse.Proofs.Soundness

/-!
# No false corruption

* `Market.Orderly`: the runs in which the heights of the blocks rise;
* `Orderly.sound`: at every point of such a run of a release build the ledger is sound;
* `orderly_never_corrupt`: so no message is ever refused for a corruption, and no block end fails.
-/

namespace Bourse

namespace Fault

theorem code_ne_of_mild {fault : Fault} (mild : fault.isFatal = false) : fault.code ≠ 900 := by
  cases fault <;> simp_all [code, isFatal]

end Fault

namespace Ledger

variable {l : Ledger} {base : Denom} {height : Nat}

theorem Sound.opened (sound : l.Sound base height) :
    (l.withStore l.store.openJournal).Sound base height :=
  ⟨sound.backed.opened, ⟨sound.ready.tables, sound.ready.unfilled, sound.ready.covered,
    sound.ready.listed⟩, sound.room, sound.below⟩

theorem Sound.committed (sound : l.Sound base height) :
    (l.withStore l.store.commit).Sound base height :=
  ⟨sound.backed.committed, ⟨sound.ready.tables, sound.ready.unfilled, sound.ready.covered,
    sound.ready.listed⟩, sound.room, sound.below⟩

theorem InRange.opened (words : l.InRange) : (l.withStore l.store.openJournal).InRange :=
  ⟨words.supply, words.ids⟩

end Ledger

namespace Market

variable {m m' : Market} {used used' : List Nat} {msg : Message} {header : Header}

/-- One step of a run, with the heights used before and after it. A block begins above all of them
and ends at the height at which it began. -/
inductive Advance [Build] : List Nat → Market → List Nat → Market → Prop
  | beginBlock {used : List Nat} {m : Market} (header : Header) :
      (∀ height ∈ used, height < header.height) →
      Advance used m (header.height :: used) (m.beginBlock header)
  | deliver {used : List Nat} {m : Market} (msg : Message) : msg.InRange →
      Advance used m (m.header.height :: used) (m.deliver msg).2
  | endBlock {used : List Nat} {m : Market} (header : Header) :
      header.height = m.header.height →
      Advance used m (header.height :: used) (m.endBlock header).2
  | deposit {used : List Nat} {m : Market} {accounts : Accounts} (x : Address) (coin : Coin) :
      m.ledger.clearing.accounts.deposit x coin = .ok accounts →
      Advance used m used { m with ledger := m.ledger.withAccounts accounts }
  | params {used : List Nat} {m : Market} (params : Params) :
      params.baseCurrency = m.params.baseCurrency → Advance used m used { m with params }
  | tokens {used : List Nat} {m : Market} (tokens : Tokens) :
      Advance used m used { m with tokens }

/-- The runs of which every step is such, and in which supplies and ids never outgrow a word. -/
inductive Orderly [Build] : List Nat → Market → Prop
  | start {m : Market} : m.Fresh → m.ledger.InRange → Orderly [] m
  | step {used used' : List Nat} {m m' : Market} : Orderly used m → Advance used m used' m' →
      m'.ledger.InRange → Orderly used' m'

theorem Advance.step [Build] (advance : Advance used m used' m') : Step m m' := by
  cases advance with
  | beginBlock header => exact .beginBlock m header
  | deliver msg => exact .deliver m msg
  | endBlock header => exact .endBlock m header
  | deposit x coin credited => exact .deposit x coin credited
  | params params same => exact .params m params same
  | tokens tokens => exact .tokens m tokens

theorem Orderly.reachable [Build] (orderly : Orderly used m) : m.Reachable := by
  induction orderly with
  | start fresh => exact .start fresh
  | step _ advance _ ih => exact .step ih advance.step

theorem Orderly.inRange [Build] (orderly : Orderly used m) : m.ledger.InRange := by
  cases orderly with
  | start _ words => exact words
  | step _ _ words => exact words

/-- The ledger is sound, and nothing was settled above the heights used. -/
structure Sound (used : List Nat) (m : Market) : Prop where
  ledger : m.ledger.Sound m.params.baseCurrency m.header.height
  marked : ∀ last ∈ m.ledger.clearing.watermark, ∃ height ∈ used, last.height ≤ height

theorem sound_of_below (ledger : m.ledger.Sound m.params.baseCurrency m.header.height) :
    Sound (m.header.height :: used) m := by
  refine ⟨ledger, fun last mem => ⟨m.header.height, List.mem_cons_self, ?_⟩⟩
  have lt := FillKey.lt_iff.1 (ledger.below last mem)
  dsimp only at lt
  omega

theorem Fresh.sound (fresh : m.Fresh) : Sound [] m := by
  have backed := fresh.backed.ledger
  have none := fresh.resting
  refine ⟨⟨backed, ⟨backed.tables, ?_, ?_, ?_⟩, ?_, ?_⟩, ?_⟩
  · simp [none]
  · simp [none]
  · simp [none]
  · simp [none, fresh.nextFill]
  · simp [Replay.Below, fresh.watermark]
  · simp [fresh.watermark]

section Release

attribute [local instance] Build.release

/-- What is delivered to a sound market is not refused for a corruption. -/
theorem Sound.deliver_mild (sound : Sound used m) (words : m.ledger.InRange)
    (range : msg.InRange) : (m.deliver msg).1.code ≠ 900 := by
  obtain ⟨fault, refused, failed⟩ | ⟨done, -, accepted, -⟩ := m.deliver_cases msg
  · rw [refused]
    apply Fault.code_ne_of_mild
    obtain ⟨checked, -⟩ | ⟨checked, run⟩ := failed
    · exact msg.check_mild fault checked
    · obtain ⟨l, failed⟩ := apply_failed run
      exact Ledger.execute_mild rfl checked range sound.ledger.opened words.opened fault l failed
  · rw [accepted]
    exact nofun

theorem Sound.deliver (sound : Sound used m) (backed : m.Backed) (words : m.ledger.InRange)
    (range : msg.InRange) : Sound (m.header.height :: used) (m.deliver msg).2 := by
  obtain ⟨_, -, ⟨-, same⟩ | ⟨-, run⟩⟩ | ⟨done, checked, -, run⟩ := m.deliver_cases msg
  · rw [same]
    exact sound_of_below sound.ledger
  · rw [apply_error backed.ledger.tables backed.idle backed.ledger.range run]
    exact sound_of_below sound.ledger
  · obtain ⟨l, acted, same⟩ := apply_ok run
    have kept := Ledger.execute_sound rfl checked range sound.ledger.opened words.opened acted
    rw [same]
    exact sound_of_below (m := { m with ledger := l.withStore l.store.commit }) kept.committed

/-- At the height at which it began, the block of a sound market ends. -/
theorem Sound.endBlock (sound : Sound used m) (words : m.ledger.InRange)
    (same : header.height = m.header.height) : ∃ report, (m.endBlock header).1 = .ok report ∧
      Sound (header.height :: used) (m.endBlock header).2 := by
  have start := sound.ledger.opened
  rw [← same] at start
  obtain ⟨out, l, ended, kept⟩ := Ledger.endBlock_total rfl start words.opened
  obtain ⟨_, -, run⟩ | ⟨report, batch, answered, run⟩ := m.endBlock_cases header
  · obtain ⟨t, failed⟩ := closeBlock_failed run
    rw [ended] at failed
    cases failed
  · obtain ⟨t, acted, next⟩ := closeBlock_ok run
    rw [ended] at acted
    obtain ⟨-, rfl⟩ := EStateM.Result.ok.inj acted
    refine ⟨report, answered, ?_⟩
    rw [next]
    exact sound_of_below (m := { m with header, ledger := l.withStore l.store.commit })
      kept.committed

/-- A block that begins above all heights used has numbers for all its fills. -/
theorem Sound.beginBlock (sound : Sound used m) (rises : ∀ height ∈ used, height < header.height) :
    Sound (header.height :: used) (m.beginBlock header) := by
  have l := sound.ledger
  refine ⟨⟨⟨l.backed.tables, l.backed.faithful, l.backed.range, l.backed.frozen⟩, l.ready, ?_, ?_⟩,
    ?_⟩
  · have room := l.room
    change 0 + m.ledger.store.resting.length ≤ m.ledger.store.tables.usedIds.size
    omega
  · intro last mem
    obtain ⟨height, member, le⟩ := sound.marked last mem
    exact .inl (Nat.lt_of_le_of_lt le (rises height member))
  · intro last mem
    obtain ⟨height, member, le⟩ := sound.marked last mem
    exact ⟨height, List.mem_cons_of_mem _ member, le⟩

theorem Sound.advance (sound : Sound used m) (backed : m.Backed) (words : m.ledger.InRange)
    (advance : Advance used m used' m') : Sound used' m' := by
  have l := sound.ledger
  have after := backed.step advance.step
  cases advance with
  | beginBlock header rises => exact sound.beginBlock rises
  | deliver msg range => exact sound.deliver backed words range
  | endBlock header same =>
      obtain ⟨_, -, kept⟩ := sound.endBlock words same
      exact kept
  | deposit x coin credited => exact ⟨⟨after.ledger, l.ready, l.room, l.below⟩, sound.marked⟩
  | params params same => exact ⟨⟨after.ledger, l.ready, l.room, l.below⟩, sound.marked⟩
  | tokens tokens => exact ⟨l, sound.marked⟩

theorem Orderly.sound (orderly : Orderly used m) : Sound used m := by
  induction orderly with
  | start fresh => exact fresh.sound
  | step before advance _ ih => exact ih.advance before.reachable.backed before.inRange advance

/-- In a run of a release build, whose counters wrap, and in which the heights of the blocks rise,
whatever is delivered is not refused for a corruption, and a block can always be ended. -/
theorem orderly_never_corrupt (orderly : Orderly used m) :
    (∀ msg : Message, msg.InRange → (m.deliver msg).1.code ≠ 900) ∧
      ∀ header : Header, header.height = m.header.height →
        ∃ report, (m.endBlock header).1 = .ok report := by
  constructor
  · intro msg range
    exact orderly.sound.deliver_mild orderly.inRange range
  · intro header same
    obtain ⟨report, ended, -⟩ := orderly.sound.endBlock orderly.inRange same
    exact ⟨report, ended⟩

section Offered

theorem funded_inRange : funded.ledger.InRange := by
  refine ⟨fun d => ?_, by decide⟩
  have paid := (({} : Accounts).set ⟨"a"⟩ "btc" ⟨9, 0⟩).supply_set_le ⟨"a"⟩ "cet" d
    ⟨1000003000000, 0⟩
  have stocked := ({} : Accounts).supply_set_le ⟨"a"⟩ "btc" d ⟨9, 0⟩
  have nothing : ({} : Accounts).supply d = 0 := by
    rw [Accounts.supply, Accounts.sumOf_eq]
    rfl
  simp only [funded, Word.size, Holding.total] at *
  split at paid <;> split at stocked <;> omega

theorem inRange_deliver {m : Market} {msg : Message} (range : m.ledger.clearing.accounts.InRange)
    (words : m.ledger.InRange)
    (ids : (m.deliver msg).2.ledger.store.tables.usedIds.size < Word.size) :
    (m.deliver msg).2.ledger.InRange :=
  ⟨fun d => by rw [(deliver_moved range msg).supply d]; exact words.supply d, ids⟩

/-- In the next block `a` also bids for 4 of what it offered. -/
def bidFor : Market :=
  let bid : PlaceOrder := ⟨⟨"a"⟩, 2, "btc/cet", .limit, 0, 6, 4, .buy, .goodTillExpire⟩
  ((offered.beginBlock ⟨1, 0⟩).deliver (.placeOrder bid)).2

/-- The block in which the bid meets the offer ends. -/
theorem bidFor_never_corrupt : (bidFor.deliver (.cancelOrder ⟨⟨"a"⟩, ⟨"a-1-0"⟩⟩)).1.code ≠ 900 ∧
    ∃ report, (bidFor.endBlock ⟨1, 0⟩).1 = .ok report := by
  have listed : Orderly [0] (funded.deliver (.createPair ⟨"btc", "cet", ⟨"a"⟩, 8⟩)).2 :=
    .step (.start funded_fresh funded_inRange) (.deliver _ trivial)
      (inRange_deliver funded_fresh.range funded_inRange (by decide +kernel))
  have offered : Orderly [0, 0] offered :=
    .step listed (.deliver _ (by decide : 7 < Word.size))
      (inRange_deliver listed.reachable.backed.ledger.range listed.inRange (by decide +kernel))
  have rises : ∀ height ∈ [0, 0], height < 1 := by decide
  have begun : Orderly [1, 0, 0] (Market.offered.beginBlock ⟨1, 0⟩) :=
    .step offered (.beginBlock ⟨1, 0⟩ rises) ⟨offered.inRange.supply, offered.inRange.ids⟩
  have bid : Orderly [1, 1, 0, 0] bidFor :=
    .step begun (.deliver _ (by decide : 4 < Word.size))
      (inRange_deliver begun.reachable.backed.ledger.range begun.inRange (by decide +kernel))
  exact ⟨(orderly_never_corrupt bid).1 _ trivial, (orderly_never_corrupt bid).2 _ rfl⟩

end Offered

end Release

end Market

end Bourse
