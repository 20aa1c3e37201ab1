import Bourse.Proofs.Markets
import Bourse.Proofs.Runs
import Bourse.Proofs.Sweep

/-!
# The result of a block end

* `Store.Quiet`: nothing crosses in a due market and no request to delist is due; a block end leaves
  the store so (`endBlock_quiet`), and does nothing to a store that is so (`Quiet.endBlock`);
* `block_end_result`: what a block end that succeeds leaves and reports, market by market.
-/

namespace Bourse

namespace Store

variable {s s' s₁ s₂ : Store} {p : PairId} {height seq : Nat} {now : Int} {v : Venue}
  {ids due : List PairId} {trades : List Trade} {gone : List PairId}
  {used : List DelistRequest}

/-- The market has resting orders, and its record says that it is matched at this height. -/
def IsDue (s : Store) (height : Nat) (p : PairId) : Prop :=
  (∃ o, o ∈ s.tables.ordersOf p) ∧ ∃ q, s.pair? p = some q ∧ q.isMatchDue height = true

/-- No buy of the market reaches a sell of it. -/
def Uncrossed (s : Store) (p : PairId) : Prop :=
  ∀ x ∈ s.tables.ordersOf p, ∀ y ∈ s.tables.ordersOf p, x.side = .buy → y.side = .sell →
    ¬y.effectivePrice ≤ x.effectivePrice

theorem duePairs_ok : s.duePairs height ids = .ok due ↔
    (∀ p ∈ ids, (s.pair? p).isSome) ∧
      due = ids.filter fun p => (s.pair? p).any (·.isMatchDue height) := by
  induction ids generalizing due with
  | nil =>
      rw [duePairs, Except.ok.injEq, eq_comm (a := [])]
      simp
  | cons p rest ih =>
      rw [duePairs]
      cases found : s.pair? p with
      | none => simp [found]
      | some q =>
          simp only [Check.bind_ok, Check.pure_ok, ih, List.forall_mem_cons, found,
            Option.isSome_some, true_and, List.filter_cons, Option.any_some]
          constructor
          · rintro ⟨_, ⟨listed, rfl⟩, rfl⟩
            exact ⟨listed, rfl⟩
          · rintro ⟨listed, rfl⟩
            exact ⟨_, ⟨listed, rfl⟩, rfl⟩

theorem mem_due (wf : s.tables.WellFormed)
    (run : s.duePairs height s.tables.activePairs = .ok due) :
    p ∈ due ↔ s.IsDue height p := by
  obtain ⟨-, rfl⟩ := duePairs_ok.1 run
  rw [List.mem_filter, wf.mem_activePairs, IsDue]
  refine and_congr_right fun _ => ?_
  cases s.pair? p with
  | none => simp
  | some q => simp

/-- A pass leaves the market uncrossed. -/
theorem Crossed.uncrossed [Build] (crossed : Crossed v s s' p trades) : s'.Uncrossed p := by
  obtain ⟨b₀, seq, load, ended, -, left⟩ := crossed
  have sound := (Book.ofOrders_ok load).1
  have start := resting_from sound v seq
  have onSide : ∀ {o : Order} {side : Side}, o ∈ s'.tables.ordersOf p → o.side = side →
      o ∈ (Pass.resting v seq b₀).book.orders side := by
    intro o side mem own
    have mem := (left o).1 mem
    rw [((Pass.resting v seq b₀).book.all_perm side).mem_iff, List.mem_append] at mem
    refine mem.resolve_right fun mem => ?_
    have other := start.side _ o mem
    rw [own] at other
    cases side <;> cases other
  intro x mem y mem' buys sells reaches
  have apart := Pass.resting_uncrossed sound (Book.ofOrders_sorted load) ended
    (onSide mem buys) (onSide mem' sells)
  rw [← Bool.not_eq_true, Order.crosses_iff] at apart
  exact apart (.inl ⟨buys, sells, reaches⟩)

theorem Crossed.unfilled [Build] (crossed : Crossed v s s' p trades) :
    ∀ o ∈ s'.tables.ordersOf p, o.remaining ≠ 0 := by
  obtain ⟨b₀, seq, load, -, -, left⟩ := crossed
  intro o mem
  exact (resting_from (Book.ofOrders_ok load).1 v seq).unfilled o ((left o).1 mem)

/-- The trades are those of a pass over the market's orders alone, if that starts from zero or has a
number for each of them. -/
theorem Crossed.alone [Build] (crossed : Crossed v s s' p trades) {orders : List Order}
    (perm : orders.Perm (s.tables.ordersOf p)) (seq : Nat)
    (room : Build.isChecked = true → seq = 0 ∨ seq + orders.length ≤ Word.size) :
    ∃ b c, Book.ofOrders p orders = .ok b ∧ (matchResting v seq b).outcome = .ok c ∧
      c.trades.map Trade.unnumbered = trades.map Trade.unnumbered := by
  obtain ⟨b₀, seq₀, load, ended, rfl, -⟩ := crossed
  obtain ⟨sound, pair, all⟩ := Book.ofOrders_ok load
  have same : orders.Perm b₀.all := perm.trans all.symm
  have own : ∀ o ∈ orders, o.pair = p :=
    fun o mem => (sound.pair o (same.mem_iff.1 mem)).trans pair
  obtain ⟨b, built⟩ := Book.ofOrders_total own
    (fun o mem => sound.unfilled o (same.mem_iff.1 mem)) ((same.map _).nodup_iff.2 sound.ids)
  obtain ⟨sound', -, all'⟩ := Book.ofOrders_ok built
  have room' : Build.isChecked = true → seq ≤ seq₀ ∨ seq + b₀.all.length ≤ Word.size := by
    intro checked
    rw [← same.length_eq]
    have room := room checked
    omega
  obtain ⟨c, ended', trades⟩ := Pass.matchResting_alike sound (Book.ofOrders_sorted load) sound'
    (Book.ofOrders_sorted built) (same.symm.trans all'.symm) seq room' ended
  exact ⟨b, c, built, ended', trades⟩

/-- What makes a block end do nothing. -/
structure Quiet (height : Nat) (now : Int) (s : Store) : Prop where
  tables : s.tables.WellFormed
  listed : ∀ p ∈ s.tables.activePairs, (s.pair? p).isSome
  unfilled : ∀ p, s.IsDue height p → ∀ o ∈ s.tables.ordersOf p, o.remaining ≠ 0
  uncrossed : ∀ p, s.IsDue height p → s.Uncrossed p
  swept : s.tables.dueDelists now = []

theorem Quiet.opened (quiet : s.Quiet height now) : s.openJournal.Quiet height now :=
  ⟨quiet.tables, quiet.listed, quiet.unfilled, quiet.uncrossed, quiet.swept⟩

/-- Matching and a sweep leave the store quiet. -/
theorem quiet_of_swept [Build] (wf : s.tables.WellFormed)
    (listed : s.duePairs height s.tables.activePairs = .ok due)
    (matching : Matching v due s s₁ trades) (cleared : Cleared gone used s₁ s₂)
    (swept : s₂.tables.dueDelists now = []) : s₂.Quiet height now := by
  have stays : ∀ {p o}, o ∈ s₂.tables.ordersOf p → p ∉ gone := by
    intro p o mem removed
    rw [(cleared.removed p removed).1] at mem
    exact absurd mem List.not_mem_nil
  have active : ∀ {p o}, o ∈ s₂.tables.ordersOf p → ∃ o', o' ∈ s.tables.ordersOf p := by
    intro p o mem
    by_cases matched : p ∈ due
    · exact ((mem_due wf listed).1 matched).1
    · rw [(cleared.kept p (stays mem)).1, matching.others p matched] at mem
      exact ⟨o, mem⟩
  have record : ∀ {p o}, o ∈ s₂.tables.ordersOf p →
      (s₂.pair? p).map Pair.listing = (s.pair? p).map Pair.listing := by
    intro p o mem
    rw [(cleared.kept p (stays mem)).2, matching.listings p]
  -- A market that is due afterwards was due before, and so it was matched.
  have crossed : ∀ p, s₂.IsDue height p → ∃ trades, Crossed v s s₂ p trades := by
    rintro p ⟨⟨o, mem⟩, q₂, found₂, isDue⟩
    have same := record mem
    rw [found₂, Option.map_some] at same
    obtain ⟨q, found, listing⟩ := Option.map_eq_some_iff.1 same.symm
    have before : s.IsDue height p :=
      ⟨active mem, q, found, by rw [Pair.isMatchDue_of_listing listing, isDue]⟩
    exact ⟨_, (matching.crossed p ((mem_due wf listed).2 before)).frame_after
      (cleared.kept p (stays mem)).1⟩
  refine ⟨cleared.tables, fun p mem => ?_, fun p isDue => ?_, fun p isDue => ?_, swept⟩
  · obtain ⟨o, mem⟩ := cleared.tables.mem_activePairs.1 mem
    have known := (duePairs_ok.1 listed).1 p (wf.mem_activePairs.2 (active mem))
    have same := congrArg Option.isSome (record mem)
    rwa [Option.isSome_map, Option.isSome_map, known] at same
  · obtain ⟨trades, crossed⟩ := crossed p isDue
    exact crossed.unfilled
  · obtain ⟨trades, crossed⟩ := crossed p isDue
    exact crossed.uncrossed

/-- Nothing is matched in a market that is uncrossed. -/
theorem matchPair_idle [Build] (wf : s.tables.WellFormed)
    (unfilled : ∀ o ∈ s.tables.ordersOf p, o.remaining ≠ 0) (uncrossed : s.Uncrossed p)
    (v : Venue) (seq : Nat) : ∃ c, matchPair v seq p s = .ok (c, seq) s ∧ c.batch = {} := by
  obtain ⟨b, load⟩ := Book.ofOrders_total (fun o mem => (wf.mem_ordersOf.1 mem).2) unfilled
    (wf.nodup_ordersOf p)
  obtain ⟨sound, -, all⟩ := Book.ofOrders_ok load
  have idle : Pass.restingStep v (.start b seq) = none := by
    apply Pass.restingStep_none sound.proper .buy
    intro x best y best'
    have bid := List.mem_of_mem_head? best
    have ask := List.mem_of_mem_head? best'
    have buys := sound.side .buy x bid
    have sells := sound.side .sell y ask
    have booked : ∀ {o side}, o ∈ b.orders side → o ∈ s.tables.ordersOf p := fun {o side} mem =>
      all.mem_iff.1 ((b.all_perm side).mem_iff.2 (List.mem_append_left _ mem))
    rw [← Bool.not_eq_true, Order.crosses_iff]
    rintro (⟨-, -, reaches⟩ | ⟨sells', -⟩)
    · exact uncrossed x (booked bid) y (booked ask) buys sells reaches
    · rw [buys] at sells'
      cases sells'
  have ended : matchResting v seq b = (Pass.start b seq).matched (.ok ()) := by
    rw [matchResting, Pass.run_none idle]
  refine ⟨(Pass.start b seq).finish, Action.bind_ok.2 ⟨b, s, Action.ask_ok.2 ⟨load, rfl⟩, ?_⟩, rfl⟩
  rw [ended]
  exact Action.bind_ok.2 ⟨_, s, Action.ask_ok.2 ⟨rfl, rfl⟩, rfl⟩

theorem matchPairs_idle [Build] (wf : s.tables.WellFormed)
    (unfilled : ∀ p ∈ ids, ∀ o ∈ s.tables.ordersOf p, o.remaining ≠ 0)
    (uncrossed : ∀ p ∈ ids, s.Uncrossed p) (v : Venue) (seq : Nat) :
    matchPairs v seq ids s = .ok ({}, seq) s := by
  induction ids with
  | nil => rfl
  | cons p rest ih =>
      rw [List.forall_mem_cons] at unfilled uncrossed
      obtain ⟨c, idle, none⟩ := matchPair_idle wf unfilled.1 uncrossed.1 v seq
      refine matchPairs_cons_ok.2 ⟨c, seq, s, {}, idle, ih unfilled.2 uncrossed.2, ?_⟩
      rw [none]
      rfl

end Store

namespace Ledger

variable {l l' : Ledger} {params : Params} {header : Header} {report : Report} {batch : Batch}

/-- A block end does nothing to a ledger whose store is quiet. -/
theorem endBlock_idle [Build] (quiet : l.store.Quiet header.height header.time)
    (counted : l.clearing.settledTrades < Word.size) :
    endBlock params header l = .ok (Report.of header.height [] {}, {}) l := by
  refine endBlock_ok.2 ⟨_, {}, l.nextFill, l.store, {}, l.store, l.clearing,
    Store.duePairs_ok.2 ⟨quiet.listed, rfl⟩, ?_, ?_, Clearing.settled_effects [] counted, rfl,
    rfl, rfl⟩
  · have due : ∀ p ∈ l.store.tables.activePairs.filter
        fun p => (l.store.pair? p).any (·.isMatchDue header.height),
        l.store.IsDue header.height p := fun p mem =>
      (Store.mem_due quiet.tables (Store.duePairs_ok.2 ⟨quiet.listed, rfl⟩)).1 mem
    exact Store.matchPairs_idle quiet.tables (fun p mem => quiet.unfilled p (due p mem))
      (fun p mem => quiet.uncrossed p (due p mem)) _ _
  · refine Action.bind_ok.2 ⟨l.store, l.store, Action.get_ok.2 ⟨rfl, rfl⟩, ?_⟩
    rw [quiet.swept]
    rfl

/-- What a block end does to the store, and what it reports of it. -/
theorem endBlock_swept [Build] (wf : l.store.tables.WellFormed)
    (run : endBlock params header l = .ok (report, batch) l') :
    ∃ due s₁, l.store.duePairs header.height l.store.tables.activePairs = .ok due ∧
      Store.Matching (venue params header.height) due l.store s₁ report.trades ∧
      Store.Cleared report.delisted (s₁.tables.dueDelists header.time) s₁ l'.store ∧
      (∀ p, p ∈ report.delisted ↔ s₁.Doomed header.time p) ∧
      l'.store.tables.dueDelists header.time = [] ∧
      report.trades.Pairwise fun t t' => (compare t.pair t'.pair).isLE := by
  obtain ⟨due, matched, nextFill, s₁, sweep, s₂, clearing, listed, passed, swept, -, rfl, rfl,
    rfl⟩ := endBlock_ok.1 run
  have sorted : due.Pairwise fun p q => compare p q = .lt := by
    rw [(Store.duePairs_ok.1 listed).2]
    exact l.store.tables.byPair.ordered_keys.filter _
  have distinct : due.Nodup := sorted.imp fun less same => by simp [same] at less
  have matching := Store.matchPairs_matching wf distinct passed
  have trades : (matched ++ ({ effects := sweep.effects } : Batch)).trades = matched.trades :=
    List.append_nil _
  obtain ⟨cleared, reported⟩ := Store.sweepDue_ok matching.tables swept
  have none := (cleared.purged matching.tables reported.delisted).dueDelists (le_refl header.time)
  refine ⟨due, s₁, listed, ?_, cleared, reported.delisted, none, ?_⟩
  · rw [Report.of, trades]
    exact matching
  · rw [Report.of, trades]
    exact Store.matchPairs_ascending sorted passed wf

end Ledger

namespace Market

variable {m : Market} {h : History} {header : Header} {report : Report}

theorem Intact.endBlock_idle [Build] (intact : m.Intact)
    (quiet : m.ledger.store.Quiet header.height header.time) :
    m.endBlock header = (.ok (Report.of header.height [] {}), { m with header }) := by
  have acted : Ledger.endBlock m.params header (m.ledger.withStore m.ledger.store.openJournal) =
      .ok (Report.of header.height [] {}, {}) (m.ledger.withStore m.ledger.store.openJournal) :=
    Ledger.endBlock_idle quiet.opened intact.counted
  have closed : Ledger.atomically (Ledger.endBlock m.params header) m.ledger =
      (.ok (Report.of header.height [] {}, {}), m.ledger) := by
    refine Ledger.atomically_ok.2 ⟨_, acted, ?_⟩
    have idle : m.ledger.store.openJournal.commit = m.ledger.store := by
      rw [Store.commit, Store.openJournal, ← intact.idle]
    exact congrArg m.ledger.withStore idle.symm
  rw [endBlock, closeBlock, closed]
  rfl

/-- A block end that succeeds leaves every due market uncrossed, reports the trades of the due
markets grouped by market, those of each as if there were no other, leaves alone what is neither due
nor delisted, and would do nothing if it were repeated. The pass over a market alone may start at
any number; in a checked build at zero, or at one that leaves a number for every order. -/
theorem block_end_result [Build] (run : Run h m) (ended : (m.endBlock header).1 = .ok report) :
    (∀ p, m.ledger.store.IsDue header.height p → p ∉ report.delisted →
      (m.endBlock header).2.ledger.store.Uncrossed p) ∧
    (report.trades.Pairwise (fun t t' => (compare t.pair t'.pair).isLE) ∧
      (∀ t ∈ report.trades, m.ledger.store.IsDue header.height t.pair) ∧
      ∀ p, m.ledger.store.IsDue header.height p → ∀ orders, orders.Perm (m.ordersOf p) → ∀ seq,
        (Build.isChecked = true → seq = 0 ∨ seq + orders.length ≤ Word.size) →
        ∃ b c, Book.ofOrders p orders = .ok b ∧
          (matchResting (Ledger.venue m.params header.height) seq b).outcome = .ok c ∧
          c.trades.map Trade.unnumbered =
            (report.trades.filter (·.pair = p)).map Trade.unnumbered) ∧
    (∀ p, ¬m.ledger.store.IsDue header.height p → p ∉ report.delisted →
      (m.endBlock header).2.ordersOf p = m.ordersOf p) ∧
    ∃ again, (m.endBlock header).2.endBlock header = (.ok again, (m.endBlock header).2) ∧
      again.isEmpty = true := by
  have intact := run.intact
  obtain ⟨_, failed, -⟩ | ⟨report', batch, ended', run⟩ := m.endBlock_cases header
  · simp [failed] at ended
  obtain rfl := Except.ok.inj (ended'.symm.trans ended)
  have intact' := intact.closeBlock_ok run
  obtain ⟨l, acted, same⟩ := closeBlock_ok run
  have wf : (m.ledger.withStore m.ledger.store.openJournal).store.tables.WellFormed :=
    intact.tables
  obtain ⟨due, s₁, listed, matching, cleared, -, swept, ascending⟩ := Ledger.endBlock_swept wf acted
  have isDue : ∀ p, p ∈ due ↔ m.ledger.store.IsDue header.height p :=
    fun p => (Store.mem_due wf listed :)
  have quiet : l.store.Quiet header.height header.time :=
    Store.quiet_of_swept wf listed matching cleared swept
  have ledger : (m.endBlock header).2.ledger = l.withStore l.store.commit := by rw [same]
  have tables : (m.endBlock header).2.ledger.store.tables = l.store.tables := by rw [ledger]; rfl
  refine ⟨fun p hp stays => ?_, ⟨ascending, fun t mem => (isDue t.pair).1 (matching.only t mem),
    fun p hp orders perm seq room => ?_⟩, fun p idle stays => ?_, ?_⟩
  · rw [Store.Uncrossed, tables]
    exact ((matching.crossed p ((isDue p).2 hp)).frame_after (cleared.kept p stays).1).uncrossed
  · exact (matching.crossed p ((isDue p).2 hp)).alone perm seq room
  · rw [ordersOf, tables, (cleared.kept p stays).1]
    exact matching.others p fun mem => idle ((isDue p).1 mem)
  · have still : (m.endBlock header).2.ledger.store.Quiet header.height header.time := by
      rw [ledger]
      exact ⟨quiet.tables, quiet.listed, quiet.unfilled, quiet.uncrossed, quiet.swept⟩
    have again := intact'.endBlock_idle still
    refine ⟨Report.of header.height [] {}, again.trans ?_, rfl⟩
    rw [same]

section Checked

attribute [local instance] Build.checked

/-- The block in which a bid meets an offer ends: nothing is left crossed, and to end it again does
nothing. -/
theorem quoted_ends : (quoted.endBlock ⟨1, 0⟩).2.ledger.store.Uncrossed ⟨"btc/cet"⟩ ∧
    ∃ again, (quoted.endBlock ⟨1, 0⟩).2.endBlock ⟨1, 0⟩ = (.ok again, (quoted.endBlock ⟨1, 0⟩).2) ∧
      again.isEmpty = true := by
  have delisted : (quoted.endBlock ⟨1, 0⟩).1.toOption.map (·.delisted) = some [] := by
    decide +kernel
  have rests : (quoted.ordersOf ⟨"btc/cet"⟩).map (·.id) = [⟨"a-1-0"⟩, ⟨"b-1-0"⟩] := by
    decide +kernel
  have isDue : (quoted.ledger.store.pair? ⟨"btc/cet"⟩).map (·.isMatchDue 1) = some true := by
    decide +kernel
  obtain ⟨q, found, isDue⟩ := Option.map_eq_some_iff.1 isDue
  cases ended : (quoted.endBlock ⟨1, 0⟩).1 with
  | error fault => simp [ended, Except.toOption] at delisted
  | ok report =>
      obtain ⟨uncrossed, -, -, again⟩ := block_end_result quoted_run ended
      refine ⟨uncrossed ⟨"btc/cet"⟩ ⟨?_, q, found, isDue⟩ ?_, again⟩
      · exact List.exists_mem_of_ne_nil _ fun empty => by simp [ordersOf, empty] at rests
      · have none : report.delisted = [] := by simpa [ended, Except.toOption] using delisted
        simp [none]

end Checked

end Market

end Bourse
