import Bourse.Proofs.Priority
import Bourse.Proofs.Steps
import Mathlib.Tactic.Linarith

/-!
# A pass over a book ends when nothing crosses

* `run_exhausts`: a run whose steps shrink what it has to do ends because there is no step left;
* `resting_uncrossed`: so no orders cross that a pass over a sorted book leaves in it;
* `matchResting_alike`: a pass over the same orders makes the same trades, whatever their numbers.
-/

namespace Bourse

theorem Word.wrapSub_self (a : Nat) : wrapSub a a = 0 := by
  rw [wrapSub, Nat.add_sub_cancel_left, Nat.mod_self]

namespace Fill

variable {v : Venue} {seq seq' : Nat} {maker : Side} {price : Decimal} {buyer seller : Order}
  {f : Fill}

/-- A fill completes one of its orders. -/
theorem execute_completes [Build] (run : execute v seq maker price buyer seller = .ok f) :
    f.buyer.remaining = 0 ∨ f.seller.remaining = 0 := by
  obtain ⟨money, -, -, -, -, rfl⟩ := execute_ok.1 run
  simp only [made, remaining_close, settle, Order.recordFill]
  obtain smaller | smaller : volume buyer seller = buyer.remaining ∨
      volume buyer seller = seller.remaining := by
    rw [volume]
    omega
  · exact .inl (smaller ▸ Word.wrapSub_self _)
  · exact .inr (smaller ▸ Word.wrapSub_self _)

/-- The fill under another number. -/
def renumber (v : Venue) (seq : Nat) (f : Fill) : Fill :=
  { f with trade := { f.trade with id := .ofFill v.height seq, fillSeq := seq } }

/-- The number of a fill has no influence on it, if it has room for the next. -/
theorem execute_renumber [Build] (run : execute v seq maker price buyer seller = .ok f)
    (room : Build.isChecked = true → seq' + 1 < Word.size) :
    execute v seq' maker price buyer seller = .ok (f.renumber v seq') := by
  obtain ⟨money, counted, pays, delivers, fits, rfl⟩ := execute_ok.1 run
  refine execute_ok.2 ⟨money, counted, pays, delivers, fun checked => ?_, ?_⟩
  · obtain ⟨bought, sold, -⟩ := hasRoom_iff.1 (fits checked)
    exact hasRoom_iff.2 ⟨bought, sold, room checked⟩
  · cases maker with
    | buy => rfl
    | sell => rfl

end Fill

/-- The trade but for its number and the name that it has from it. -/
def Trade.unnumbered (t : Trade) : Trade := { t with id := .ofFill t.height 0, fillSeq := 0 }

namespace Pass

variable {v : Venue} {b₀ b b' : Book} {p p' q q' : Pass} {seq seq' : Nat} {c : Crossing}

section Exhausts

/-- A run whose steps shrink what there is to do, and which has as many steps as that, ends because
there is nothing left. -/
theorem run_exhausts {σ : Type} {step : σ → Option (Except Fault σ)} {P : σ → Prop}
    (size : σ → Nat) (keeps : ∀ s s', P s → step s = some (.ok s') → P s')
    (busy : ∀ s r, P s → step s = some r → 0 < size s)
    (shrinks : ∀ s s', P s → step s = some (.ok s') → size s' < size s) :
    ∀ (n : Nat) (s : σ), P s → size s ≤ n → (run step n s).1 = .ok () →
      step (run step n s).2 = none := by
  intro n
  induction n with
  | zero =>
      intro s holds bound _
      rw [run]
      cases made : step s with
      | none => rfl
      | some r =>
          have positive := busy s r holds made
          omega
  | succ n ih =>
      intro s holds bound ended
      rw [run] at ended ⊢
      cases made : step s with
      | none => exact made
      | some r =>
          simp only [made] at ended ⊢
          cases r with
          | error fault => cases ended
          | ok s' =>
              have smaller := shrinks s s' holds made
              exact ih s' (keeps s s' holds made) (by omega) ended

/-- What a step fills, and what that makes of the pass. -/
theorem restingStep_made [Build] (proper : p.book.Proper) (step : restingStep v p = some (.ok p')) :
    ∃ bid bids ask asks f, p.book.orders .buy = bid :: bids ∧ p.book.orders .sell = ask :: asks ∧
      Fill.execute v p.nextFill (terms bid ask).1 (terms bid ask).2 bid ask = .ok f ∧
      Made f p p' := by
  obtain ⟨bid, ask, bestBid, bestAsk, -, step⟩ := restingStep_some step
  obtain ⟨f, run, done⟩ := Check.bind_ok.1 step.symm
  obtain rfl := Check.pure_ok.1 done
  obtain ⟨bids, frontBid⟩ := proper.front_of_best? bestBid
  obtain ⟨asks, frontAsk⟩ := proper.front_of_best? bestAsk
  exact ⟨bid, bids, ask, asks, f, frontBid, frontAsk, run,
    made_of_fronts proper frontBid frontAsk f⟩

/-- Each side of the book is in the order of priority. -/
def Ordered (p : Pass) : Prop := ∀ side, (p.book.orders side).Pairwise Order.Before

theorem Made.ordered {f : Fill} (made : Made f p p') (ordered : p.Ordered)
    (same : ∀ side, ∃ x rest, p.book.orders side = x :: rest ∧ (f.party side).terms = x.terms) :
    p'.Ordered := by
  intro side
  obtain ⟨x, rest, front, terms⟩ := same side
  have sorted := ordered side
  rw [front, List.pairwise_cons] at sorted
  rw [made.sides, front, List.tail_cons]
  by_cases filled : (f.party side).remaining = 0
  · rw [Order.standing_of_filled filled]
    exact sorted.2
  · rw [Order.standing_of_open filled]
    exact List.pairwise_cons.2
      ⟨fun y mem => (Order.before_of_terms terms rfl).2 (sorted.1 y mem), sorted.2⟩

/-- A step takes an order off the book, which held at least two. -/
theorem restingStep_shrinks [Build] (proper : p.book.Proper)
    (step : restingStep v p = some (.ok p')) :
    p'.book.all.length < p.book.all.length ∧ 2 ≤ p.book.all.length := by
  obtain ⟨bid, bids, ask, asks, f, frontBid, frontAsk, run, made⟩ := restingStep_made proper step
  have buys := made.sides .buy
  have sells := made.sides .sell
  rw [frontBid, List.tail_cons] at buys
  rw [frontAsk, List.tail_cons] at sells
  rw [Book.all, Book.all, buys, sells, frontBid, frontAsk]
  have lengths : (f.party .buy).standing.length + (f.party .sell).standing.length < 2 := by
    have buyer := f.buyer.length_standing_le
    have seller := f.seller.length_standing_le
    obtain filled | filled := Fill.execute_completes run
    · simp only [Fill.party, Order.standing_of_filled filled, List.length_nil]
      omega
    · simp only [Fill.party, Order.standing_of_filled filled, List.length_nil]
      omega
  simp only [List.length_append, List.length_cons]
  omega

/-- A step leaves the sides in order. -/
theorem restingStep_ordered [Build] (proper : p.book.Proper) (ordered : p.Ordered)
    (step : restingStep v p = some (.ok p')) : p'.Ordered := by
  obtain ⟨bid, bids, ask, asks, f, frontBid, frontAsk, run, made⟩ := restingStep_made proper step
  obtain ⟨sameBid, sameAsk⟩ := Fill.execute_terms run
  apply made.ordered ordered
  exact (Side.forall_iff .buy).2
    ⟨⟨bid, bids, frontBid, sameBid⟩, ⟨ask, asks, frontAsk, sameAsk⟩⟩

theorem restingStep_keeps_ordered [Build] (sound : b₀.Sound) (p p' : Pass)
    (holds : From b₀ p ∧ p.Ordered) (step : restingStep v p = some (.ok p')) :
    From b₀ p' ∧ p'.Ordered :=
  ⟨(restingStep_filled sound holds.1 step).1, restingStep_ordered holds.1.proper holds.2 step⟩

theorem resting_ordered [Build] (sound : b₀.Sound) (sorted : b₀.Sorted) (v : Venue) (seq : Nat) :
    (resting v seq b₀).Ordered :=
  (run_induction (P := fun p => From b₀ p ∧ p.Ordered) (restingStep_keeps_ordered sound) _ _
    ⟨from_start sound seq, sorted.before sound.filed⟩).2

/-- A pass that does not fail ends because nothing crosses any more. -/
theorem resting_exhausted [Build] (sound : b₀.Sound) (sorted : b₀.Sorted)
    (ended : (matchResting v seq b₀).outcome = .ok c) :
    restingStep v (resting v seq b₀) = none := by
  refine run_exhausts (P := fun p => From b₀ p ∧ p.Ordered) (fun p => p.book.all.length)
    (restingStep_keeps_ordered sound) (fun p r holds step => ?_) (fun p p' holds step => ?_)
    b₀.size (start b₀ seq) ⟨from_start sound seq, sorted.before sound.filed⟩ le_rfl
    (finish_of_matched ended).1
  · obtain ⟨bid, ask, bestBid, -⟩ := restingStep_some step
    obtain ⟨bids, front⟩ := holds.1.proper.front_of_best? bestBid
    exact List.length_pos_of_mem (mem_all_of_front front)
  · exact (restingStep_shrinks holds.1.proper step).1

/-- No orders cross that a pass leaves in the book. -/
theorem resting_uncrossed [Build] (sound : b₀.Sound) (sorted : b₀.Sorted)
    (ended : (matchResting v seq b₀).outcome = .ok c) {x y : Order}
    (bid : x ∈ (resting v seq b₀).book.orders .buy)
    (ask : y ∈ (resting v seq b₀).book.orders .sell) : x.crosses y = false := by
  have start := resting_from sound v seq
  have ordered := resting_ordered sound sorted v seq
  have idle := resting_exhausted sound sorted ended
  have best : ∀ {z : Order} {side : Side}, z ∈ (resting v seq b₀).book.orders side →
      ∃ x rest, (resting v seq b₀).book.orders side = x :: rest ∧ x.cost ≤ z.cost := by
    intro z side mem
    obtain ⟨x, rest, front⟩ := List.exists_cons_of_ne_nil (List.ne_nil_of_mem mem)
    have before := ordered side
    rw [front, List.pairwise_cons] at before
    refine ⟨x, rest, front, ?_⟩
    obtain rfl | behind := List.mem_cons.1 (front ▸ mem)
    · exact le_rfl
    · exact (before.1 z behind).cost_le
  obtain ⟨x', bids, frontBid, costBid⟩ := best bid
  obtain ⟨y', asks, frontAsk, costAsk⟩ := best ask
  have apart := not_crosses_of_restingStep_none start.proper idle frontBid frontAsk
  have buys := start.side .buy
  have sells := start.side .sell
  rw [← Bool.not_eq_true, Order.crosses_iff_cost (buys x' (frontBid ▸ List.mem_cons_self))
    (sells y' (frontAsk ▸ List.mem_cons_self))] at apart
  rw [← Bool.not_eq_true, Order.crosses_iff_cost (buys x bid) (sells y ask)]
  linarith

end Exhausts

section Alike

/-- Two passes have the same orders booked and made the same trades but for their numbers. -/
structure Alike (p q : Pass) : Prop where
  book : p.book.Alike q.book
  trades : q.crossing.trades.map Trade.unnumbered = p.crossing.trades.map Trade.unnumbered

theorem Alike.idle [Build] (alike : Alike p q) (ended : restingStep v p = none) :
    restingStep v q = none := by
  cases step : restingStep v q with
  | none => rfl
  | some r =>
      obtain ⟨bid, ask, bestBid, bestAsk, crosses, -⟩ := restingStep_some step
      obtain ⟨bids, frontBid⟩ := alike.book.proper'.front_of_best? bestBid
      obtain ⟨asks, frontAsk⟩ := alike.book.proper'.front_of_best? bestAsk
      have apart := not_crosses_of_restingStep_none alike.book.proper ended
        ((alike.book.orders .buy).symm.trans frontBid)
        ((alike.book.orders .sell).symm.trans frontAsk)
      rw [crosses] at apart
      cases apart

/-- The second pass follows a step of the first, if it has a number left. -/
theorem Alike.follow [Build] (alike : Alike p q) (step : restingStep v p = some (.ok p'))
    (room : Build.isChecked = true → q.nextFill + 1 < Word.size) :
    ∃ q', restingStep v q = some (.ok q') ∧ Alike p' q' ∧
      q'.nextFill = Word.wrapAdd q.nextFill 1 := by
  obtain ⟨bid, ask, bestBid, bestAsk, crosses, step⟩ := restingStep_some step
  obtain ⟨f, run, done⟩ := Check.bind_ok.1 step.symm
  obtain rfl := Check.pure_ok.1 done
  have orders := alike.book.orders
  obtain ⟨bids, frontBid⟩ := alike.book.proper.front_of_best? bestBid
  obtain ⟨asks, frontAsk⟩ := alike.book.proper.front_of_best? bestAsk
  have frontBid' := (orders .buy).trans frontBid
  have frontAsk' := (orders .sell).trans frontAsk
  have made := made_of_fronts alike.book.proper frontBid frontAsk f
  have made' := made_of_fronts alike.book.proper' frontBid' frontAsk' (f.renumber v q.nextFill)
  have step' := restingStep_of_fronts (v := v) alike.book.proper' frontBid' frontAsk' crosses
  rw [Fill.execute_renumber run room] at step'
  refine ⟨_, step', ⟨⟨made.proper, made'.proper, fun side => ?_⟩, ?_⟩, made'.nextFill⟩
  · rw [made.sides, made'.sides, orders]
    cases side <;> rfl
  · rw [made.trades, made'.trades, List.map_append, List.map_append, alike.trades]
    rfl

/-- A pass makes the same trades of the same orders, in whatever order these came and from whatever
number on that is no later or leaves one for each order. -/
theorem matchResting_alike [Build] (sound : b.Sound) (sorted : b.Sorted) (sound' : b'.Sound)
    (sorted' : b'.Sorted) (perm : b.all.Perm b'.all) (seq' : Nat)
    (room : Build.isChecked = true → seq' ≤ seq ∨ seq' + b.all.length ≤ Word.size)
    (ended : (matchResting v seq b).outcome = .ok c) :
    ∃ c', (matchResting v seq' b').outcome = .ok c' ∧
      c'.trades.map Trade.unnumbered = c.trades.map Trade.unnumbered := by
  have follow : ∀ p q p', (Alike p q ∧ (Build.isChecked = true →
        q.nextFill ≤ p.nextFill ∨ q.nextFill + p.book.all.length ≤ Word.size)) →
      restingStep v p = some (.ok p') → ∃ q', restingStep v q = some (.ok q') ∧ Alike p' q' ∧
        (Build.isChecked = true →
          q'.nextFill ≤ p'.nextFill ∨ q'.nextFill + p'.book.all.length ≤ Word.size) := by
    intro p q p' ⟨alike, room⟩ step
    obtain ⟨smaller, two⟩ := restingStep_shrinks alike.book.proper step
    obtain ⟨_, _, _, _, f, -, -, run, made⟩ := restingStep_made alike.book.proper step
    have next := Fill.execute_next run
    have left : Build.isChecked = true → q.nextFill + 1 < Word.size := by
      intro checked
      have room := room checked
      have next := next checked
      omega
    obtain ⟨q', step', alike', next'⟩ := alike.follow step left
    refine ⟨q', step', alike', fun checked => ?_⟩
    have room := room checked
    rw [next', made.nextFill, Word.wrapAdd_of_lt (left checked), Word.wrapAdd_of_lt (next checked)]
    omega
  have start : Alike (start b seq) (start b' seq') :=
    ⟨Book.alike_of_perm sound sorted sound' sorted' perm, rfl⟩
  obtain ⟨done, rfl⟩ := finish_of_matched ended
  obtain ⟨same, alike, -⟩ := run_follow (fun p q related idle => related.1.idle idle) follow b.size
    _ _ ⟨start, room⟩ done
  have size : b.size = b'.size := perm.length_eq
  rw [size] at same
  refine ⟨(resting v seq' b').finish, ?_, ?_⟩
  · change (Except.map (fun _ => (resting v seq' b').finish)
      (run (restingStep v) b'.size (Pass.start b' seq')).1) = _
    rw [same]
    rfl
  · rw [resting, ← size]
    exact alike.trades

end Alike

end Pass

end Bourse
