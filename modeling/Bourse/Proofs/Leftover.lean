import Bourse.Proofs.Taking
import Bourse.Proofs.Turns

/-!
# What a matching pass leaves booked

* `settleBest_sorted`: a fill leaves a sorted book sorted;
* `resting_isCrossed`: a pass over a book leaves it uncrossed;
* `incoming_idle`: a pass of an order ends when no step is left;
* `incoming_misses`: hence it fills the order, or leaves no order booked that it crosses.
-/

namespace Bourse

namespace Book

variable {b b' : Book} {side : Side} {x o : Order} {rest : List Order}

section Sorted

variable (sorted : b.Sorted)

include sorted

/-- A book stays sorted if a new state of a best order replaces it. -/
theorem Sorted.setBest (proper : b.Proper) (front : b.orders side = x :: rest)
    (same : o.terms = x.terms) : (b.setBest side o).Sorted := by
  obtain ⟨l, more, later, levels, own, -⟩ := proper.levels_of_front front
  have here := sorted side
  rw [levels, sortedLevels_cons, own] at here
  obtain ⟨worse, price, times, behind⟩ := here
  rw [List.forall_mem_cons] at price
  rw [List.pairwise_cons] at times
  have set : b.setBest side o = b.setLevels side (⟨l.price, o :: later⟩ :: more) := by
    simp [Book.setBest, levels, Level.setFront, own]
  rw [set]
  refine sorted.setLevels (sortedLevels_cons.2 ⟨worse, List.forall_mem_cons.2 ⟨?_, price.2⟩,
    List.pairwise_cons.2 ⟨fun y mem => ?_, times.2⟩, behind⟩)
  · rw [Order.effectivePrice_of_terms same]
    exact price.1
  · exact (Order.isEarlier_of_terms same rfl).trans (times.1 y mem)

/-- And if its best order leaves it. -/
theorem Sorted.pop? (popped : b.pop? side = some (x, b')) : b'.Sorted := by
  have here := sorted side
  rw [Book.pop?] at popped
  cases levels : b.levels side with
  | nil => simp [levels] at popped
  | cons l more =>
      rw [levels, sortedLevels_cons] at here
      obtain ⟨worse, price, times, behind⟩ := here
      cases own : l.orders with
      | nil => simp [levels, Level.pop?, own] at popped
      | cons y later =>
          rw [own, List.forall_mem_cons] at price
          rw [own, List.pairwise_cons] at times
          simp only [levels, Level.pop?, own, Option.some.injEq, Prod.mk.injEq] at popped
          obtain ⟨-, rfl⟩ := popped
          apply sorted.setLevels
          split
          · exact behind
          · exact sortedLevels_cons.2 ⟨worse, price.2, times.2, behind⟩

end Sorted

/-- The best price of a side is that of one of its orders. -/
theorem exists_of_bestPrice? {price : Decimal} (proper : b.Proper) (sorted : b.Sorted)
    (best : b.bestPrice? side = some price) :
    ∃ x ∈ b.orders side, side.cost x.effectivePrice = side.cost price := by
  rw [bestPrice?, Option.map_eq_some_iff] at best
  obtain ⟨l, head, rfl⟩ := best
  have mem := List.mem_of_mem_head? head
  obtain ⟨x, more, own⟩ := List.exists_cons_of_ne_nil (proper side l mem)
  have inLevel : x ∈ l.orders := own ▸ List.mem_cons_self
  exact ⟨x, List.mem_flatMap.2 ⟨l, mem, inLevel⟩, (sorted side).price l mem x inLevel⟩

/-- A book is not crossed if no two of its orders cross. -/
theorem isCrossed_of_apart (proper : b.Proper) (sorted : b.Sorted)
    (sides : ∀ side, ∀ o ∈ b.orders side, o.side = side)
    (apart : ∀ x ∈ b.orders .buy, ∀ y ∈ b.orders .sell, x.crosses y = false) :
    b.isCrossed = false := by
  rw [isCrossed]
  split
  · next bid ask bestBid bestAsk =>
      obtain ⟨x, buys, bidCost⟩ := exists_of_bestPrice? proper sorted bestBid
      obtain ⟨y, sells, askCost⟩ := exists_of_bestPrice? proper sorted bestAsk
      have apart := apart x buys y sells
      rw [← Bool.not_eq_true, Order.crosses_iff_cost (sides .buy x buys) (sides .sell y sells),
        Order.cost, Order.cost, sides .buy x buys, sides .sell y sells, bidCost, askCost,
        not_le] at apart
      rw [decide_eq_false_iff_not, Decimal.le_iff_value, not_le]
      simp only [Side.cost] at apart
      linarith
  · rfl

end Book

namespace Pass

variable {v : Venue} {b₀ : Book} {p p' : Pass} {side : Side} {x o t t' : Order}
  {rest : List Order} {seq : Nat} {c : Crossing}

/-- A fill leaves a sorted book sorted. -/
theorem settleBest_sorted (proper : p.book.Proper) (sorted : p.book.Sorted)
    (front : p.book.orders side = x :: rest) (same : o.terms = x.terms) :
    (p.settleBest side o).book.Sorted := by
  obtain ⟨set, own, -⟩ := proper.setBest front o
  have kept := sorted.setBest proper front same
  rw [settleBest]
  by_cases filled : o.remaining = 0
  · obtain ⟨b, popped, -⟩ := set.pop? own
    simp only [Order.isFilled, filled, beq_self_eq_true, ↓reduceIte, popped]
    exact kept.pop? popped
  · simp only [Order.isFilled, beq_iff_eq, filled, ↓reduceIte]
    exact kept

theorem restingStep_sorted [Build] (start : From b₀ p) (sorted : p.book.Sorted)
    (step : restingStep v p = some (.ok p')) : p'.book.Sorted := by
  obtain ⟨bid, ask, bestBid, bestAsk, -, step⟩ := restingStep_some step
  obtain ⟨f, run, done⟩ := Check.bind_ok.1 step.symm
  obtain rfl := Check.pure_ok.1 done
  obtain ⟨bids, frontBid⟩ := start.proper.front_of_best? bestBid
  obtain ⟨asks, frontAsk⟩ := start.proper.front_of_best? bestAsk
  obtain ⟨buyerTerms, sellerTerms⟩ := Fill.execute_terms run
  have bought := settleBest_settled (p := p.addFill f) start.proper frontBid f.buyer
  have sorted := settleBest_sorted (p := p.addFill f) start.proper sorted frontBid buyerTerms
  exact settleBest_sorted bought.proper sorted (bought.opposite.trans frontAsk) sellerTerms

/-- A pass over a sorted book that does not fail leaves it uncrossed. -/
theorem resting_isCrossed [Build] (sound : b₀.Sound) (sorted : b₀.Sorted)
    (words : ∀ o ∈ b₀.all, o.remaining < Word.size)
    (ended : (matchResting v seq b₀).outcome = .ok c) :
    (resting v seq b₀).book.isCrossed = false := by
  have start := resting_from sound v seq
  have kept : (resting v seq b₀).book.Sorted :=
    (resting_induction (P := fun p => p.book.Sorted) sound words sorted
      fun _ _ start _ sorted step => restingStep_sorted start sorted step).2
  exact Book.isCrossed_of_apart start.proper kept start.side
    fun x bid y ask => resting_uncrossed sound sorted ended bid ask

section Incoming

variable [Build]

/-- A step fills the order, or takes the best one of the other side out of the book. -/
theorem incomingStep_shrinks (proper : p.book.Proper)
    (step : incomingStep v (p, t) = some (.ok (p', t'))) :
    t.remaining ≠ 0 ∧ p'.crossing.trades.length = p.crossing.trades.length + 1 ∧
      (p.book.orders t.side.opposite).length ≠ 0 ∧ (t'.remaining = 0 ∨
        (p'.book.orders t.side.opposite).length + 1 = (p.book.orders t.side.opposite).length) := by
  obtain ⟨unfilled, x, rest, f, front, -, run, rfl, settled⟩ := incomingStep_settled proper step
  refine ⟨unfilled, ?_, by simp [front], (Fill.taking_completes run).imp_right fun filled => ?_⟩
  · rw [settled.trades]
    exact List.length_append
  · rw [settled.standing, Order.standing_of_filled filled, front]
    rfl

/-- A pass of an order that does not fail ends when no step is left: each takes an order out of the
book, and the last may fill the incoming one. -/
theorem incoming_idle (sound : b₀.Sound) (words : ∀ o ∈ b₀.all, o.remaining < Word.size)
    (word : t.remaining < Word.size) (ended : (matchIncoming v seq b₀ t).1.outcome = .ok c) :
    incomingStep v (incoming v seq b₀ t) = none := by
  refine run_exhausts (P := fun s : Pass × Order => Feeds b₀ t s.1 s.2)
    (fun s => if s.2.remaining = 0 then 0 else (s.1.book.orders t.side.opposite).length + 1)
    (fun s s' feeds step => incomingStep_feeds sound words word feeds step)
    (fun s r _ step => ?_) (fun s s' feeds step => ?_) _ _ (feeds_start sound seq t) ?_
    (finish_of_matched ended).1
  · rw [if_neg (incomingStep_some step).1]
    exact Nat.succ_pos _
  · obtain ⟨unfilled, -, -, less⟩ := incomingStep_shrinks feeds.from_book.proper step
    rw [Order.side_of_terms feeds.terms] at less
    rw [if_neg unfilled]
    split <;> omega
  · have most := ((b₀.all_perm t.side.opposite).length_eq.symm)
    rw [List.length_append] at most
    simp only [start, Book.size]
    split <;> omega

/-- A pass of an order that does not fail fills it, or leaves no order booked that it crosses. -/
theorem incoming_misses (sound : b₀.Sound) (sorted : b₀.Sorted)
    (words : ∀ o ∈ b₀.all, o.remaining < Word.size) (word : t.remaining < Word.size)
    (ended : (matchIncoming v seq b₀ t).1.outcome = .ok c) :
    (incoming v seq b₀ t).2.remaining = 0 ∨
      ∀ y ∈ (incoming v seq b₀ t).1.book.orders t.side.opposite,
        (incoming v seq b₀ t).2.crosses y = false := by
  have feeds := incoming_feeds sound words word v seq
  have idle := incoming_idle sound words word ended
  by_cases filled : (incoming v seq b₀ t).2.remaining = 0
  · exact .inl filled
  · right
    intro y mem
    obtain ⟨x, rest, front⟩ := List.exists_cons_of_ne_nil (List.ne_nil_of_mem mem)
    have side := Order.side_of_terms feeds.terms
    have opposite := feeds.from_book.side t.side.opposite
    have apart : (incoming v seq b₀ t).2.crosses x = false := by
      rw [← Bool.not_eq_true]
      intro crosses
      rw [← side] at front
      simp [incomingStep_of_front feeds.from_book.proper filled front crosses] at idle
    -- The orders behind the best one cost more.
    have ranked := feeds.other.ranked (sound.distinct _) (sorted.before sound.filed _)
    rw [front, List.pairwise_cons] at ranked
    have le : x.cost ≤ y.cost := by
      obtain rfl | behind := List.mem_cons.1 (front ▸ mem)
      · exact le_rfl
      · exact (ranked.1 y behind).cost_le
    have mine : x ∈ (incoming v seq b₀ t).1.book.orders t.side.opposite :=
      front ▸ List.mem_cons_self
    rw [← Bool.not_eq_true,
      Book.crosses_iff_cost_of_opposite ((opposite x mine).trans (congrArg _ side.symm))] at apart
    rw [← Bool.not_eq_true,
      Book.crosses_iff_cost_of_opposite ((opposite y mem).trans (congrArg _ side.symm))]
    linarith

end Incoming

end Pass

end Bourse
