import Bourse.Proofs.Taking

/-!
# The order in which orders came to the book does not matter

Orders that come in another order make other levels: the first order of a price writes the text of
the level's price. Matching looks at the sides of the book alone, which are the same.

* `Pass.Same.restingStep`, `Pass.Same.incomingStep`: steps of passes whose books are alike agree;
* `Alike.matchResting`, `Alike.matchIncoming`: so do the passes;
* `insertion_order_irrelevant`: hence a book is matched alike in whatever order its orders came.
-/

namespace Bourse

/-- The passes ended with the same outcome, the same next fill, and books whose sides drain in the
same order. -/
structure Matched.Same (m m' : Matched) : Prop where
  outcome : m'.outcome = m.outcome
  nextFill : m'.nextFill = m.nextFill
  drained : ∀ side, (m'.book.drain side).1 = (m.book.drain side).1

namespace Pass

variable {v : Venue} {p q : Pass} {t x : Order} {side : Side} {rest : List Order}

/-- The passes made the same fills and have books that are alike. -/
structure Same (p q : Pass) : Prop where
  book : p.book.Alike q.book
  nextFill : q.nextFill = p.nextFill
  crossing : q.crossing = p.crossing
  touched : q.touched = p.touched

section Same

variable (same : p.Same q)

include same

theorem Same.addFill (f : Fill) : (p.addFill f).Same (q.addFill f) := by
  refine ⟨same.book, ?_, ?_, same.touched⟩
  · exact congrArg (Word.wrapAdd · 1) same.nextFill
  · exact congrArg (Crossing.addFill · f) same.crossing

theorem Same.settleBest (front : p.book.orders side = x :: rest) (o : Order) :
    (p.settleBest side o).Same (q.settleBest side o) := by
  have set := same.book.setBest front o
  rw [Pass.settleBest, Pass.settleBest]
  split
  · obtain ⟨c, c', popped, popped', left⟩ := set.pop? (same.book.proper.setBest front o).2.1
    simp only [popped, popped']
    exact ⟨left, same.nextFill, congrArg (Crossing.addFilled · o) same.crossing,
      congrArg (·.erase o.id) same.touched⟩
  · exact ⟨set, same.nextFill, same.crossing, congrArg (·.insert o.id) same.touched⟩

/-- A step fills the heads of the sides, which are the same. -/
theorem Same.restingStep [Build] : Lockstep Same (Pass.restingStep v p) (Pass.restingStep v q) := by
  refine restingStep_lockstep same.book fun bid bids ask asks frontBid frontAsk maker price => ?_
  rw [same.nextFill]
  cases Fill.execute v p.nextFill maker price bid ask with
  | error fault => exact .fail fault
  | ok f =>
      have first : ((p.addFill f).settleBest .buy f.buyer).Same
          ((q.addFill f).settleBest .buy f.buyer) := (same.addFill f).settleBest frontBid f.buyer
      have settled := settleBest_settled (p := p.addFill f) same.book.proper frontBid f.buyer
      exact .go (first.settleBest (settled.opposite.trans frontAsk) f.seller)

/-- And so does a step of an order over the books. -/
theorem Same.incomingStep [Build] (t : Order) :
    Lockstep (fun s s' : Pass × Order => s.1.Same s'.1 ∧ s'.2 = s.2)
      (Pass.incomingStep v (p, t)) (Pass.incomingStep v (q, t)) := by
  have proper := same.book.proper
  have proper' := same.book.proper'
  have orders := same.book.orders t.side.opposite
  by_cases filled : t.remaining = 0
  · rw [incomingStep_of_filled filled, incomingStep_of_filled filled]
    exact .stop
  by_cases meet : ∃ maker others, p.book.orders t.side.opposite = maker :: others ∧
      t.crosses maker = true
  · obtain ⟨maker, others, front, crosses⟩ := meet
    rw [incomingStep_of_front proper filled front crosses,
      incomingStep_of_front proper' filled (orders.trans front) crosses, same.nextFill]
    cases Fill.taking v p.nextFill t maker with
    | error fault => exact .fail fault
    | ok f => exact .go ⟨(same.addFill f).settleBest front _, rfl⟩
  · have apart : ∀ maker ∈ (p.book.orders t.side.opposite).head?, t.crosses maker = false := by
      intro maker best
      rw [← Bool.not_eq_true]
      exact fun crosses => meet ⟨maker, _, List.eq_cons_of_mem_head? best, crosses⟩
    rw [incomingStep_none proper apart, incomingStep_none proper' (orders ▸ apart)]
    exact .stop

theorem Same.finish : q.finish = p.finish := by
  rw [Pass.finish, Pass.finish, same.crossing, same.touched, funext same.book.find?]

theorem Same.matched (ended : Except Fault Unit) : (p.matched ended).Same (q.matched ended) := by
  refine ⟨?_, same.nextFill, same.book.drain⟩
  rw [Pass.matched, Pass.matched, same.finish]

end Same

end Pass

namespace Book

variable {b b' : Book} {pair : PairId} {orders orders' : List Order}

section Matching

variable (alike : b.Alike b') (v : Venue) (seq : Nat)

include alike

theorem Alike.start : (Pass.start b seq).Same (.start b' seq) := ⟨alike, rfl, rfl, rfl⟩

/-- A pass does not tell books that are alike apart. -/
theorem Alike.matchResting [Build] : (matchResting v seq b).Same (matchResting v seq b') := by
  have agree : ∀ p q : Pass, p.Same q →
      Pass.Lockstep Pass.Same (Pass.restingStep v p) (Pass.restingStep v q) :=
    fun _ _ same => same.restingStep
  obtain ⟨ended, last⟩ := Pass.run_lockstep agree b.size _ _ (alike.start seq)
  rw [Bourse.matchResting, Bourse.matchResting, alike.size]
  simp only [← ended]
  exact last.matched _

theorem Alike.matchIncoming [Build] (t : Order) :
    (matchIncoming v seq b t).1.Same (matchIncoming v seq b' t).1 ∧
      (matchIncoming v seq b' t).2 = (matchIncoming v seq b t).2 := by
  have agree : ∀ s s' : Pass × Order, s.1.Same s'.1 ∧ s'.2 = s.2 →
      Pass.Lockstep (fun s s' : Pass × Order => s.1.Same s'.1 ∧ s'.2 = s.2)
        (Pass.incomingStep v s) (Pass.incomingStep v s') := by
    rintro ⟨p, t⟩ ⟨q, t'⟩ ⟨same, rfl⟩
    exact same.incomingStep t'
  obtain ⟨ended, last, taken⟩ :=
    Pass.run_lockstep agree (b.size + 1) (.start b seq, t) (.start b' seq, t) ⟨alike.start seq, rfl⟩
  rw [Bourse.matchIncoming, Bourse.matchIncoming, alike.size]
  simp only [← ended]
  exact ⟨last.matched _, taken⟩

end Matching

/-- Open orders of a market under different ids make a book in whatever order they come, and it is
matched alike: the same outcome or fault, the same number of the next fill, the same remainder of
the taker, and the same orders left in the same order. -/
theorem insertion_order_irrelevant [Build] (own : ∀ o ∈ orders, o.pair = pair)
    (unfilled : ∀ o ∈ orders, o.remaining ≠ 0) (ids : (orders.map (·.id)).Nodup)
    (perm : orders.Perm orders') :
    ∃ b b', ofOrders pair orders = .ok b ∧ ofOrders pair orders' = .ok b' ∧ ∀ v seq,
      (matchResting v seq b).Same (matchResting v seq b') ∧
      ∀ t, (matchIncoming v seq b t).1.Same (matchIncoming v seq b' t).1 ∧
        (matchIncoming v seq b' t).2 = (matchIncoming v seq b t).2 := by
  obtain ⟨b, run⟩ := ofOrders_total own unfilled ids
  obtain ⟨b', run'⟩ := ofOrders_total (fun o mem => own o (perm.mem_iff.2 mem))
    (fun o mem => unfilled o (perm.mem_iff.2 mem)) ((perm.map _).nodup_iff.1 ids)
  obtain ⟨sound, -, holds⟩ := ofOrders_ok run
  obtain ⟨sound', -, holds'⟩ := ofOrders_ok run'
  have alike := alike_of_perm sound (ofOrders_sorted run) sound' (ofOrders_sorted run')
    (holds.trans (perm.trans holds'.symm))
  exact ⟨b, b', run, run', fun v seq => ⟨alike.matchResting v seq, alike.matchIncoming v seq⟩⟩

/-- An offer at a price of 5, another at 5.0, and a bid for part of both. -/
def mixedOffers : List Order :=
  [offer,
    { offer with id := ⟨"d-1-0"⟩, price := 50, precision := 1, quantity := 2, remaining := 2 },
    laterBid]

section Checked

attribute [local instance] Build.checked

/-- The level of the offers is labelled 5 or 5.0, and matching does not see it. -/
theorem mixedOffers_insertion_order :
    ofOrders offer.pair mixedOffers ≠ ofOrders offer.pair mixedOffers.reverse ∧
    ∃ b b', ofOrders offer.pair mixedOffers = .ok b ∧
      ofOrders offer.pair mixedOffers.reverse = .ok b' ∧ ∀ v seq,
      (matchResting v seq b).Same (matchResting v seq b') ∧
      ∀ t, (matchIncoming v seq b t).1.Same (matchIncoming v seq b' t).1 ∧
        (matchIncoming v seq b' t).2 = (matchIncoming v seq b t).2 :=
  ⟨by decide +kernel, insertion_order_irrelevant (by decide) (by decide) (by decide)
    (List.reverse_perm _).symm⟩

end Checked

end Book

end Bourse
