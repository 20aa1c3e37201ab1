import Bourse.Proofs.Priority
import Bourse.Proofs.Resting
import Bourse.Proofs.Steps
import Mathlib.Tactic.Linarith

/-!
# An order is filled alike on arrival and from the book

An order that crosses a book that is not crossed itself beats every order of its own side, so booked
it becomes the best of them and stays it until it is filled or crosses no more.

* `Sorted.apart`: the orders of a book that is not crossed do not cross;
* `orders_of_crosses`: an order that crosses the other side is booked at the head of its own;
* `Heads`: how a pass over the book with the order relates to the pass of the order over the book;
  `Heads.step`: their steps agree;
* `incoming_agrees_with_resting`: so do the passes.
-/

namespace Bourse

namespace Book

variable {b b' : Book} {side : Side} {t x y : Order} {levels more : List Level} {l k : Level}

theorem SortedLevels.best_le (sorted : SortedLevels side (l :: more)) (mem : k ∈ l :: more) :
    side.cost l.price ≤ side.cost k.price := by
  rcases List.mem_cons.1 mem with rfl | mem
  · exact le_rfl
  · exact ((sortedLevels_cons.1 sorted).1 k mem).le

/-- The best price of a side is at least as good as that of any of its orders. -/
theorem Sorted.best_le (sorted : b.Sorted) (filed : b.Filed) (mem : x ∈ b.orders side) :
    ∃ price, b.bestPrice? side = some price ∧ side.cost price ≤ x.cost := by
  obtain ⟨k, inSide, inLevel⟩ := List.mem_flatMap.1 mem
  have own : x.side = side := filed.side side x mem
  have cost : x.cost = side.cost k.price := by
    rw [Order.cost, own]
    exact (sorted side).price k inSide x inLevel
  have sorted := sorted side
  rw [bestPrice?]
  cases found : b.levels side with
  | nil => simp [found] at inSide
  | cons l more =>
      rw [found] at sorted inSide
      exact ⟨l.price, rfl, cost ▸ sorted.best_le inSide⟩

/-- No orders of a book cross if its best prices do not. -/
theorem Sorted.apart (sorted : b.Sorted) (filed : b.Filed) (uncrossed : b.isCrossed = false)
    (bid : x ∈ b.orders .buy) (ask : y ∈ b.orders .sell) : x.crosses y = false := by
  obtain ⟨p, bestBid, bidLe⟩ := sorted.best_le filed bid
  obtain ⟨q, bestAsk, askLe⟩ := sorted.best_le filed ask
  simp only [isCrossed, bestBid, bestAsk, decide_eq_false_iff_not] at uncrossed
  rw [Decimal.le_iff_value, not_le] at uncrossed
  rw [← Bool.not_eq_true, Order.crosses_iff_cost (filed.side .buy x bid) (filed.side .sell y ask),
    not_le]
  simp only [Side.cost] at bidLe askLe
  linarith

/-- The same with a side named first. -/
theorem Sorted.apart_of_sides (sorted : b.Sorted) (filed : b.Filed)
    (uncrossed : b.isCrossed = false) (side : Side) :
    ∀ x ∈ b.orders side, ∀ y ∈ b.orders side.opposite, x.crosses y = false := by
  intro x own y other
  cases side with
  | buy => exact sorted.apart filed uncrossed own other
  | sell =>
      rw [Order.crosses_comm]
      exact sorted.apart filed uncrossed other own

theorem crosses_iff_cost_of_opposite (other : y.side = x.side.opposite) :
    x.crosses y = true ↔ x.cost + y.cost ≤ 0 := by
  cases own : x.side with
  | buy => exact Order.crosses_iff_cost own (other.trans (own ▸ rfl))
  | sell =>
      rw [Order.crosses_comm, add_comm]
      exact Order.crosses_iff_cost (other.trans (own ▸ rfl)) own

/-- What crosses an order that another one of its side does not cross is better than that. -/
theorem cost_lt_of_crosses (same : x.side = t.side) (other : y.side = t.side.opposite)
    (crosses : t.crosses y = true) (apart : x.crosses y = false) : t.cost < x.cost := by
  rw [crosses_iff_cost_of_opposite other] at crosses
  rw [← Bool.not_eq_true, crosses_iff_cost_of_opposite (same ▸ other), not_le] at apart
  linarith

section Insert

variable (sound : b.Sound) (sorted : b.Sorted) (run : b.insert t = .ok b')

include sound sorted run

/-- What is booked beside the order is what was booked. -/
theorem filter_insert : (b'.orders t.side).filter (·.id ≠ t.id) = b.orders t.side := by
  have fresh : ∀ x ∈ b.orders t.side, x.id ≠ t.id := by
    intro x mem same
    have known : b.contains t.id = true := contains_iff.2
      (same ▸ List.mem_map_of_mem ((b.all_perm t.side).mem_iff.2 (List.mem_append_left _ mem)))
    simp [(insert_ok.1 run).2.2.1] at known
  have kept : (b.orders t.side).filter (·.id ≠ t.id) = b.orders t.side :=
    List.filter_eq_self.2 (by simpa using fresh)
  have perm := (orders_insert run).1.filter (·.id ≠ t.id)
  rw [List.filter_cons_of_neg (by simp), kept] at perm
  exact eq_of_before perm (((sorted.insert run).before (sound.insert run).filed t.side).filter _)
    (sorted.before sound.filed t.side)

/-- An order that crosses the other side of a book that is not crossed heads its own. -/
theorem orders_of_crosses (uncrossed : b.isCrossed = false) (mem : y ∈ b.orders t.side.opposite)
    (crosses : t.crosses y = true) : b'.orders t.side = t :: b.orders t.side := by
  refine eq_of_before (orders_insert run).1
    ((sorted.insert run).before (sound.insert run).filed t.side)
    (List.pairwise_cons.2 ⟨fun x own => .inl ?_, sorted.before sound.filed t.side⟩)
  exact cost_lt_of_crosses (sound.side _ x own) (sound.side _ y mem) crosses
    (sorted.apart_of_sides sound.filed uncrossed t.side x own y mem)

end Insert

end Book

namespace Pass

variable {v : Venue} {b : Book} {p q p' q' : Pass} {t t' y : Order} {rest : List Order} {f : Fill}

/-- Two passes made the same fills, and `t'` is what became of the order `t` that only the first
one has booked. -/
structure Abreast (t : Order) (q p : Pass) (t' : Order) : Prop where
  terms : t'.terms = t.terms
  filled : q.crossing.filled.filter (·.id ≠ t.id) = p.crossing.filled
  gone : q.crossing.filled.filter (·.id = t.id) = t'.done
  touched : ∀ k, k ∈ p.touched ↔ k ≠ t.id ∧ k ∈ q.touched
  trades : q.crossing.trades = p.crossing.trades
  effects : q.crossing.effects = p.crossing.effects
  lastPrice : q.crossing.lastPrice = p.crossing.lastPrice
  nextFill : q.nextFill = p.nextFill

/-- And the order stands at the head of its side, on which no other order crosses, and is later than
the orders of the other side. -/
structure Heads (t : Order) (q p : Pass) (t' : Order) : Prop extends Abreast t q p t' where
  properBooked : q.book.Proper
  proper : p.book.Proper
  own : q.book.orders t.side = t'.standing ++ p.book.orders t.side
  opposite : q.book.orders t.side.opposite = p.book.orders t.side.opposite
  apart : ∀ x ∈ p.book.orders t.side, ∀ y ∈ p.book.orders t.side.opposite, x.crosses y = false
  later : ∀ y ∈ p.book.orders t.side.opposite, y.isEarlier t = true
  others : ∀ y ∈ p.book.orders t.side.opposite, y.id ≠ t.id

/-- A fill of the order with an order of the other side, in both passes. -/
theorem Abreast.fill (abreast : Abreast t q p t') (unfilled : t'.remaining ≠ 0) (ne : y.id ≠ t.id)
    (terms : (f.party t.side).terms = t'.terms)
    (terms' : (f.party t.side.opposite).terms = y.terms) (made : Made f q q')
    (settled : Settled t.side.opposite y (f.party t.side.opposite) rest (p.addFill f) p') :
    Abreast t q' p' (f.party t.side) := by
  have id : (f.party t.side).id = t.id := Order.id_of_terms (terms.trans abreast.terms)
  have id' : (f.party t.side.opposite).id = y.id := Order.id_of_terms terms'
  refine ⟨terms.trans abreast.terms, ?_, ?_, fun k => ?_, ?_, ?_, ?_, ?_⟩
  · have left := f.filter_done t.side.opposite (P := fun o => o.id ≠ t.id) (id' ▸ ne)
      (by simpa [Side.opposite_opposite] using id)
    rw [made.filled, List.append_assoc, List.filter_append, abreast.filled, left, settled.done]
    rfl
  · have left := f.filter_done t.side (P := fun o => o.id = t.id) id (id' ▸ ne)
    rw [made.filled, List.append_assoc, List.filter_append, abreast.gone, left,
      Order.done_of_open unfilled, List.nil_append]
  · have untouched : t.id ∉ p.touched := fun mem => ((abreast.touched t.id).1 mem).1 rfl
    have apart : f.buyer.id ≠ f.seller.id := by
      have apart : (f.party t.side).id ≠ (f.party t.side.opposite).id := by
        rw [id, id']
        exact ne.symm
      generalize t.side = side at apart
      cases side with
      | buy => exact apart
      | sell => exact apart.symm
    rw [settled.mem_touched, made.touched apart, Side.exists_iff t.side,
      Side.forall_iff t.side, id, id']
    by_cases own : k = t.id
    · simp [own, ne.symm, untouched, addFill]
    · simp [own, abreast.touched k, addFill]
  · rw [made.trades, settled.trades, abreast.trades]
    rfl
  · rw [made.effects, settled.effects, abreast.effects]
    rfl
  · rw [made.lastPrice, settled.lastPrice]
    rfl
  · rw [made.nextFill, settled.nextFill, abreast.nextFill]
    rfl

section Step

variable (heads : Heads t q p t')

include heads

/-- A fill of the order with the best one of the other side, in both passes. -/
theorem Heads.fill (unfilled : t'.remaining ≠ 0)
    (front : p.book.orders t.side.opposite = y :: rest)
    (terms : (f.party t.side).terms = t'.terms)
    (terms' : (f.party t.side.opposite).terms = y.terms) (made : Made f q q')
    (settled : Settled t.side.opposite y (f.party t.side.opposite) rest (p.addFill f) p') :
    Heads t q' p' (f.party t.side) := by
  have ne : y.id ≠ t.id := heads.others y (front ▸ List.mem_cons_self)
  have kept : p'.book.orders t.side = p.book.orders t.side := by
    have kept := settled.opposite
    rwa [Side.opposite_opposite] at kept
  -- Whatever depends on the terms alone carries over to the order that was filled.
  have onOther : ∀ {P : Order → Prop}, (∀ x x' : Order, x'.terms = x.terms → P x → P x') →
      (∀ x ∈ p.book.orders t.side.opposite, P x) → ∀ x ∈ p'.book.orders t.side.opposite, P x := by
    intro P stable holds x mem
    rw [front] at holds
    rw [settled.standing, List.mem_append, Order.mem_standing] at mem
    obtain ⟨rfl, -⟩ | mem := mem
    · exact stable y _ terms' (holds y List.mem_cons_self)
    · exact holds x (.tail y mem)
  refine ⟨heads.toAbreast.fill unfilled ne terms terms' made settled, made.proper, settled.proper,
    ?_, ?_, ?_, ?_, ?_⟩
  · rw [made.sides, heads.own, Order.standing_of_open unfilled, kept]
    rfl
  · rw [made.sides, heads.opposite, front, settled.standing]
    rfl
  · intro x own
    rw [kept] at own
    exact onOther (fun y y' same apart => (Order.crosses_of_terms rfl same).trans apart)
      (heads.apart x own)
  · exact onOther (fun y y' same later => (Order.isEarlier_of_terms same rfl).trans later)
      heads.later
  · exact onOther (fun y y' same ne => Order.id_of_terms same ▸ ne) heads.others

/-- Neither pass fills anything once the order is filled or does not cross the best one of the other
side. -/
theorem Heads.idle [Build] (misses : t'.remaining ≠ 0 →
    ∀ y ∈ (p.book.orders t.side.opposite).head?, t'.crosses y = false) :
    restingStep v q = none ∧ incomingStep v (p, t') = none := by
  constructor
  · apply restingStep_none heads.properBooked t.side
    intro x best y best'
    rw [heads.own] at best
    rw [heads.opposite] at best'
    by_cases filled : t'.remaining = 0
    · rw [Order.standing_of_filled filled, List.nil_append] at best
      exact heads.apart x (List.mem_of_mem_head? best) y (List.mem_of_mem_head? best')
    · rw [Order.standing_of_open filled, List.singleton_append, List.head?_cons,
        Option.mem_some_iff] at best
      exact best ▸ misses filled y best'
  · by_cases filled : t'.remaining = 0
    · exact incomingStep_of_filled filled
    · apply incomingStep_none heads.proper
      rw [Order.side_of_terms heads.terms]
      exact misses filled

/-- The steps of the two passes agree. -/
theorem Heads.step [Build] : Lockstep (fun q s => Heads t q s.1 s.2) (restingStep v q)
    (incomingStep v (p, t')) := by
  have side : t'.side = t.side := Order.side_of_terms heads.terms
  by_cases meets : t'.remaining ≠ 0 ∧ ∃ y ∈ (p.book.orders t.side.opposite).head?,
      t'.crosses y = true
  · obtain ⟨unfilled, y, best, crosses⟩ := meets
    obtain ⟨rest, front⟩ : ∃ rest, p.book.orders t.side.opposite = y :: rest :=
      ⟨_, List.eq_cons_of_mem_head? best⟩
    have booked : y ∈ p.book.orders t.side.opposite := front ▸ List.mem_cons_self
    have earlier : y.isEarlier t' = true :=
      (Order.isEarlier_of_terms rfl heads.terms).trans (heads.later y booked)
    have own := heads.own
    have opposite := heads.opposite.trans front
    rw [Order.standing_of_open unfilled, List.singleton_append] at own
    rw [restingStep_of_later heads.properBooked (side ▸ own) (side ▸ opposite) crosses earlier
        (Order.not_isEarlier_of_isEarlier earlier),
      incomingStep_of_front heads.proper unfilled (side ▸ front) crosses, heads.nextFill]
    cases run : Fill.taking v p.nextFill t' y with
    | error fault => exact .fail fault
    | ok f =>
        obtain ⟨same, same'⟩ := Fill.taking_terms run
        rw [side] at same same' ⊢
        have full : ∀ side, q.book.orders side ≠ [] :=
          (Side.forall_iff t.side).2 ⟨by simp [own], by simp [opposite]⟩
        exact .go (heads.fill unfilled front same same' (made_of_full heads.properBooked full f)
          (settleBest_settled (p := p.addFill f) heads.proper front _))
  · have misses : t'.remaining ≠ 0 →
        ∀ y ∈ (p.book.orders t.side.opposite).head?, t'.crosses y = false := by
      intro unfilled y best
      simpa using fun crosses => meets ⟨unfilled, y, best, crosses⟩
    obtain ⟨stopped, stopped'⟩ := heads.idle (v := v) misses
    rw [stopped, stopped']
    exact .stop

end Step

theorem finish_updated (p : Pass) :
    p.finish.updated = p.touched.toList.filterMap p.book.find? := rfl

/-- A set is listed in order, so what lacks one element is listed as the rest. -/
theorem toList_eq_filter {ids more : Std.ExtTreeSet OrderId} {id : OrderId}
    (lacks : ∀ k, k ∈ ids ↔ k ≠ id ∧ k ∈ more) : ids.toList = more.toList.filter (· ≠ id) := by
  have nodup : ∀ l : Std.ExtTreeSet OrderId, l.toList.Nodup := fun l =>
    l.ordered_toList.imp fun less same => by simp [same] at less
  have sorted := more.ordered_toList.filter (· ≠ id)
  have perm : ids.toList.Perm (more.toList.filter (· ≠ id)) :=
    (List.perm_ext_iff_of_nodup (nodup ids) ((nodup more).filter _)).2 fun k => by
      rw [Std.ExtTreeSet.mem_toList, lacks, List.mem_filter, Std.ExtTreeSet.mem_toList]
      simp [and_comm]
  refine perm.eq_of_pairwise (fun _ _ _ _ first second => ?_) ids.ordered_toList sorted
  exact absurd first (Std.OrientedCmp.not_lt_of_lt second)

end Pass

namespace Crossing

/-- The outcome `c'` of a pass in which `t'` takes part from the book is that of a pass `c` in which
it takes part from outside. -/
structure Beside (t' : Order) (c c' : Crossing) : Prop where
  trades : c'.trades = c.trades
  effects : c'.effects = c.effects
  lastPrice : c'.lastPrice = c.lastPrice
  updated : c'.updated.filter (·.id ≠ t'.id) = c.updated
  filled : c'.filled.filter (·.id ≠ t'.id) = c.filled
  gone : c'.filled.filter (·.id = t'.id) = t'.done

end Crossing

/-- Both passes fail alike, or have one outcome, and leave the same orders beside `t'`. -/
structure Matched.Beside (t' : Order) (m m' : Matched) : Prop where
  outcome : (∃ fault, m.outcome = .error fault ∧ m'.outcome = .error fault) ∨
    ∃ c c', m.outcome = .ok c ∧ m'.outcome = .ok c' ∧ c.Beside t' c'
  nextFill : m'.nextFill = m.nextFill
  others : ∀ side, (m'.book.orders side).filter (·.id ≠ t'.id) = m.book.orders side
  record : m'.book.all.filter (·.id = t'.id) = t'.standing

namespace Pass

variable {v : Venue} {b b' : Book} {p q : Pass} {t t' : Order} {seq : Nat}

section Ends

variable (abreast : Abreast t q p t')
  (others : ∀ side, (q.book.orders side).filter (·.id ≠ t.id) = p.book.orders side)

include abreast others

theorem Abreast.updated : q.finish.updated.filter (·.id ≠ t.id) = p.finish.updated := by
  have all : p.book.all = q.book.all.filter (·.id ≠ t.id) := by
    rw [Book.all, Book.all, List.filter_append, others, others]
  rw [finish_updated, finish_updated, toList_eq_filter abreast.touched, List.filter_filterMap,
    List.filterMap_filter]
  congr 1
  funext k
  by_cases own : k = t.id
  · cases found : q.book.find? k with
    | none => simp [own]
    | some o =>
        have same : o.id = k := by simpa using List.find?_some found
        simp [own, same]
  · have same : p.book.find? k = q.book.find? k := by
      rw [Book.find?, all, List.find?_filter, Book.find?]
      congr 1
      funext o
      by_cases id : o.id = k <;> simp [id, own]
    cases found : q.book.find? k with
    | none => simp [same, found]
    | some o =>
        have id : o.id = k := by simpa using List.find?_some found
        simp [same, found, own, id]

/-- Passes that are abreast end alike. -/
theorem Abreast.beside (perm : q.book.all.Perm (t'.standing ++ p.book.all))
    (fresh : ∀ o ∈ p.book.all, o.id ≠ t.id) (ended : Except Fault Unit) :
    (p.matched ended).Beside t' (q.matched ended) := by
  have id : t'.id = t.id := Order.id_of_terms abreast.terms
  refine ⟨?_, abreast.nextFill, fun side => id ▸ others side, ?_⟩
  · cases ended with
    | error fault => exact .inl ⟨fault, rfl, rfl⟩
    | ok _ =>
        exact .inr ⟨_, _, rfl, rfl, abreast.trades, abreast.effects, abreast.lastPrice,
          id ▸ abreast.updated others, id ▸ abreast.filled, id ▸ abreast.gone⟩
  · have mine : t'.standing.filter (·.id = t'.id) = t'.standing :=
      List.filter_eq_self.2 fun o mem => by simp [(Order.mem_standing.1 mem).1]
    have none : p.book.all.filter (·.id = t'.id) = [] :=
      List.filter_eq_nil_iff.2 fun o mem => by simpa [id] using fresh o mem
    have perm := perm.filter (·.id = t'.id)
    rw [List.filter_append, mine, none, List.append_nil] at perm
    by_cases filled : t'.remaining = 0
    · rw [Order.standing_of_filled filled] at perm ⊢
      exact List.perm_nil.1 perm
    · rw [Order.standing_of_open filled] at perm ⊢
      exact List.perm_singleton.1 perm

end Ends

/-- A pass that heads its side is abreast to the end. -/
theorem Heads.beside (heads : Heads t q p t') (fresh : ∀ o ∈ p.book.all, o.id ≠ t.id)
    (ended : Except Fault Unit) : (p.matched ended).Beside t' (q.matched ended) := by
  have kept : ∀ side, ∀ o ∈ p.book.orders side, o.id ≠ t.id := fun side o mem =>
    fresh o ((p.book.all_perm side).mem_iff.2 (List.mem_append_left _ mem))
  have keeps : ∀ side, (p.book.orders side).filter (·.id ≠ t.id) = p.book.orders side :=
    fun side => List.filter_eq_self.2 (by simpa using kept side)
  have drops : t'.standing.filter (·.id ≠ t.id) = [] := List.filter_eq_nil_iff.2 fun o mem => by
    simp [(Order.mem_standing.1 mem).1, Order.id_of_terms heads.terms]
  refine heads.toAbreast.beside ((Side.forall_iff t.side).2 ⟨?_, ?_⟩) ?_ fresh ended
  · rw [heads.own, List.filter_append, drops, keeps, List.nil_append]
  · rw [heads.opposite, keeps]
  · have before := q.book.all_perm t.side
    rw [heads.own, heads.opposite, List.append_assoc] at before
    exact before.trans ((p.book.all_perm t.side).symm.append_left _)

theorem abreast_start (unfilled : t.remaining ≠ 0) :
    Abreast t (start b' seq) (start b seq) t where
  terms := rfl
  filled := rfl
  gone := (Order.done_of_open unfilled).symm
  touched k := by simp [start]
  trades := rfl
  effects := rfl
  lastPrice := rfl
  nextFill := rfl

end Pass

namespace Book

section Agreement

variable {b b' : Book} {t : Order} {seq : Nat} {v : Venue}

/-- Passes that start with the order at the head of its side agree. -/
theorem matchIncoming_beside [Build] (sound : b.Sound) (pair : t.pair = b.pair)
    (fresh : ∀ o ∈ b.all, o.id ≠ t.id) (size : b'.size = b.size + 1)
    (heads : Pass.Heads t (.start b' seq) (.start b seq) t) :
    (matchIncoming v seq b t).1.Beside (matchIncoming v seq b t).2 (matchResting v seq b') := by
  have agree : ∀ (q : Pass) (s : Pass × Order), Pass.Heads t q s.1 s.2 →
      Pass.Lockstep (fun q s => Pass.Heads t q s.1 s.2) (Pass.restingStep v q)
        (Pass.incomingStep v s) := fun _ _ heads => heads.step
  obtain ⟨ended, heads⟩ := Pass.run_lockstep agree (b.size + 1) (.start b' seq) (.start b seq, t)
    heads
  have start : (Pass.incoming v seq b t).1.From b := incoming_from sound v seq pair
  have others : ∀ o ∈ (Pass.incoming v seq b t).1.book.all, o.id ≠ t.id := by
    intro o mem same
    have known : o.id ∈ b.all.map (·.id) := start.known.2 (.inl (List.mem_map_of_mem mem))
    obtain ⟨x, booked, id⟩ := List.mem_map.1 known
    exact fresh x booked (id.trans same)
  have matched : matchResting v seq b' =
      (Pass.run (Pass.restingStep v) (b.size + 1) (.start b' seq)).2.matched
        (Pass.run (Pass.incomingStep v) (b.size + 1) (.start b seq, t)).1 := by
    rw [matchResting, size, ← ended]
  rw [matched]
  exact heads.beside others _

/-- And passes that have nothing to fill. -/
theorem matchIncoming_beside_of_apart [Build] (sound : b.Sound) (sorted : b.Sorted)
    (run : b.insert t = .ok b') (fresh : ∀ o ∈ b.all, o.id ≠ t.id)
    (apart : ∀ x ∈ b.orders t.side, ∀ y ∈ b.orders t.side.opposite, x.crosses y = false)
    (misses : ∀ y ∈ b.orders t.side.opposite, t.crosses y = false) :
    (matchIncoming v seq b t).1.Beside (matchIncoming v seq b t).2 (matchResting v seq b') := by
  have sound' := sound.insert run
  have unfilled : t.remaining ≠ 0 := (insert_ok.1 run).2.1
  obtain ⟨own, other⟩ := orders_insert run
  have idle : Pass.restingStep v (.start b' seq) = none := by
    apply Pass.restingStep_none sound'.proper t.side
    intro x best y best'
    have mem : y ∈ b.orders t.side.opposite := other ▸ List.mem_of_mem_head? best'
    obtain rfl | mem' := List.mem_cons.1 (own.mem_iff.1 (List.mem_of_mem_head? best))
    · exact misses y mem
    · exact apart x mem' y mem
  have idle' : Pass.incomingStep v (.start b seq, t) = none :=
    Pass.incomingStep_none sound.proper fun y best => misses y (List.mem_of_mem_head? best)
  rw [matchResting, matchIncoming, Pass.run_none idle, Pass.run_none idle']
  have kept : (b.orders t.side.opposite).filter (·.id ≠ t.id) = b.orders t.side.opposite := by
    refine List.filter_eq_self.2 fun o mem => ?_
    simpa using fresh o ((b.all_perm t.side).mem_iff.2 (List.mem_append_right _ mem))
  refine (Pass.abreast_start unfilled).beside ((Side.forall_iff t.side).2 ⟨?_, ?_⟩) ?_ fresh _
  · exact filter_insert sound sorted run
  · exact (congrArg _ other).trans kept
  · rw [Order.standing_of_open unfilled]
    exact all_insert run

/-- An order that is later than the orders of the other side of a book that is not crossed is
filled alike whether it is matched on arrival or booked first. -/
theorem incoming_agrees_with_resting [Build] (v : Venue) (seq : Nat) (sound : b.Sound)
    (sorted : b.Sorted) (uncrossed : b.isCrossed = false) (pair : t.pair = b.pair)
    (unfilled : t.remaining ≠ 0)
    (fresh : ∀ o ∈ b.all, o.id ≠ t.id)
    (later : ∀ y ∈ b.orders t.side.opposite, y.isEarlier t = true) :
    ∃ b', b.insert t = .ok b' ∧
      (matchIncoming v seq b t).1.Beside (matchIncoming v seq b t).2 (matchResting v seq b') := by
  have absent : b.contains t.id = false := by
    simpa [Book.contains] using fresh
  have run := Book.insert_ok.2 ⟨pair, unfilled, absent, rfl⟩
  refine ⟨_, run, ?_⟩
  generalize b.setLevels t.side (Book.place t (b.levels t.side)) = b' at run ⊢
  have apart := sorted.apart_of_sides sound.filed uncrossed t.side
  by_cases meets : ∃ y ∈ b.orders t.side.opposite, t.crosses y = true
  · obtain ⟨y, mem, crosses⟩ := meets
    have heads : Pass.Heads t (.start b' seq) (.start b seq) t :=
      ⟨Pass.abreast_start unfilled, (sound.insert run).proper, sound.proper,
        Order.standing_of_open unfilled ▸ orders_of_crosses sound sorted run uncrossed mem crosses,
        (orders_insert run).2, apart, later,
        fun y mem => fresh y ((b.all_perm t.side).mem_iff.2 (List.mem_append_right _ mem))⟩
    exact matchIncoming_beside sound pair fresh (all_insert run).length_eq heads
  · refine matchIncoming_beside_of_apart sound sorted run fresh apart fun y mem => ?_
    simpa using fun crosses => meets ⟨y, mem, crosses⟩

section Offer

attribute [local instance] Build.checked

/-- An offer of 7 at a price of 5. -/
def offer : Order where
  id := ⟨"a-1-0"⟩
  sender := ⟨"a"⟩
  sequence := 1
  pair := ⟨"btc/cet"⟩
  side := .sell
  kind := .limit
  timeInForce := .goodTillExpire
  price := 5
  precision := 0
  quantity := 7
  remaining := 7
  frozenFee := 0
  frozenPrincipal := 7
  dealStock := 0
  dealMoney := 0
  height := 2
  status := .opened

/-- A later bid for 4 at a price of 5.0. -/
def laterBid : Order :=
  { offer with
    id := ⟨"b-1-0"⟩, sender := ⟨"b"⟩, side := .buy, price := 50, precision := 1, quantity := 4
    remaining := 4, frozenPrincipal := 20, height := 3 }

/-- The market in which the offer rests. -/
def offering : Book := ⟨offer.pair, [], [⟨offer.effectivePrice, [offer]⟩]⟩

/-- The bid is filled by the offer. -/
theorem laterBid_agrees :
    (matchIncoming ⟨3, ⟨"c"⟩, "cet"⟩ 0 offering laterBid).2.remaining = 0 ∧
    ∃ b, offering.insert laterBid = .ok b ∧
      (matchIncoming ⟨3, ⟨"c"⟩, "cet"⟩ 0 offering laterBid).1.Beside
        (matchIncoming ⟨3, ⟨"c"⟩, "cet"⟩ 0 offering laterBid).2
        (matchResting ⟨3, ⟨"c"⟩, "cet"⟩ 0 b) := by
  have booked : ofOrders offer.pair [offer] = .ok offering := rfl
  exact ⟨by decide, incoming_agrees_with_resting (t := laterBid) _ 0 (ofOrders_ok booked).1
    (ofOrders_sorted booked) (by decide) (by decide) (by decide) (by decide) (by decide)⟩

end Offer

end Agreement

end Book

end Bourse
