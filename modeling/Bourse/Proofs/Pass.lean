import Bourse.Matching.Pass
import Bourse.Proofs.Book
import Bourse.Proofs.Fill

/-!
# What a matching pass does

* `From`: what every fill keeps of the book that the pass started from;
* `Balanced`: the effects so far debit what the orders hold less than at the start, and credit
  beyond that what the trades say;
* `restingStep_filled`, `incomingStep_filled`: what one step does, and `restingStep_error`,
  `incomingStep_error` how it fails;
* `resting_keeps`, `incoming_keeps`: whatever a fill keeps, a whole pass keeps, and hence
  `resting_balanced`, `incoming_balanced`.
-/

namespace Bourse

namespace Order

variable {o o' : Order}

theorem crosses_iff : o.crosses o' = true ↔
    (o.side = .buy ∧ o'.side = .sell ∧ o'.effectivePrice ≤ o.effectivePrice) ∨
      o.side = .sell ∧ o'.side = .buy ∧ o.effectivePrice ≤ o'.effectivePrice := by
  rw [crosses]
  cases o.side <;> cases o'.side <;> simp

end Order

/-- The effects credit beyond what they debit what the trades say. -/
def Nets (v : Venue) (trades : List Trade) (effects : List Effect) : Prop :=
  ∀ x d, (Effect.credits effects x d : Int) =
    Effect.debits effects x d + Trade.netSum trades v.baseCurrency v.feeCollector x d

/-- And they debit what `orders` hold less than `start`. -/
structure Balanced (v : Venue) (start orders : List Order) (trades : List Trade)
    (effects : List Effect) : Prop where
  held : ∀ x d, Effect.debits effects x d + Order.escrow orders v.baseCurrency x d =
    Order.escrow start v.baseCurrency x d
  net : Nets v trades effects

section Balanced

variable {v : Venue} {start orders orders' others : List Order} {trades more : List Trade}
  {effects later : List Effect} {seq : Nat} {maker : Side} {price : Decimal} {buyer seller : Order}
  {f : Fill}

theorem nets_nil (v : Venue) : Nets v [] [] := fun x d => by simp

theorem Nets.append (first : Nets v trades effects) (second : Nets v more later) :
    Nets v (trades ++ more) (effects ++ later) := by
  intro x d
  have := first x d
  have := second x d
  simp only [Effect.debits_append, Effect.credits_append, Trade.netSum_append]
  push_cast
  omega

theorem balanced_start (v : Venue) (start : List Order) : Balanced v start start [] [] :=
  ⟨by simp, nets_nil v⟩

theorem Balanced.append (first : Balanced v start orders trades effects)
    (second : Balanced v orders orders' more later) :
    Balanced v start orders' (trades ++ more) (effects ++ later) := by
  refine ⟨fun x d => ?_, first.net.append second.net⟩
  have := first.held x d
  have := second.held x d
  rw [Effect.debits_append]
  omega

theorem Balanced.perm (balanced : Balanced v start orders trades effects)
    (perm : orders'.Perm orders) : Balanced v start orders' trades effects :=
  ⟨fun x d => by rw [Order.escrow_perm perm, balanced.held], balanced.net⟩

theorem Balanced.fill [Build]
    (balanced : Balanced v start (buyer :: seller :: others) trades effects)
    (run : Fill.execute v seq maker price buyer seller = .ok f) (buys : buyer.side = .buy)
    (sells : seller.side = .sell) (pair : seller.pair = buyer.pair) :
    Balanced v start (f.buyer :: f.seller :: others) (trades ++ [f.trade])
      (effects ++ f.effects) := by
  refine ⟨fun x d => ?_, balanced.net.append fun x d => ?_⟩
  · have before := balanced.held x d
    have moved := Fill.execute_held (x := x) (d := d) run buys sells pair
    simp only [Order.escrow_cons, Effect.debits_append] at before ⊢
    omega
  · rw [Trade.netSum_cons, Trade.netSum_nil, Int.add_zero]
    exact Fill.execute_net run buys sells

end Balanced

namespace Pass

variable {v : Venue} {b₀ : Book} {p p' : Pass} {side : Side} {x o t t' : Order} {f : Fill}
  {rest : List Order}

/-- The orders of the book, and those that were filled and left it. -/
def orders (p : Pass) : List Order := p.book.all ++ p.crossing.filled

/-- What a pass keeps of the book it started from. -/
structure From (b₀ : Book) (p : Pass) : Prop where
  proper : p.book.Proper
  pair : p.book.pair = b₀.pair
  unfilled : ∀ o ∈ p.book.all, o.remaining ≠ 0
  filled : ∀ o ∈ p.crossing.filled, o.remaining = 0 ∧ o.Closed
  terms : (p.orders.map Order.terms).Perm (b₀.all.map Order.terms)
  side : ∀ side, ∀ o ∈ p.book.orders side, o.side = side
  untouched : ∀ o ∈ p.book.all, o.id ∈ p.touched ∨ o ∈ b₀.all

/-- The best order `x` of a side was replaced by `o`, which left the book if it is filled. -/
structure Settled (side : Side) (x o : Order) (rest : List Order) (p p' : Pass) : Prop where
  proper : p'.book.Proper
  pair : p'.book.pair = p.book.pair
  nextFill : p'.nextFill = p.nextFill
  trades : p'.crossing.trades = p.crossing.trades
  effects : p'.crossing.effects = p.crossing.effects
  lastPrice : p'.crossing.lastPrice = p.crossing.lastPrice
  opposite : p'.book.orders side.opposite = p.book.orders side.opposite
  own : (o.remaining = 0 ∧ p'.book.orders side = rest ∧
      p'.crossing.filled = p.crossing.filled ++ [o] ∧ p'.touched = p.touched.erase o.id) ∨
    (o.remaining ≠ 0 ∧ p'.book.orders side = o :: rest ∧
      p'.crossing.filled = p.crossing.filled ∧ p'.touched = p.touched.insert o.id)

section SettleBest

theorem settleBest_settled (proper : p.book.Proper) (front : p.book.orders side = x :: rest)
    (o : Order) : Settled side x o rest p (p.settleBest side o) := by
  obtain ⟨set, own, opposite, pair⟩ := proper.setBest front o
  rw [settleBest]
  by_cases filled : o.remaining = 0
  · obtain ⟨b, popped, left, ownRest, oppositeRest, pairRest⟩ := set.pop? own
    simp only [Order.isFilled, filled, beq_self_eq_true, ↓reduceIte, popped]
    exact ⟨left, pairRest.trans pair, rfl, rfl, rfl, rfl, oppositeRest.trans opposite,
      .inl ⟨filled, ownRest, rfl, rfl⟩⟩
  · simp only [Order.isFilled, beq_iff_eq, filled, ↓reduceIte]
    exact ⟨set, pair, rfl, rfl, rfl, rfl, opposite, .inr ⟨filled, own, rfl, rfl⟩⟩

theorem Settled.perm (settled : Settled side x o rest p p')
    (front : p.book.orders side = x :: rest) :
    ∃ others, p.orders.Perm (x :: others) ∧ p'.orders.Perm (o :: others) := by
  refine ⟨rest ++ p.book.orders side.opposite ++ p.crossing.filled, ?_, ?_⟩
  · have before := (p.book.all_perm side).append_right p.crossing.filled
    rwa [front] at before
  · have after := (p'.book.all_perm side).append_right p'.crossing.filled
    rw [settled.opposite] at after
    rw [Pass.orders]
    obtain ⟨-, own, filled, -⟩ | ⟨-, own, filled, -⟩ := settled.own
    · rw [own, filled] at after
      rw [filled]
      apply after.trans
      rw [← List.append_assoc]
      exact List.perm_append_comm
    · rw [own, filled] at after
      rw [filled]
      exact after

/-- What is booked afterwards is the order itself, unless filled, and what else was booked. -/
theorem Settled.booked (settled : Settled side x o rest p p')
    (front : p.book.orders side = x :: rest) {y : Order} (mem : y ∈ p'.book.all) :
    (y = o ∧ o.remaining ≠ 0) ∨ y ∈ p.book.all ∧ y ∈ rest ++ p.book.orders side.opposite := by
  have old : y ∈ rest ++ p.book.orders side.opposite → y ∈ p.book.all := by
    intro mem
    rw [(p.book.all_perm side).mem_iff, front]
    exact List.mem_cons_of_mem x mem
  rw [(Book.all_perm _ side).mem_iff, settled.opposite] at mem
  obtain ⟨-, own, -⟩ | ⟨unfilled, own, -⟩ := settled.own
  · rw [own] at mem
    exact .inr ⟨old mem, mem⟩
  · rw [own, List.cons_append, List.mem_cons] at mem
    exact mem.imp (fun same => ⟨same, unfilled⟩) fun mem => ⟨old mem, mem⟩

theorem ids_of_terms {l l' : List Order} (terms : (l.map Order.terms).Perm (l'.map Order.terms)) :
    (l.map (·.id)).Perm (l'.map (·.id)) := by
  have ids := terms.map (·.id)
  rw [List.map_map, List.map_map] at ids
  exact ids

theorem From.ids (start : From b₀ p) (distinct : (b₀.all.map (·.id)).Nodup) :
    (p.orders.map (·.id)).Nodup :=
  (ids_of_terms start.terms).nodup_iff.2 distinct

theorem From.known (start : From b₀ p) {k : OrderId} : k ∈ b₀.all.map (·.id) ↔
    k ∈ p.book.all.map (·.id) ∨ k ∈ p.crossing.filled.map (·.id) := by
  rw [← (ids_of_terms start.terms).mem_iff, orders, List.map_append, List.mem_append]

/-- The ids in the book, and those that were filled, are without duplicates and apart. -/
theorem From.apart (start : From b₀ p) (distinct : (b₀.all.map (·.id)).Nodup) :
    (p.book.all.map (·.id)).Nodup ∧ (p.crossing.filled.map (·.id)).Nodup ∧
      ∀ k ∈ p.book.all.map (·.id), k ∉ p.crossing.filled.map (·.id) := by
  have ids := start.ids distinct
  rw [orders, List.map_append, List.nodup_append] at ids
  obtain ⟨booked, filled, apart⟩ := ids
  exact ⟨booked, filled, fun k mem mem' => apart k mem k mem' rfl⟩

theorem From.behind (start : From b₀ p) (distinct : (b₀.all.map (·.id)).Nodup)
    (front : p.book.orders side = x :: rest) {y : Order}
    (behind : y ∈ rest ++ p.book.orders side.opposite) : y.id ≠ x.id := by
  have ids := ((p.book.all_perm side).map (·.id)).nodup_iff.1 (start.apart distinct).1
  rw [front, List.cons_append, List.map_cons, List.nodup_cons] at ids
  intro same
  exact ids.1 (same ▸ List.mem_map_of_mem behind)

theorem From.settled (start : From b₀ p) (distinct : (b₀.all.map (·.id)).Nodup)
    (settled : Settled side x o rest p p') (front : p.book.orders side = x :: rest)
    (same : o.terms = x.terms) (closed : o.Closed) : From b₀ p' where
  proper := settled.proper
  pair := settled.pair.trans start.pair
  unfilled y mem := by
    obtain ⟨rfl, unfilled⟩ | ⟨mem, -⟩ := settled.booked front mem
    · exact unfilled
    · exact start.unfilled y mem
  filled y mem := by
    obtain ⟨empty, -, filled, -⟩ | ⟨-, -, filled, -⟩ := settled.own
    · rw [filled, List.mem_append, List.mem_singleton] at mem
      exact mem.elim (start.filled y) fun eq => eq ▸ ⟨empty, closed⟩
    · exact start.filled y (filled ▸ mem)
  terms := by
    obtain ⟨others, before, after⟩ := settled.perm front
    have swapped : (p'.orders.map Order.terms).Perm (p.orders.map Order.terms) := by
      apply (after.map _).trans
      rw [List.map_cons, same, ← List.map_cons]
      exact (before.map _).symm
    exact swapped.trans start.terms
  side other y mem := by
    by_cases own : other = side
    · subst own
      have older : y ∈ rest → y.side = other := fun mem =>
        start.side other y (front ▸ List.mem_cons_of_mem x mem)
      obtain ⟨-, left, -⟩ | ⟨-, left, -⟩ := settled.own
      · exact older (left ▸ mem)
      · rw [left, List.mem_cons] at mem
        refine mem.elim (fun eq => ?_) older
        rw [eq, Order.side_of_terms same]
        exact start.side other x (front ▸ List.mem_cons_self)
    · rw [Side.eq_opposite own] at mem ⊢
      exact start.side _ y (settled.opposite ▸ mem)
  untouched y mem := by
    have id : o.id = x.id := Order.id_of_terms same
    obtain ⟨rfl, unfilled⟩ | ⟨mem, behind⟩ := settled.booked front mem
    · obtain ⟨empty, -⟩ | ⟨-, -, -, touched⟩ := settled.own
      · exact absurd empty unfilled
      · exact .inl (touched ▸ Std.ExtTreeSet.mem_insert_self)
    · apply (start.untouched y mem).imp_left
      intro mem
      obtain ⟨-, -, -, touched⟩ | ⟨-, -, -, touched⟩ := settled.own
      · rw [touched, Std.ExtTreeSet.mem_erase, Ne, Std.LawfulEqCmp.compare_eq_iff_eq, id]
        exact ⟨(start.behind distinct front behind).symm, mem⟩
      · exact touched ▸ Std.ExtTreeSet.mem_insert.2 (.inr mem)

end SettleBest

/-- The price of the side that was booked first. -/
def makerPrice (maker : Side) (buyer seller : Order) : Decimal :=
  match maker with
  | .buy => buyer.effectivePrice
  | .sell => seller.effectivePrice

/-- An open buy and an open sell of one market that cross. -/
structure Meet (buyer seller : Order) : Prop where
  buys : buyer.side = .buy
  sells : seller.side = .sell
  pair : seller.pair = buyer.pair
  crosses : seller.effectivePrice ≤ buyer.effectivePrice
  buyerOpen : buyer.remaining ≠ 0
  sellerOpen : seller.remaining ≠ 0

/-- The fill `f` took `p` to `p'`, and the orders that take part from `orders` to `orders'`. -/
structure Filled [Build] (v : Venue) (maker : Side) (buyer seller : Order) (f : Fill) (p p' : Pass)
    (orders orders' : List Order) : Prop extends Meet buyer seller where
  run : Fill.execute v p.nextFill maker (makerPrice maker buyer seller) buyer seller = .ok f
  orders : ∃ others, orders.Perm (buyer :: seller :: others) ∧
    orders'.Perm (f.buyer :: f.seller :: others)
  trades : p'.crossing.trades = p.crossing.trades ++ [f.trade]
  effects : p'.crossing.effects = p.crossing.effects ++ f.effects
  lastPrice : p'.crossing.lastPrice = some f.trade.price
  nextFill : p'.nextFill = Word.wrapAdd p.nextFill 1

section Steps

variable {maker : Side} {price : Decimal} {bid ask buyer seller : Order} {money : Nat}
  {orders orders' start : List Order}

theorem From.pair_of_mem (start : From b₀ p) (sound : b₀.Sound) (mem : o ∈ p.orders) :
    o.pair = b₀.pair := by
  have terms := start.terms.mem_iff.1 (List.mem_map_of_mem mem)
  obtain ⟨o₀, mem₀, same⟩ := List.mem_map.1 terms
  rw [← sound.pair o₀ mem₀]
  exact Order.pair_of_terms same.symm

theorem mem_all_of_front (front : p.book.orders side = x :: rest) : x ∈ p.book.all := by
  rw [(p.book.all_perm side).mem_iff, front]
  exact List.mem_append_left _ List.mem_cons_self

theorem restingStep_some [Build] {r : Except Fault Pass} (step : restingStep v p = some r) :
    ∃ bid ask, p.book.best? .buy = some bid ∧ p.book.best? .sell = some ask ∧
      bid.crosses ask = true ∧ r = do
        let f ← Fill.execute v p.nextFill (terms bid ask).1 (terms bid ask).2 bid ask
        return ((p.addFill f).settleBest .buy f.buyer).settleBest .sell f.seller := by
  rw [restingStep] at step
  split at step
  · next bid ask bestBid bestAsk =>
      split at step
      · next crosses => exact ⟨bid, ask, bestBid, bestAsk, crosses, (Option.some.inj step).symm⟩
      · cases step
  · cases step

theorem incomingStep_some [Build] {r : Except Fault (Pass × Order)}
    (step : incomingStep v (p, t) = some r) :
    t.remaining ≠ 0 ∧ ∃ maker, p.book.best? t.side.opposite = some maker ∧
      t.crosses maker = true ∧
      (t.side = .buy ∧ (r = do
          let f ← Fill.execute v p.nextFill .sell maker.effectivePrice t maker
          return ((p.addFill f).settleBest .sell f.seller, f.buyer)) ∨
        t.side = .sell ∧ r = do
          let f ← Fill.execute v p.nextFill .buy maker.effectivePrice maker t
          return ((p.addFill f).settleBest .buy f.buyer, f.seller)) := by
  simp only [incomingStep] at step
  split at step
  · cases step
  · next unfilled =>
      split at step
      · cases step
      · next maker best =>
          split at step
          · next crosses =>
              refine ⟨by simpa [Order.isFilled] using unfilled, maker, best, crosses, ?_⟩
              have step := Option.some.inj step
              split at step
              · next buys => exact .inl ⟨buys, step.symm⟩
              · next sells => exact .inr ⟨sells, step.symm⟩
          · cases step

theorem terms_eq : (terms bid ask).2 = makerPrice (terms bid ask).1 bid ask := by
  rw [terms]
  split <;> rfl

theorem From.addFill (start : From b₀ p) (f : Fill) : From b₀ (p.addFill f) :=
  ⟨start.proper, start.pair, start.unfilled, start.filled, start.terms, start.side,
    start.untouched⟩

theorem mem_orders_of_front (front : p.book.orders side = x :: rest) : x ∈ p.orders :=
  List.mem_append_left _ (mem_all_of_front front)

theorem exists_common {α : Type} {a b : α} {l l' : List α} (perm : (a :: l).Perm (b :: l'))
    (ne : b ≠ a) : ∃ others, l.Perm (b :: others) ∧ l'.Perm (a :: others) := by
  have mem : b ∈ l := (List.mem_cons.1 (perm.mem_iff.2 List.mem_cons_self)).resolve_left ne
  obtain ⟨front, back, rfl⟩ := List.mem_iff_append.1 mem
  refine ⟨front ++ back, List.perm_middle, ?_⟩
  have swapped := (List.Perm.swap a b (front ++ back)).trans
    ((List.perm_middle.symm.cons a).trans perm)
  exact (List.Perm.cons_inv swapped).symm

/-- The best orders of a pass meet if they cross. -/
theorem From.meet (start : From b₀ p) (sound : b₀.Sound) (bestBid : p.book.best? .buy = some bid)
    (bestAsk : p.book.best? .sell = some ask) (crosses : bid.crosses ask = true) :
    Meet bid ask ∧ bid ∈ p.orders ∧ ask ∈ p.orders := by
  obtain ⟨bids, frontBid⟩ := start.proper.front_of_best? bestBid
  obtain ⟨asks, frontAsk⟩ := start.proper.front_of_best? bestAsk
  have buys := start.side .buy bid (frontBid ▸ List.mem_cons_self)
  have sells := start.side .sell ask (frontAsk ▸ List.mem_cons_self)
  have mem := mem_orders_of_front frontBid
  have mem' := mem_orders_of_front frontAsk
  refine ⟨⟨buys, sells, ?_, ?_, ?_, ?_⟩, mem, mem'⟩
  · rw [start.pair_of_mem sound mem', start.pair_of_mem sound mem]
  · simpa [Order.crosses_iff, buys, sells] using crosses
  · exact start.unfilled bid (mem_all_of_front frontBid)
  · exact start.unfilled ask (mem_all_of_front frontAsk)

/-- And so do an order that is not booked and the best order of the other side. -/
theorem From.meet_incoming (start : From b₀ p) (sound : b₀.Sound) (pair : t.pair = b₀.pair)
    (unfilled : t.remaining ≠ 0) (best : p.book.best? t.side.opposite = some x)
    (crosses : t.crosses x = true) :
    x ∈ p.orders ∧ (t.side = .buy → Meet t x) ∧ (t.side = .sell → Meet x t) := by
  obtain ⟨rest, front⟩ := start.proper.front_of_best? best
  have mem := mem_orders_of_front front
  have side := start.side t.side.opposite x (front ▸ List.mem_cons_self)
  have own := start.pair_of_mem sound mem
  have booked := start.unfilled x (mem_all_of_front front)
  refine ⟨mem, fun buys => ?_, fun sells => ?_⟩
  · rw [buys] at side
    refine ⟨buys, side, own.trans pair.symm, ?_, unfilled, booked⟩
    simpa [Order.crosses_iff, buys, side, Side.opposite] using crosses
  · rw [sells] at side
    refine ⟨side, sells, pair.trans own.symm, ?_, booked, unfilled⟩
    simpa [Order.crosses_iff, sells, side, Side.opposite] using crosses

/-- One step of a pass over a book. -/
theorem restingStep_filled [Build] (sound : b₀.Sound) (start : From b₀ p)
    (step : restingStep v p = some (.ok p')) : From b₀ p' ∧ ∃ maker bid ask f,
      Filled v maker bid ask f p p' p.orders p'.orders := by
  obtain ⟨bid, ask, bestBid, bestAsk, crosses, step⟩ := restingStep_some step
  obtain ⟨f, run, done⟩ := Check.bind_ok.1 step.symm
  obtain rfl := Check.pure_ok.1 done
  have meet := (start.meet sound bestBid bestAsk crosses).1
  obtain ⟨bids, frontBid⟩ := start.proper.front_of_best? bestBid
  obtain ⟨asks, frontAsk⟩ := start.proper.front_of_best? bestAsk
  rw [terms_eq] at run
  obtain ⟨buyerTerms, sellerTerms⟩ := Fill.execute_terms run
  obtain ⟨buyerClosed, sellerClosed⟩ := Fill.execute_closed run
  -- The bid is written back first, then the ask.
  have first := start.addFill f
  have settledBid := settleBest_settled first.proper frontBid f.buyer
  have second := first.settled sound.ids settledBid frontBid buyerTerms buyerClosed
  have frontAsk' := settledBid.opposite.trans frontAsk
  have settledAsk := settleBest_settled second.proper frontAsk' f.seller
  have third := second.settled sound.ids settledAsk frontAsk' sellerTerms sellerClosed
  refine ⟨third, (terms bid ask).1, bid, ask, f, meet, run, ?_, ?_, ?_, ?_, ?_⟩
  · obtain ⟨others, before, after⟩ := settledBid.perm frontBid
    obtain ⟨others', before', after'⟩ := settledAsk.perm frontAsk'
    have ne : ask ≠ f.buyer := by
      intro eq
      have side := Order.side_of_terms buyerTerms
      simp [← eq, meet.sells, meet.buys] at side
    obtain ⟨rest, left, right⟩ := exists_common (after.symm.trans before') ne
    exact ⟨rest, before.trans (left.cons bid),
      after'.trans ((right.cons f.seller).trans (.swap f.buyer f.seller rest))⟩
  · exact settledAsk.trades.trans settledBid.trades
  · exact settledAsk.effects.trans settledBid.effects
  · exact settledAsk.lastPrice.trans settledBid.lastPrice
  · exact settledAsk.nextFill.trans settledBid.nextFill

/-- One step of a pass of an order over a book. -/
theorem incomingStep_filled [Build] (sound : b₀.Sound) (start : From b₀ p) (pair : t.pair = b₀.pair)
    (step : incomingStep v (p, t) = some (.ok (p', t'))) :
    From b₀ p' ∧ t'.terms = t.terms ∧ t'.Closed ∧ ∃ maker buyer seller f,
      Filled v maker buyer seller f p p' (t :: p.orders) (t' :: p'.orders) := by
  obtain ⟨unfilled, maker, best, crosses, step⟩ := incomingStep_some step
  obtain ⟨-, buying, selling⟩ := start.meet_incoming sound pair unfilled best crosses
  obtain ⟨rest, front⟩ := start.proper.front_of_best? best
  obtain ⟨buys, step⟩ | ⟨sells, step⟩ := step
  · obtain ⟨f, run, done⟩ := Check.bind_ok.1 step.symm
    obtain ⟨rfl, rfl⟩ := Prod.mk.inj (Check.pure_ok.1 done)
    rw [buys] at front
    obtain ⟨takerTerms, makerTerms⟩ := Fill.execute_terms run
    obtain ⟨takerClosed, makerClosed⟩ := Fill.execute_closed run
    have first := start.addFill f
    have settled := settleBest_settled first.proper front f.seller
    obtain ⟨others, before, after⟩ := settled.perm front
    exact ⟨first.settled sound.ids settled front makerTerms makerClosed, takerTerms, takerClosed,
      .sell, t, maker, f, buying buys, run, ⟨others, before.cons t, after.cons f.buyer⟩,
      settled.trades, settled.effects, settled.lastPrice, settled.nextFill⟩
  · obtain ⟨f, run, done⟩ := Check.bind_ok.1 step.symm
    obtain ⟨rfl, rfl⟩ := Prod.mk.inj (Check.pure_ok.1 done)
    rw [sells] at front
    obtain ⟨makerTerms, takerTerms⟩ := Fill.execute_terms run
    obtain ⟨makerClosed, takerClosed⟩ := Fill.execute_closed run
    have first := start.addFill f
    have settled := settleBest_settled first.proper front f.buyer
    obtain ⟨others, before, after⟩ := settled.perm front
    exact ⟨first.settled sound.ids settled front makerTerms makerClosed, takerTerms, takerClosed,
      .buy, maker, t, f, selling sells, run,
      ⟨others, (before.cons t).trans (.swap maker t others),
        (after.cons f.seller).trans (.swap f.buyer f.seller others)⟩,
      settled.trades, settled.effects, settled.lastPrice, settled.nextFill⟩

/-- A step that fails is a fill that fails, of two orders that meet. -/
theorem restingStep_error [Build] {fault : Fault} (sound : b₀.Sound) (start : From b₀ p)
    (step : restingStep v p = some (.error fault)) : ∃ maker bid ask, Meet bid ask ∧
      bid ∈ p.orders ∧ ask ∈ p.orders ∧
      Fill.execute v p.nextFill maker (makerPrice maker bid ask) bid ask = .error fault := by
  obtain ⟨bid, ask, bestBid, bestAsk, crosses, step⟩ := restingStep_some step
  obtain ⟨meet, mem, mem'⟩ := start.meet sound bestBid bestAsk crosses
  rw [terms_eq] at step
  obtain failed | ⟨_, -, done⟩ := Check.bind_error.1 step.symm
  · exact ⟨_, bid, ask, meet, mem, mem', failed⟩
  · exact absurd done Check.pure_error

theorem incomingStep_error [Build] {fault : Fault} (sound : b₀.Sound) (start : From b₀ p)
    (pair : t.pair = b₀.pair) (step : incomingStep v (p, t) = some (.error fault)) :
    ∃ maker buyer seller, Meet buyer seller ∧ buyer ∈ t :: p.orders ∧ seller ∈ t :: p.orders ∧
      Fill.execute v p.nextFill maker (makerPrice maker buyer seller) buyer seller =
        .error fault := by
  obtain ⟨unfilled, maker, best, crosses, step⟩ := incomingStep_some step
  obtain ⟨mem, buying, selling⟩ := start.meet_incoming sound pair unfilled best crosses
  obtain ⟨buys, step⟩ | ⟨sells, step⟩ := step
  · obtain failed | ⟨_, -, done⟩ := Check.bind_error.1 step.symm
    · exact ⟨.sell, t, maker, buying buys, List.mem_cons_self, .tail t mem, failed⟩
    · exact absurd done Check.pure_error
  · obtain failed | ⟨_, -, done⟩ := Check.bind_error.1 step.symm
    · exact ⟨.buy, maker, t, selling sells, .tail t mem, List.mem_cons_self, failed⟩
    · exact absurd done Check.pure_error

end Steps

end Pass

end Bourse
