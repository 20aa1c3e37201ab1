import Bourse.Proofs.Coverage
import Bourse.Proofs.Exhaustion
import Bourse.Proofs.Serving

/-!
# A matching pass serves every side by priority

* `Fill.execute_takes`: a fill takes its quantity from both of its orders;
* `restingStep_serves`, `incomingStep_serves`: a step serves the heads of the sides, and so a whole
  pass serves each side in turn;
* `served_by_priority`: so of each side a pass changes the best orders only, all in full but perhaps
  the last of them, and in the order of their priority.
-/

namespace Bourse

namespace Fill

variable [Build] {v : Venue} {seq : Nat} {maker : Side} {price : Decimal} {buyer seller x t : Order}
  {f : Fill}

/-- A fill of an open buy with an open sell takes its quantity from both. -/
theorem execute_takes (buys : buyer.side = .buy) (sells : seller.side = .sell)
    (buyerOpen : buyer.remaining ≠ 0) (sellerOpen : seller.remaining ≠ 0)
    (buyerWord : buyer.remaining < Word.size) (sellerWord : seller.remaining < Word.size)
    (run : execute v seq maker price buyer seller = .ok f) :
    f.trade.Takes .buy buyer f.buyer ∧ f.trade.Takes .sell seller f.seller := by
  obtain ⟨buyerTerms, sellerTerms⟩ := execute_terms run
  obtain ⟨money, -, -, -, -, rfl⟩ := execute_ok.1 run
  have buyerLeft : (made v seq maker price buyer seller money).buyer.remaining =
      buyer.remaining - volume buyer seller :=
    remaining_close.trans (remaining_settle (Nat.min_le_left _ _) buyerWord)
  have sellerLeft : (made v seq maker price buyer seller money).seller.remaining =
      seller.remaining - volume buyer seller :=
    remaining_close.trans (remaining_settle (Nat.min_le_right _ _) sellerWord)
  have volume_le : volume buyer seller ≤ buyer.remaining ∧ volume buyer seller ≤ seller.remaining ∧
      volume buyer seller ≠ 0 := by
    rw [volume]
    omega
  have quantity : (made v seq maker price buyer seller money).trade.quantity =
      volume buyer seller := by
    cases maker <;> rfl
  have names : (made v seq maker price buyer seller money).trade.orderOf .buy = buyer.id ∧
      (made v seq maker price buyer seller money).trade.orderOf .sell = seller.id := by
    cases maker <;> simp [made, record, Trade.orderOf, buys, sells]
  exact ⟨⟨names.1, buyerTerms, by omega, by omega⟩, ⟨names.2, sellerTerms, by omega, by omega⟩⟩

/-- The same of an order and one that was booked before it. -/
theorem taking_takes (other : x.side = t.side.opposite) (unfilled : t.remaining ≠ 0)
    (booked : x.remaining ≠ 0) (word : t.remaining < Word.size) (word' : x.remaining < Word.size)
    (run : taking v seq t x = .ok f) : f.trade.Takes t.side t (f.party t.side) ∧
      f.trade.Takes t.side.opposite x (f.party t.side.opposite) := by
  obtain ⟨own, run⟩ | ⟨own, run⟩ := taking_ok.1 run
  · rw [own] at other ⊢
    exact execute_takes own other unfilled booked word word' run
  · rw [own] at other ⊢
    exact (execute_takes other own booked unfilled word' word run).symm

theorem taking_closed (run : taking v seq t x = .ok f) :
    (f.party t.side.opposite).Closed := by
  obtain ⟨own, run⟩ | ⟨own, run⟩ := taking_ok.1 run
  · rw [own]
    exact (execute_closed run).2
  · rw [own]
    exact (execute_closed run).1

theorem taking_completes (run : taking v seq t x = .ok f) :
    (f.party t.side).remaining = 0 ∨ (f.party t.side.opposite).remaining = 0 := by
  obtain ⟨own, run⟩ | ⟨own, run⟩ := taking_ok.1 run
  · rw [own]
    exact execute_completes run
  · rw [own]
    exact (execute_completes run).symm

end Fill

theorem Book.Sound.distinct {b : Book} (sound : b.Sound) (side : Side) :
    ((b.orders side).map (·.id)).Nodup := by
  have ids := ((b.all_perm side).map (·.id)).nodup_iff.1 sound.ids
  rw [List.map_append, List.nodup_append] at ids
  exact ids.1

theorem Book.mem_all_iff {b : Book} {o : Order} : o ∈ b.all ↔ ∃ side, o ∈ b.orders side := by
  rw [Side.exists_iff .buy, all, List.mem_append]
  rfl

namespace Pass

variable {v : Venue} {b₀ : Book} {p p' : Pass} {t t' : Order} {seq : Nat}

section Resting

/-- A pass over a book served both of its sides. -/
def Serves (b₀ : Book) (p : Pass) : Prop := ∀ side,
  Serving side (b₀.orders side) (p.crossing.filled.filter (·.side = side)) (p.book.orders side)
    p.crossing.trades

theorem serves_start (b₀ : Book) (seq : Nat) : (start b₀ seq).Serves b₀ := fun _ => .start

/-- A fill of the heads serves the sides. -/
theorem Made.serves {f : Fill} (serves : p.Serves b₀) (made : Made f p p')
    (sides : ∀ side, (f.party side).side = side)
    (takes : ∀ side, ∃ x rest, p.book.orders side = x :: rest ∧
      f.trade.Takes side x (f.party side)) : p'.Serves b₀ := by
  intro side
  obtain ⟨x, rest, front, takes⟩ := takes side
  have served := serves side
  have left := f.filter_done side (P := fun o => o.side = side) (sides side) (by
    rw [sides side.opposite]
    cases side <;> simp [Side.opposite])
  rw [front] at served
  rw [made.filled, List.append_assoc, List.filter_append, left, made.sides, front, List.tail_cons,
    made.trades]
  exact .fill served takes

section Step

variable [Build] (sound : b₀.Sound) (words : ∀ o ∈ b₀.all, o.remaining < Word.size)
  (start : From b₀ p) (serves : p.Serves b₀) (step : restingStep v p = some (.ok p'))

include sound words start serves step

/-- A step takes from the heads of both sides, which meet. -/
theorem restingStep_takes : ∃ bid bids ask asks f, p.book.orders .buy = bid :: bids ∧
    p.book.orders .sell = ask :: asks ∧ Meet bid ask ∧
    Fill.execute v p.nextFill (terms bid ask).1 (terms bid ask).2 bid ask = .ok f ∧
    f.trade.Takes .buy bid f.buyer ∧ f.trade.Takes .sell ask f.seller ∧
    p' = ((p.addFill f).settleBest .buy f.buyer).settleBest .sell f.seller := by
  obtain ⟨bid, ask, bestBid, bestAsk, crosses, step⟩ := restingStep_some step
  have meet := (start.meet sound bestBid bestAsk crosses).1
  obtain ⟨f, run, done⟩ := Check.bind_ok.1 step.symm
  obtain ⟨bids, frontBid⟩ := start.proper.front_of_best? bestBid
  obtain ⟨asks, frontAsk⟩ := start.proper.front_of_best? bestAsk
  have word : ∀ {side x rest}, p.book.orders side = x :: rest → x.remaining < Word.size := by
    intro side x rest front
    exact (serves side).word (sound.distinct side)
      (fun o mem => words o (Book.mem_all_iff.2 ⟨_, mem⟩)) x (by simp [front])
  obtain ⟨bought, sold⟩ := Fill.execute_takes meet.buys meet.sells meet.buyerOpen meet.sellerOpen
    (word frontBid) (word frontAsk) run
  exact ⟨bid, bids, ask, asks, f, frontBid, frontAsk, meet, run, bought, sold,
    (Check.pure_ok.1 done).symm⟩

theorem restingStep_serves : p'.Serves b₀ := by
  obtain ⟨bid, bids, ask, asks, f, frontBid, frontAsk, meet, -, bought, sold, rfl⟩ :=
    restingStep_takes sound words start serves step
  refine (made_of_fronts start.proper frontBid frontAsk f).serves serves
    ((Side.forall_iff .buy).2 ⟨?_, ?_⟩)
    ((Side.forall_iff .buy).2 ⟨⟨bid, bids, frontBid, bought⟩, ⟨ask, asks, frontAsk, sold⟩⟩)
  · exact (Order.side_of_terms bought.terms).trans meet.buys
  · exact (Order.side_of_terms sold.terms).trans meet.sells

end Step

/-- Whatever a step keeps that serves the sides, a pass keeps, and it serves them. -/
theorem resting_induction [Build] {P : Pass → Prop} (sound : b₀.Sound)
    (words : ∀ o ∈ b₀.all, o.remaining < Word.size) (init : P (start b₀ seq))
    (keeps : ∀ p p', From b₀ p → p.Serves b₀ → P p → restingStep v p = some (.ok p') → P p') :
    (resting v seq b₀).Serves b₀ ∧ P (resting v seq b₀) :=
  (run_induction (P := fun p => From b₀ p ∧ p.Serves b₀ ∧ P p)
    (fun p p' ⟨start, serves, holds⟩ step => ⟨(restingStep_filled sound start step).1,
      restingStep_serves sound words start serves step,
      keeps p p' start serves holds step⟩) _ _
    ⟨from_start sound seq, serves_start b₀ seq, init⟩).2

theorem resting_serves [Build] (sound : b₀.Sound) (words : ∀ o ∈ b₀.all, o.remaining < Word.size)
    (v : Venue) (seq : Nat) : (resting v seq b₀).Serves b₀ :=
  (resting_induction (P := fun _ => True) sound words trivial fun _ _ _ _ _ _ => trivial).1

end Resting

section Incoming

/-- What a step fills of an order, and what that makes of the pass. -/
theorem incomingStep_settled [Build] (proper : p.book.Proper)
    (step : incomingStep v (p, t) = some (.ok (p', t'))) :
    t.remaining ≠ 0 ∧ ∃ x rest f, p.book.orders t.side.opposite = x :: rest ∧
      t.crosses x = true ∧ Fill.taking v p.nextFill t x = .ok f ∧ t' = f.party t.side ∧
      Settled t.side.opposite x (f.party t.side.opposite) rest (p.addFill f) p' := by
  obtain ⟨unfilled, x, best, crosses, -⟩ := incomingStep_some step
  obtain ⟨rest, front⟩ := proper.front_of_best? best
  rw [incomingStep_of_front proper unfilled front crosses] at step
  obtain ⟨f, run, done⟩ := Check.bind_ok.1 (Option.some.inj step)
  obtain ⟨rfl, rfl⟩ := Prod.mk.inj (Check.pure_ok.1 done)
  exact ⟨unfilled, x, rest, f, front, crosses, run, rfl,
    settleBest_settled (p := p.addFill f) proper front _⟩

/-- A pass of the order `t` over a book served the other side, took all that it did for `t`, of
which `t'` is left, and let the side of `t` alone. -/
structure Feeds (b₀ : Book) (t : Order) (p : Pass) (t' : Order) : Prop where
  from_book : From b₀ p
  terms : t'.terms = t.terms
  other : Serving t.side.opposite (b₀.orders t.side.opposite) p.crossing.filled
    (p.book.orders t.side.opposite) p.crossing.trades
  own : p.book.orders t.side = b₀.orders t.side
  names : ∀ r ∈ p.crossing.trades, r.orderOf t.side = t.id
  taken : t'.remaining + Trade.takenFrom t.side p.crossing.trades t.id = t.remaining

theorem feeds_start (sound : b₀.Sound) (seq : Nat) (t : Order) : Feeds b₀ t (start b₀ seq) t :=
  ⟨from_start sound seq, rfl, .start, rfl, by simp [start], rfl⟩

section Step

variable [Build] {t₁ t₂ : Order} (sound : b₀.Sound) (words : ∀ o ∈ b₀.all, o.remaining < Word.size)
  (word : t.remaining < Word.size) (feeds : Feeds b₀ t p t₁)
  (step : incomingStep v (p, t₁) = some (.ok (p', t₂)))

include sound words word feeds step

/-- A step takes from the order and from the head of the other side, which it crosses. -/
theorem incomingStep_takes : ∃ x rest f, p.book.orders t.side.opposite = x :: rest ∧
    t₁.crosses x = true ∧ Fill.taking v p.nextFill t₁ x = .ok f ∧ t₂ = f.party t.side ∧
    f.trade.Takes t.side t₁ (f.party t.side) ∧
    f.trade.Takes t.side.opposite x (f.party t.side.opposite) ∧
    Settled t.side.opposite x (f.party t.side.opposite) rest (p.addFill f) p' := by
  have start := feeds.from_book
  obtain ⟨unfilled, x, rest, f, front, crosses, run, rfl, settled⟩ :=
    incomingStep_settled start.proper step
  have side : t₁.side = t.side := Order.side_of_terms feeds.terms
  have taken := feeds.taken
  obtain ⟨ours, theirs⟩ := Fill.taking_takes
    (start.side t₁.side.opposite x (front ▸ List.mem_cons_self)) unfilled
    (start.unfilled x (mem_all_of_front front)) (by omega)
    (feeds.other.word (sound.distinct _) (fun o mem => words o (Book.mem_all_iff.2 ⟨_, mem⟩)) x
      (by simp [← side, front])) run
  rw [side] at front settled ours theirs ⊢
  exact ⟨x, rest, f, front, crosses, run, rfl, ours, theirs, settled⟩

theorem incomingStep_feeds : Feeds b₀ t p' t₂ := by
  obtain ⟨x, rest, f, front, -, run, rfl, ours, theirs, settled⟩ :=
    incomingStep_takes sound words word feeds step
  have closed := Fill.taking_closed run
  rw [Order.side_of_terms feeds.terms] at closed
  have trades : p'.crossing.trades = p.crossing.trades ++ [f.trade] := settled.trades
  have id : f.trade.orderOf t.side = t.id := ours.names.trans (Order.id_of_terms feeds.terms)
  have served := feeds.other
  rw [front] at served
  refine ⟨(feeds.from_book.addFill f).settled sound.ids settled front theirs.terms closed,
    ours.terms.trans feeds.terms, ?_, ?_, ?_, ?_⟩
  · rw [settled.standing, settled.done, trades]
    exact .fill served theirs
  · have kept := settled.opposite
    rw [Side.opposite_opposite] at kept
    exact kept.trans feeds.own
  · rw [trades, List.forall_mem_append, List.forall_mem_singleton]
    exact ⟨feeds.names, id⟩
  · have taken := feeds.taken
    have now := ours.taken
    simp only [trades, Trade.takenFrom_append, Trade.takenFrom_cons, Trade.takenFrom_nil, id,
      ↓reduceIte]
    omega

end Step

/-- Whatever a step keeps that serves the other side for an order, a pass of it keeps, and it serves
that side. -/
theorem incoming_induction [Build] {Q : Pass → Order → Prop} (sound : b₀.Sound)
    (words : ∀ o ∈ b₀.all, o.remaining < Word.size) (word : t.remaining < Word.size)
    (init : Q (start b₀ seq) t) (keeps : ∀ p p' t₁ t₂, Feeds b₀ t p t₁ → Q p t₁ →
      incomingStep v (p, t₁) = some (.ok (p', t₂)) → Q p' t₂) :
    Feeds b₀ t (incoming v seq b₀ t).1 (incoming v seq b₀ t).2 ∧
      Q (incoming v seq b₀ t).1 (incoming v seq b₀ t).2 :=
  run_induction (P := fun s : Pass × Order => Feeds b₀ t s.1 s.2 ∧ Q s.1 s.2)
    (fun s s' ⟨feeds, holds⟩ step => ⟨incomingStep_feeds sound words word feeds step,
      keeps s.1 s'.1 s.2 s'.2 feeds holds step⟩) _ _ ⟨feeds_start sound seq t, init⟩

theorem incoming_feeds [Build] (sound : b₀.Sound) (words : ∀ o ∈ b₀.all, o.remaining < Word.size)
    (word : t.remaining < Word.size) (v : Venue) (seq : Nat) :
    Feeds b₀ t (incoming v seq b₀ t).1 (incoming v seq b₀ t).2 :=
  (incoming_induction (Q := fun _ _ => True) sound words word trivial
    fun _ _ _ _ _ _ _ => trivial).1

end Incoming

end Pass

/-- Of the orders of a side, best first, trades left `remains`. They took from a first part of them,
one after the other, and filled all of that but perhaps the last; and they took nothing from an
order while one ahead of it had anything left. -/
structure Order.InTurn (side : Side) (orders remains : List Order) (trades : List Trade) :
    Prop where
  ranked : orders.Pairwise Order.Before
  accounts : List.Forall₂ (Trade.Leave side trades) orders remains
  served : ∃ served served' waiting, orders = served ++ waiting ∧ remains = served' ++ waiting ∧
    List.Forall₂ Order.Drained served served' ∧ (∀ o ∈ served'.dropLast, o.remaining = 0) ∧
    Trade.turns side trades = served.map (·.id)
  turns : ∀ past t future, trades = past ++ t :: future →
    ∀ better y worse, orders = better ++ y :: worse → t.orderOf side = y.id →
      ∀ z ∈ better, Trade.takenFrom side past z.id = z.remaining

/-- What is booked stays in the order of priority. -/
theorem Serving.ranked {side : Side} {start gone now : List Order} {trades : List Trade}
    (serving : Serving side start gone now trades) (distinct : (start.map (·.id)).Nodup)
    (ranked : start.Pairwise Order.Before) : now.Pairwise Order.Before := by
  have same : start.map Order.terms = (gone ++ now).map Order.terms := by
    rw [← List.forall₂_eq_eq_eq, List.forall₂_map_left_iff, List.forall₂_map_right_iff]
    exact (serving.accounts distinct).imp fun _ _ left => left.terms.symm
  have onTerms : ∀ l : List Order,
      (l.map Order.terms).Pairwise Order.Before ↔ l.Pairwise Order.Before := fun l => by
    rw [List.pairwise_map]
    exact ⟨.imp (Order.before_of_terms rfl rfl).1, .imp (Order.before_of_terms rfl rfl).2⟩
  rw [← onTerms, same, onTerms, List.pairwise_append] at ranked
  exact ranked.2.1

theorem Serving.inTurn {side : Side} {start gone now : List Order} {trades : List Trade}
    (serving : Serving side start gone now trades) (distinct : (start.map (·.id)).Nodup)
    (ranked : start.Pairwise Order.Before) : Order.InTurn side start (gone ++ now) trades where
  ranked := ranked
  accounts := serving.accounts distinct
  served := by
    obtain ⟨served, waiting, begun, short, split, rfl, drained, turns⟩ := serving.split distinct
    refine ⟨served, gone ++ begun, waiting, split, (List.append_assoc ..).symm, drained, ?_, turns⟩
    intro o mem
    apply serving.filled o
    cases begun with
    | nil =>
        rw [List.append_nil] at mem
        exact List.mem_of_mem_dropLast mem
    | cons y more =>
        obtain rfl : more = [] := List.length_eq_zero_iff.1 (by simpa using short)
        rwa [List.dropLast_concat] at mem
  turns _ _ _ made _ _ _ split names := serving.turns distinct made split names

namespace Book

section Priority

variable {b : Book}

/-- A pass that does not fail serves the orders of each side by priority: a pass over a book those
of both sides, and a pass of an order over a book those of the other side, while it lets its own
alone. -/
theorem served_by_priority [Build] (v : Venue) (seq : Nat) (sound : b.Sound) (sorted : b.Sorted)
    (words : ∀ o ∈ b.all, o.remaining < Word.size) :
    (∀ c, (matchResting v seq b).outcome = .ok c → ∀ side,
      Order.InTurn side (b.orders side) (c.filled.filter (·.side = side) ++
        (matchResting v seq b).book.orders side) c.trades) ∧
    ∀ t : Order, t.remaining < Word.size →
      ∀ c, (matchIncoming v seq b t).1.outcome = .ok c →
        Order.InTurn t.side.opposite (b.orders t.side.opposite)
          (c.filled ++ (matchIncoming v seq b t).1.book.orders t.side.opposite) c.trades ∧
        (matchIncoming v seq b t).1.book.orders t.side = b.orders t.side := by
  constructor
  · intro c ended side
    rw [Pass.matchResting_outcome ended]
    exact (Pass.resting_serves sound words v seq side).inTurn (sound.distinct side)
      (sorted.before sound.filed side)
  · intro t word c ended
    rw [Pass.matchIncoming_outcome ended]
    have feeds := Pass.incoming_feeds sound words word v seq
    exact ⟨feeds.other.inTurn (sound.distinct _) (sorted.before sound.filed _), feeds.own⟩

section Contested

attribute [local instance] Build.checked

/-- An order for stock at a price with one digit behind the point. -/
def lot (id : String) (side : Side) (price quantity height : Nat) : Order where
  id := ⟨id⟩
  sender := ⟨id⟩
  sequence := 1
  pair := ⟨"btc/cet"⟩
  side
  kind := .limit
  timeInForce := .goodTillExpire
  price
  precision := 1
  quantity
  remaining := quantity
  frozenFee := 0
  frozenPrincipal := match side with
    | .buy => 10 * quantity
    | .sell => quantity
  dealStock := 0
  dealMoney := 0
  height
  status := .opened

/-- Bids for 3 and 5 at 6.0 against offers of 4 at 5.0 and 6 at 5.5. -/
def contestedLots : List Order :=
  [lot "d" .sell 55 6 1, lot "b" .buy 60 5 3, lot "c" .sell 50 4 2, lot "a" .buy 60 3 2]

def contested : Book where
  pair := ⟨"btc/cet"⟩
  bids := [⟨Price.scaled 60 1, [lot "a" .buy 60 3 2, lot "b" .buy 60 5 3]⟩]
  asks := [⟨Price.scaled 50 1, [lot "c" .sell 50 4 2]⟩, ⟨Price.scaled 55 1, [lot "d" .sell 55 6 1]⟩]

theorem contested_booked : ofOrders ⟨"btc/cet"⟩ contestedLots = .ok contested := by decide +kernel

/-- A bid of 9 that reaches the better offer only. -/
def shortBid : Order := lot "e" .buy 52 9 3

/-- The contested lots, each with a fee of 7 in the money of the market. -/
def chargedLots : List Order := contestedLots.map fun o => { o with frozenFee := 7 }

theorem chargedLots_trades : ∃ b c c', ofOrders ⟨"btc/cet"⟩ chargedLots = .ok b ∧
    (matchResting ⟨3, ⟨"c"⟩, "cet"⟩ 0 b).outcome = .ok c ∧ c.trades.length = 3 ∧
    (matchIncoming ⟨3, ⟨"c"⟩, "cet"⟩ 0 b shortBid).1.outcome = .ok c' ∧ c'.trades.length = 1 := by
  have ended : (do
      let b ← ofOrders ⟨"btc/cet"⟩ chargedLots
      let c ← (matchResting ⟨3, ⟨"c"⟩, "cet"⟩ 0 b).outcome
      let c' ← (matchIncoming ⟨3, ⟨"c"⟩, "cet"⟩ 0 b shortBid).1.outcome
      return (c.trades.length, c'.trades.length)) = .ok (3, 1) := by decide +kernel
  obtain ⟨b, booked, ended⟩ := Check.bind_ok.1 ended
  obtain ⟨c, ended, ended'⟩ := Check.bind_ok.1 ended
  obtain ⟨c', ended', lengths⟩ := Check.bind_ok.1 ended'
  obtain ⟨length, length'⟩ := Prod.mk.inj (Check.pure_ok.1 lengths)
  exact ⟨b, c, c', booked, ended, length, ended', length'⟩

/-- Three trades fill both bids and the better offer, and begin the other. -/
theorem contested_by_priority :
    (∃ c, (matchResting ⟨3, ⟨"c"⟩, "cet"⟩ 0 contested).outcome = .ok c ∧ c.trades.length = 3 ∧
      ∀ side, Order.InTurn side (contested.orders side) (c.filled.filter (·.side = side) ++
        (matchResting ⟨3, ⟨"c"⟩, "cet"⟩ 0 contested).book.orders side) c.trades) ∧
    ∃ c, (matchIncoming ⟨3, ⟨"c"⟩, "cet"⟩ 0 contested shortBid).1.outcome = .ok c ∧
      c.trades.length = 1 ∧
      Order.InTurn .sell (contested.orders .sell) (c.filled ++
        (matchIncoming ⟨3, ⟨"c"⟩, "cet"⟩ 0 contested shortBid).1.book.orders .sell) c.trades ∧
      (matchIncoming ⟨3, ⟨"c"⟩, "cet"⟩ 0 contested shortBid).1.book.orders .buy =
        contested.orders .buy := by
  obtain ⟨resting, incoming⟩ := served_by_priority ⟨3, ⟨"c"⟩, "cet"⟩ 0
    (ofOrders_ok contested_booked).1 (ofOrders_sorted contested_booked) (by decide +kernel)
  constructor
  · have ended : ((matchResting ⟨3, ⟨"c"⟩, "cet"⟩ 0 contested).outcome >>=
        fun c => pure c.trades.length) = .ok 3 := by decide +kernel
    obtain ⟨c, ended, length⟩ := Check.bind_ok.1 ended
    exact ⟨c, ended, Check.pure_ok.1 length, resting c ended⟩
  · have ended : ((matchIncoming ⟨3, ⟨"c"⟩, "cet"⟩ 0 contested shortBid).1.outcome >>=
        fun c => pure c.trades.length) = .ok 1 := by decide +kernel
    obtain ⟨c, ended, length⟩ := Check.bind_ok.1 ended
    exact ⟨c, ended, Check.pure_ok.1 length, incoming shortBid (by decide +kernel) c ended⟩

end Contested

end Priority

end Book

end Bourse
