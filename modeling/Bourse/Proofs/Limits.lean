import Bourse.Proofs.Release
import Bourse.Proofs.Turns

/-!
# Every trade is at the price of the earlier order, within the limits of both

* `Trade.Deals`: what a trade says of the two orders that it is between, as they stand before it;
* `Trade.Remnant`: what trades left of an order, its stock and its fee;
* `Fill.taking_deals`, `Fill.taking_pays`: a fill makes a trade that deals its two orders and takes
  from each its own fee;
* `restingStep_honest`, `incomingStep_honest`: so do the steps of a pass, for orders as the trades
  before left them;
* `trades_within_limits`: and so do whole passes.
-/

namespace Bourse

/-- A price is within the limit of the order. -/
def Order.Accepts (o : Order) (price : Decimal) : Prop :=
  match o.side with
  | .buy => price ≤ o.effectivePrice
  | .sell => o.effectivePrice ≤ price

namespace Trade

/-- The fee that a trade charges to its order of a side. -/
def feeOf (t : Trade) : Side → Nat
  | .buy => t.buyerFee
  | .sell => t.sellerFee

/-- The fees that trades charged to an order of a side. -/
def chargedTo (side : Side) (trades : List Trade) (k : OrderId) : Nat :=
  (trades.map fun t => if t.orderOf side = k then t.feeOf side else 0).sum

/-- A trade between two orders as they stand: named as they are, at the price of the maker, which
both accept, for what the smaller one has left, and at the fee of each in proportion to that. -/
structure Deals (t : Trade) (maker taker : Order) : Prop where
  opposite : maker.side = taker.side.opposite
  takerSide : t.takerSide = taker.side
  pair : maker.pair = t.pair ∧ taker.pair = t.pair
  orders : t.makerOrder = maker.id ∧ t.takerOrder = taker.id
  senders : t.maker = maker.sender ∧ t.taker = taker.sender
  price : t.price = maker.effectivePrice
  accepted : maker.Accepts t.price ∧ taker.Accepts t.price
  quantity : t.quantity = min maker.remaining taker.remaining
  positive : 0 < t.quantity
  makerFee : t.makerFee = Fee.share maker.frozenFee t.quantity maker.remaining
  takerFee : t.takerFee = Fee.share taker.frozenFee t.quantity taker.remaining

/-- Trades left `o` of the order `x` of a side, and of its fee what they did not charge. -/
structure Remnant (side : Side) (trades : List Trade) (x o : Order) : Prop
    extends Leave side trades x o where
  fee : o.frozenFee + chargedTo side trades x.id = x.frozenFee

/-- The trade deals two orders as the trades before it left them. -/
def Honest (past : List Trade) (t : Trade) (maker taker : Order) : Prop :=
  ∃ maker' taker', Remnant maker.side past maker maker' ∧ Remnant taker.side past taker taker' ∧
    t.Deals maker' taker'

section Remnant

variable {side : Side} {past : List Trade} {t : Trade} {start rest : List Order} {x₀ x o : Order}

theorem remnant_nil (side : Side) (x : Order) : Remnant side [] x x := ⟨⟨rfl, rfl⟩, rfl⟩

theorem chargedTo_concat (k : OrderId) : chargedTo side (past ++ [t]) k =
    chargedTo side past k + if t.orderOf side = k then t.feeOf side else 0 := by
  simp [chargedTo]

theorem Remnant.idle (left : Remnant side past x o) (idle : t.orderOf side ≠ x.id) :
    Remnant side (past ++ [t]) x o := by
  refine ⟨left.toLeave.idle idle, ?_⟩
  rw [chargedTo_concat, if_neg idle]
  exact left.fee

theorem Remnant.takes (left : Remnant side past x₀ x) (takes : t.Takes side x o)
    (pays : o.frozenFee + t.feeOf side = x.frozenFee) : Remnant side (past ++ [t]) x₀ o := by
  refine ⟨left.toLeave.takes takes, ?_⟩
  have names : t.orderOf side = x₀.id := takes.names.trans (Order.id_of_terms left.terms)
  have fee := left.fee
  rw [chargedTo_concat, if_pos names]
  omega

/-- A trade with the first of the orders that are left leaves the others. -/
theorem remnants_fill (left : ∀ y ∈ x :: rest, ∃ x₀ ∈ start, Remnant side past x₀ y)
    (apart : ∀ y ∈ rest, y.id ≠ x.id) (takes : t.Takes side x o)
    (pays : o.frozenFee + t.feeOf side = x.frozenFee) :
    ∀ y ∈ o.standing ++ rest, ∃ x₀ ∈ start, Remnant side (past ++ [t]) x₀ y := by
  intro y mem
  rw [List.mem_append, Order.mem_standing] at mem
  obtain ⟨rfl, -⟩ | mem := mem
  · obtain ⟨x₀, mem₀, before⟩ := left x List.mem_cons_self
    exact ⟨x₀, mem₀, before.takes takes pays⟩
  · obtain ⟨y₀, mem₀, before⟩ := left y (.tail x mem)
    refine ⟨y₀, mem₀, before.idle fun named => apart y mem ?_⟩
    exact (Order.id_of_terms before.terms).trans (named.symm.trans takes.names)

end Remnant

end Trade

namespace Fill

variable {v : Venue} {seq principal quantity money : Nat} {maker : Side} {price : Decimal}
  {buyer seller bid ask o t x : Order} {f : Fill}

/-- What is left of the fee after an order paid its share; it is all spent once it is filled. -/
theorem fee_close_settle (taken : (close (settle o principal (Fee.share o.frozenFee quantity
      o.remaining) quantity money)).remaining + quantity = o.remaining) :
    (close (settle o principal (Fee.share o.frozenFee quantity o.remaining) quantity
      money)).frozenFee + Fee.share o.frozenFee quantity o.remaining = o.frozenFee := by
  have share : Fee.share o.frozenFee quantity o.remaining ≤ o.frozenFee := Fee.share_le
  by_cases filled : (close (settle o principal (Fee.share o.frozenFee quantity o.remaining)
      quantity money)).remaining = 0
  · rw [(closed_close filled).2, Fee.share, if_pos (.inr (by omega)), Nat.zero_add]
  · have unfilled := filled
    rw [remaining_close] at unfilled
    rw [close, if_neg (by simpa [Order.isFilled] using unfilled), fee_settle]
    omega

/-- A fill charges each of its orders the fee that its trade says. -/
theorem execute_pays [Build] (buys : buyer.side = .buy) (sells : seller.side = .sell)
    (run : execute v seq maker price buyer seller = .ok f)
    (bought : f.trade.Takes .buy buyer f.buyer) (sold : f.trade.Takes .sell seller f.seller) :
    f.buyer.frozenFee + f.trade.feeOf .buy = buyer.frozenFee ∧
      f.seller.frozenFee + f.trade.feeOf .sell = seller.frozenFee := by
  obtain ⟨money, -, -, -, -, rfl⟩ := execute_ok.1 run
  obtain ⟨-, moved, charged, charged'⟩ := made_amounts buys sells v seq maker price money
  have taken := bought.taken
  have taken' := sold.taken
  rw [moved] at taken taken'
  rw [Trade.feeOf, Trade.feeOf, charged, charged']
  exact ⟨fee_close_settle taken, fee_close_settle taken'⟩

theorem taking_pays [Build] (other : x.side = t.side.opposite) (run : taking v seq t x = .ok f)
    (ours : f.trade.Takes t.side t (f.party t.side))
    (theirs : f.trade.Takes t.side.opposite x (f.party t.side.opposite)) :
    (f.party t.side).frozenFee + f.trade.feeOf t.side = t.frozenFee ∧
      (f.party t.side.opposite).frozenFee + f.trade.feeOf t.side.opposite = x.frozenFee := by
  obtain ⟨own, run⟩ | ⟨own, run⟩ := taking_ok.1 run
  · rw [own] at other ours theirs ⊢
    exact execute_pays own other run ours theirs
  · rw [own] at other ours theirs ⊢
    exact (execute_pays other own run theirs ours).symm

/-- A fill of an order with one that was booked before it deals the two. -/
theorem taking_deals [Build] (other : x.side = t.side.opposite) (pair : x.pair = t.pair)
    (crosses : t.crosses x = true) (unfilled : t.remaining ≠ 0) (booked : x.remaining ≠ 0)
    (run : taking v seq t x = .ok f) : f.trade.Deals x t := by
  have own : x.Accepts x.effectivePrice := by
    rw [Order.Accepts]
    split <;> exact Decimal.le_iff_value.2 le_rfl
  have moves : 0 < min t.remaining x.remaining ∧ 0 < min x.remaining t.remaining := by omega
  obtain ⟨buys, run⟩ | ⟨sells, run⟩ := taking_ok.1 run
  · obtain ⟨money, -, -, -, -, rfl⟩ := execute_ok.1 run
    have within : t.Accepts x.effectivePrice := by
      rw [buys] at other
      simpa [Order.Accepts, buys, Order.crosses_iff, other, Side.opposite] using crosses
    exact ⟨other, rfl, ⟨pair, rfl⟩, ⟨rfl, rfl⟩, ⟨rfl, rfl⟩, rfl, ⟨own, within⟩,
      Nat.min_comm _ _, moves.1, rfl, rfl⟩
  · obtain ⟨money, -, -, -, -, rfl⟩ := execute_ok.1 run
    have within : t.Accepts x.effectivePrice := by
      rw [sells] at other
      simpa [Order.Accepts, sells, Order.crosses_iff, other, Side.opposite] using crosses
    exact ⟨other, rfl, ⟨rfl, pair.symm⟩, ⟨rfl, rfl⟩, ⟨rfl, rfl⟩, rfl, ⟨own, within⟩,
      rfl, moves.2, rfl, rfl⟩

/-- Of two orders in the book the later one takes from the earlier one. -/
theorem execute_terms_eq_taking [Build] (buys : bid.side = .buy) (sells : ask.side = .sell) :
    execute v seq (Pass.terms bid ask).1 (Pass.terms bid ask).2 bid ask =
      if bid.isEarlier ask then taking v seq ask bid else taking v seq bid ask := by
  rw [Pass.terms, taking, taking, buys, sells]
  split <;> rfl

end Fill

namespace Pass

variable {v : Venue} {b₀ : Book} {p p' : Pass} {t t₁ t₂ : Order} {seq : Nat}

/-- A fill of two booked orders deals them, the earlier one as the maker. -/
theorem Meet.deals [Build] {bid ask : Order} {f : Fill} (meet : Meet bid ask) (ne : bid.id ≠ ask.id)
    (run : Fill.execute v seq (Pass.terms bid ask).1 (Pass.terms bid ask).2 bid ask = .ok f) :
    (bid.isEarlier ask = true ∧ f.trade.Deals bid ask) ∨
      ask.isEarlier bid = true ∧ f.trade.Deals ask bid := by
  have crosses : bid.crosses ask = true := by
    simp [Order.crosses_iff, meet.buys, meet.sells, meet.crosses]
  have sides : bid.side = ask.side.opposite ∧ ask.side = bid.side.opposite := by
    rw [meet.buys, meet.sells]
    exact ⟨rfl, rfl⟩
  rw [Fill.execute_terms_eq_taking meet.buys meet.sells] at run
  split at run
  · next earlier =>
      exact .inl ⟨earlier, Fill.taking_deals sides.1 meet.pair.symm
        (Order.crosses_comm.trans crosses) meet.sellerOpen meet.buyerOpen run⟩
  · next later =>
      exact .inr ⟨Order.isEarlier_of_not ne (by simpa using later),
        Fill.taking_deals sides.2 meet.pair crosses meet.buyerOpen meet.sellerOpen run⟩

/-- The orders of a side are what the trades of the pass left of orders that it started with. -/
def Leaves (b₀ : Book) (side : Side) (p : Pass) : Prop :=
  ∀ o ∈ p.book.orders side, ∃ x ∈ b₀.orders side, Trade.Remnant side p.crossing.trades x o

theorem leaves_start (b₀ : Book) (side : Side) (seq : Nat) : (start b₀ seq).Leaves b₀ side :=
  fun o mem => ⟨o, mem, Trade.remnant_nil side o⟩

section Resting

/-- The trades of a pass over a book deal orders of the book, of which the maker is the earlier
one. -/
def Honest (b₀ : Book) (p : Pass) : Prop :=
  ∀ past r future, p.crossing.trades = past ++ r :: future → r.pair = b₀.pair ∧
    ∃ maker ∈ b₀.all, ∃ taker ∈ b₀.all, maker.isEarlier taker = true ∧ r.Honest past maker taker

variable (sound : b₀.Sound) (words : ∀ o ∈ b₀.all, o.remaining < Word.size)

include sound words

theorem restingStep_honest [Build] (start : From b₀ p) (serves : p.Serves b₀)
    (leaves : ∀ side, p.Leaves b₀ side) (honest : p.Honest b₀)
    (step : restingStep v p = some (.ok p')) :
    (∀ side, p'.Leaves b₀ side) ∧ p'.Honest b₀ := by
  obtain ⟨bid, bids, ask, asks, f, frontBid, frontAsk, meet, run, bought, sold, rfl⟩ :=
    restingStep_takes sound words start serves step
  obtain ⟨buyerPays, sellerPays⟩ := Fill.execute_pays meet.buys meet.sells run bought sold
  -- The trade takes from the heads of the two sides; the orders behind have other ids, so that it
  -- is idle for them.
  have made := made_of_fronts start.proper frontBid frontAsk f
  have apart : ∀ {side x rest}, p.book.orders side = x :: rest → ∀ y ∈ rest, y.id ≠ x.id :=
    fun front y mem => start.behind sound.ids front (List.mem_append_left _ mem)
  constructor
  · refine (Side.forall_iff .buy).2 ⟨?_, ?_⟩
    · have left := leaves .buy
      rw [Leaves, frontBid] at left
      rw [Leaves, made.sides, made.trades, frontBid]
      exact Trade.remnants_fill left (apart frontBid) bought buyerPays
    · have left := leaves .sell
      rw [Leaves, frontAsk] at left
      rw [Leaves, Side.opposite, made.sides, made.trades, frontAsk]
      exact Trade.remnants_fill left (apart frontAsk) sold sellerPays
  · rw [Honest, made.trades]
    refine forall_split_concat honest ?_
    obtain ⟨bid₀, memBid, leftBid⟩ := leaves .buy bid (frontBid ▸ List.mem_cons_self)
    obtain ⟨ask₀, memAsk, leftAsk⟩ := leaves .sell ask (frontAsk ▸ List.mem_cons_self)
    have inBook : bid₀ ∈ b₀.all ∧ ask₀ ∈ b₀.all :=
      ⟨Book.mem_all_iff.2 ⟨_, memBid⟩, Book.mem_all_iff.2 ⟨_, memAsk⟩⟩
    have pair : bid.pair = b₀.pair := start.pair_of_mem sound (mem_orders_of_front frontBid)
    have ne : bid.id ≠ ask.id := start.behind sound.ids frontAsk
      (List.mem_append_right _ (frontBid ▸ List.mem_cons_self : bid ∈ p.book.orders .buy))
    rw [← sound.side .buy bid₀ memBid] at leftBid
    rw [← sound.side .sell ask₀ memAsk] at leftAsk
    obtain ⟨earlier, deals⟩ | ⟨earlier, deals⟩ := meet.deals ne run
    · exact ⟨deals.pair.1.symm.trans pair, bid₀, inBook.1, ask₀, inBook.2,
        (Order.isEarlier_of_terms leftBid.terms leftAsk.terms).symm.trans earlier,
        bid, ask, leftBid, leftAsk, deals⟩
    · exact ⟨deals.pair.2.symm.trans pair, ask₀, inBook.2, bid₀, inBook.1,
        (Order.isEarlier_of_terms leftAsk.terms leftBid.terms).symm.trans earlier,
        ask, bid, leftAsk, leftBid, deals⟩

theorem resting_honest [Build] (v : Venue) (seq : Nat) : (resting v seq b₀).Honest b₀ :=
  (resting_induction (P := fun p => (∀ side, p.Leaves b₀ side) ∧ p.Honest b₀) sound words
    ⟨fun side => leaves_start b₀ side seq, fun past _ _ split => by simp [start] at split⟩
    fun _ _ start serves ⟨leaves, honest⟩ step =>
      restingStep_honest sound words start serves leaves honest step).2.2

end Resting

section Incoming

/-- The trades of a pass of an order deal it with booked orders of the other side, as makers. -/
def HonestTo (b₀ : Book) (t : Order) (p : Pass) : Prop :=
  ∀ past r future, p.crossing.trades = past ++ r :: future → r.pair = b₀.pair ∧
    ∃ maker ∈ b₀.orders t.side.opposite, r.Honest past maker t

variable (sound : b₀.Sound) (words : ∀ o ∈ b₀.all, o.remaining < Word.size)
  (word : t.remaining < Word.size) (pair : t.pair = b₀.pair)

include sound words word pair

theorem incomingStep_honest [Build] (feeds : Feeds b₀ t p t₁) (leaves : p.Leaves b₀ t.side.opposite)
    (left : Trade.Remnant t.side p.crossing.trades t t₁) (honest : p.HonestTo b₀ t)
    (step : incomingStep v (p, t₁) = some (.ok (p', t₂))) :
    p'.Leaves b₀ t.side.opposite ∧ Trade.Remnant t.side p'.crossing.trades t t₂ ∧
      p'.HonestTo b₀ t := by
  have start := feeds.from_book
  -- Orders on the side of `t` itself are not followed: one of them may bear its id, and then the
  -- trades of `t` would count against it.
  obtain ⟨x, rest, f, front, crosses, run, rfl, ours, theirs, settled⟩ :=
    incomingStep_takes sound words word feeds step
  have side : t₁.side = t.side := Order.side_of_terms feeds.terms
  have other : x.side = t₁.side.opposite :=
    side.symm ▸ start.side t.side.opposite x (front ▸ List.mem_cons_self)
  have own : x.pair = b₀.pair := start.pair_of_mem sound (mem_orders_of_front front)
  have trades : p'.crossing.trades = p.crossing.trades ++ [f.trade] := settled.trades
  obtain ⟨pays, pays'⟩ := Fill.taking_pays other run (side.symm ▸ ours) (side.symm ▸ theirs)
  rw [side] at pays pays'
  rw [HonestTo, trades, Leaves, settled.standing, trades]
  refine ⟨?_, left.takes ours pays, forall_split_concat honest ?_⟩
  · rw [Leaves, front] at leaves
    exact Trade.remnants_fill leaves
      (fun y mem => start.behind sound.ids front (List.mem_append_left _ mem)) theirs pays'
  · obtain ⟨x₀, mem₀, left₀⟩ := leaves x (front ▸ List.mem_cons_self)
    have unfilled : t₁.remaining ≠ 0 := by
      have taken := ours.taken
      have moves := ours.moves
      omega
    have same : x.pair = t₁.pair :=
      own.trans (pair.symm.trans (Order.pair_of_terms feeds.terms).symm)
    have deals := Fill.taking_deals other same crosses unfilled
      (start.unfilled x (mem_all_of_front front)) run
    have stands : x₀.side = t.side.opposite := sound.side _ x₀ mem₀
    exact ⟨deals.pair.1.symm.trans own, x₀, mem₀, x, t₁, stands ▸ left₀, left, deals⟩

theorem incoming_honest [Build] (v : Venue) (seq : Nat) : (incoming v seq b₀ t).1.HonestTo b₀ t :=
  (incoming_induction (Q := fun p t₁ => p.Leaves b₀ t.side.opposite ∧
      Trade.Remnant t.side p.crossing.trades t t₁ ∧ p.HonestTo b₀ t) sound words word
    ⟨leaves_start b₀ _ seq, Trade.remnant_nil _ t, fun past _ _ split => by simp [start] at split⟩
    fun _ _ _ _ feeds ⟨leaves, left, honest⟩ step =>
      incomingStep_honest sound words word pair feeds leaves left honest step).2.2.2

end Incoming

end Pass

namespace Book

variable {b : Book}

/-- Every trade of a pass that does not fail is between an order of each side, as the trades before
it left them: at the price of the maker, within the limits of both, for what the smaller one has
left, and at the fee of each in proportion. The maker is the earlier one of two booked orders, and
the booked one in a pass of an order over the book. -/
theorem trades_within_limits [Build] (v : Venue) (seq : Nat) (sound : b.Sound)
    (words : ∀ o ∈ b.all, o.remaining < Word.size) :
    (∀ c, (matchResting v seq b).outcome = .ok c →
      ∀ past r future, c.trades = past ++ r :: future → r.pair = b.pair ∧
        ∃ maker ∈ b.all, ∃ taker ∈ b.all, maker.isEarlier taker = true ∧
          r.Honest past maker taker) ∧
    ∀ t : Order, t.pair = b.pair → t.remaining < Word.size →
      ∀ c, (matchIncoming v seq b t).1.outcome = .ok c →
        ∀ past r future, c.trades = past ++ r :: future → r.pair = b.pair ∧
          ∃ maker ∈ b.orders t.side.opposite, r.Honest past maker t := by
  constructor
  · intro c ended
    rw [Pass.matchResting_outcome ended]
    exact Pass.resting_honest sound words v seq
  · intro t pair word c ended
    rw [Pass.matchIncoming_outcome ended]
    exact Pass.incoming_honest sound words word pair v seq

section Checked

attribute [local instance] Build.checked

/-- The three trades of a pass over the lots, and the one of the short bid. -/
theorem chargedLots_within_limits : ∃ b c c', ofOrders ⟨"btc/cet"⟩ chargedLots = .ok b ∧
    ((matchResting ⟨3, ⟨"c"⟩, "cet"⟩ 0 b).outcome = .ok c ∧ c.trades.length = 3 ∧
      ∀ past r future, c.trades = past ++ r :: future → r.pair = b.pair ∧
        ∃ maker ∈ b.all, ∃ taker ∈ b.all, maker.isEarlier taker = true ∧
          r.Honest past maker taker) ∧
    (matchIncoming ⟨3, ⟨"c"⟩, "cet"⟩ 0 b shortBid).1.outcome = .ok c' ∧ c'.trades.length = 1 ∧
      ∀ past r future, c'.trades = past ++ r :: future → r.pair = b.pair ∧
        ∃ maker ∈ b.orders .sell, r.Honest past maker shortBid := by
  obtain ⟨b, c, c', booked, ended, length, ended', length'⟩ := chargedLots_trades
  obtain ⟨sound, pair, all⟩ := ofOrders_ok booked
  have words : ∀ o ∈ chargedLots, o.remaining < Word.size := by decide +kernel
  obtain ⟨resting, incoming⟩ := trades_within_limits ⟨3, ⟨"c"⟩, "cet"⟩ 0 sound
    fun o mem => words o (all.mem_iff.1 mem)
  exact ⟨b, c, c', booked, ⟨ended, length, resting c ended⟩, ended', length',
    incoming shortBid pair.symm (by decide +kernel) c' ended'⟩

end Checked

end Book

end Bourse
