import Bourse.Proofs.Backing
import Bourse.Proofs.Drawing

/-!
# What each step takes and returns

* `Fill.execute_drawn`, `Pass.Trading`: what a fill, and then a pass, draws from its orders;
* `matchPairs_spent`, `sweepDue_spent`: so it is of the stored orders, across matching and a sweep;
* `Ledger.Spends`: each message and each block end that succeeds settles what it draws from the
  stored orders and the one it admits, and returns what is left of those that end (`execute_spends`,
  `endBlock_spends`).
-/

namespace Bourse

/-- The effects debit what they return and what the trades draw. -/
def Draws (base : Denom) (trades : List Trade) (effects : List Effect) : Prop :=
  ∀ x d, Effect.debits effects x d =
    Effect.unfreezes effects x d + Trade.drawnSum trades base x d

section Draws

variable {base : Denom} {trades more : List Trade} {effects later : List Effect} {o : Order}

theorem draws_nil : Draws base [] [] := fun _ _ => rfl

theorem draws_releases : Draws base [] (o.releases base) := fun _ _ =>
  (Effect.unfreezes_of_releases Effect.releases_unfreeze).symm

theorem Draws.append (first : Draws base trades effects) (second : Draws base more later) :
    Draws base (trades ++ more) (effects ++ later) := by
  intro x d
  have := first x d
  have := second x d
  simp only [Effect.debits_append, Effect.unfreezes_append, Trade.drawnSum_append]
  omega

end Draws

namespace Fill

variable {v : Venue} {seq money principal fee quantity : Nat} {maker : Side} {price : Decimal}
  {buyer seller o : Order} {f : Fill} {trades : List Trade} {base d : Denom} {x : Address}

theorem stake_close (unfilled : (close o).remaining ≠ 0) : (close o).stake = o.stake := by
  rw [remaining_close] at unfilled
  rw [close, if_neg (by simpa [Order.isFilled] using unfilled)]

theorem stake_settle (paid : o.paid trades = principal) (charged : o.charged trades = fee) :
    (settle o principal fee quantity money).stake = (o.left trades).stake := by
  rw [Order.stake_eq, terms_settle, principal_settle, fee_settle, ← paid, ← charged]
  exact ⟨rfl, rfl, rfl⟩

theorem closing_unfreeze : ∀ e ∈ closing o base, ∃ owner coin, e = .unfreeze owner coin := by
  intro e mem
  rw [closing] at mem
  split at mem
  · exact Effect.releases_unfreeze e mem
  · exact absurd mem List.not_mem_nil

theorem transfers_transfer {buyerFee sellerFee : Nat} :
    ∀ e ∈ transfers v buyer seller quantity money buyerFee sellerFee,
      ∃ source target coin, e = .transfer source target coin := by
  intro e mem
  have mem := (List.mem_filter.1 mem).1
  simp only [List.mem_cons, List.not_mem_nil, or_false] at mem
  obtain rfl | rfl | rfl | rfl := mem
  · exact ⟨_, _, _, rfl⟩
  · exact ⟨_, _, _, rfl⟩
  · exact ⟨_, _, _, rfl⟩
  · exact ⟨_, _, _, rfl⟩

section Made

variable (buys : buyer.side = .buy) (sells : seller.side = .sell) (pair : seller.pair = buyer.pair)
  (apart : buyer.id ≠ seller.id)

include buys sells pair apart

theorem made_between (v : Venue) (seq : Nat) (maker : Side) (price : Decimal) (money : Nat) :
    (made v seq maker price buyer seller money).trade.Between buyer seller := by
  cases maker with
  | buy => exact ⟨buys, sells, apart, rfl, pair, .inr ⟨sells, rfl, rfl, rfl, rfl⟩⟩
  | sell => exact ⟨buys, sells, apart, rfl, pair, .inl ⟨buys, rfl, rfl, rfl, rfl⟩⟩

omit pair apart in
theorem made_amounts (v : Venue) (seq : Nat) (maker : Side) (price : Decimal) (money : Nat) :
    (made v seq maker price buyer seller money).trade.money = money ∧
      (made v seq maker price buyer seller money).trade.quantity = volume buyer seller ∧
      (made v seq maker price buyer seller money).trade.buyerFee = buyerFee buyer seller ∧
      (made v seq maker price buyer seller money).trade.sellerFee = sellerFee buyer seller := by
  cases maker with
  | buy => simp [made, record, Trade.buyerFee, Trade.sellerFee, Trade.takerIsBuyer, sells]
  | sell => simp [made, record, Trade.buyerFee, Trade.sellerFee, Trade.takerIsBuyer, buys]

/-- A fill leaves its two orders what its trade left them, unless it fills them. -/
theorem execute_drawn [Build] (run : execute v seq maker price buyer seller = .ok f) :
    Drawn [buyer, seller] ([f.buyer, f.seller].filter fun o => !o.isFilled) [f.trade] := by
  obtain ⟨money, -, pays, delivers, -, rfl⟩ := execute_ok.1 run
  have between := made_between buys sells pair apart v seq maker price money
  obtain ⟨moneyPaid, stockPaid, bought, sold⟩ := made_amounts buys sells v seq maker price money
  have ofBuyer : buyer.paid [(made v seq maker price buyer seller money).trade] = money ∧
      buyer.charged [(made v seq maker price buyer seller money).trade] =
        buyerFee buyer seller := by
    simp [between.from_buyer, moneyPaid, bought]
  have ofSeller : seller.paid [(made v seq maker price buyer seller money).trade] =
        volume buyer seller ∧
      seller.charged [(made v seq maker price buyer seller money).trade] =
        sellerFee buyer seller := by
    simp [between.from_seller, stockPaid, sold]
  constructor
  · intro o mem
    obtain ⟨mem, unfilled⟩ := List.mem_filter.1 mem
    have unfilled : o.remaining ≠ 0 := by simpa [Order.isFilled] using unfilled
    simp only [List.mem_cons, List.not_mem_nil, or_false] at mem
    obtain rfl | rfl := mem
    · exact ⟨buyer, List.mem_cons_self,
        (stake_close unfilled).trans (stake_settle ofBuyer.1 ofBuyer.2)⟩
    · exact ⟨seller, .tail _ List.mem_cons_self,
        (stake_close unfilled).trans (stake_settle ofSeller.1 ofSeller.2)⟩
  · intro o mem
    simp only [List.mem_cons, List.not_mem_nil, or_false] at mem
    obtain rfl | rfl := mem
    · rw [Order.Covers, ofBuyer.1, ofBuyer.2]
      exact ⟨pays, buyerFee_le o seller⟩
    · rw [Order.Covers, ofSeller.1, ofSeller.2]
      exact ⟨delivers, sellerFee_le buyer o⟩
  · intro t mem
    obtain rfl := List.mem_singleton.1 mem
    exact ⟨buyer, List.mem_cons_self, seller, .tail _ List.mem_cons_self, between⟩

/-- What it debits beyond what its trade draws, it returns. -/
theorem execute_draws [Build] (run : execute v seq maker price buyer seller = .ok f) :
    Draws v.baseCurrency [f.trade] f.effects := by
  obtain ⟨money, -, -, -, -, rfl⟩ := execute_ok.1 run
  have between := made_between buys sells pair apart v seq maker price money
  obtain ⟨moneyPaid, stockPaid, bought, sold⟩ := made_amounts buys sells v seq maker price money
  intro x d
  have drawn : (made v seq maker price buyer seller money).trade.drawn v.baseCurrency x d =
      Effect.debits (transfers v buyer seller (volume buyer seller) money (buyerFee buyer seller)
        (sellerFee buyer seller)) x d := by
    rw [Trade.drawn, between.counterparties_eq, moneyPaid, stockPaid, bought, sold,
      ← between.buyerPair, debits_transfers]
    grind
  have closed : ∀ o, Effect.unfreezes (closing o v.baseCurrency) x d =
      Effect.debits (closing o v.baseCurrency) x d :=
    fun o => Effect.unfreezes_of_releases closing_unfreeze
  have moved : Effect.unfreezes (transfers v buyer seller (volume buyer seller) money
      (buyerFee buyer seller) (sellerFee buyer seller)) x d = 0 :=
    Effect.unfreezes_of_transfers transfers_transfer
  rw [Trade.drawnSum_cons, Trade.drawnSum_nil, drawn]
  simp only [made, Effect.debits_append, Effect.unfreezes_append, closed, moved]
  omega

end Made

end Fill

namespace Pass

variable {v : Venue} {b₀ : Book} {p p' : Pass} {t : Order} {start orders orders' : List Order}
  {maker : Side} {buyer seller : Order} {f : Fill} {seq : Nat}

/-- The orders in the book are those of the pass that are open. -/
theorem From.open_orders (kept : From b₀ p) :
    p.orders.filter (fun o => !o.isFilled) = p.book.all := by
  have booked : p.book.all.filter (fun o => !o.isFilled) = p.book.all :=
    List.filter_eq_self.2 fun o mem => by simpa [Order.isFilled] using kept.unfilled o mem
  have filled : p.crossing.filled.filter (fun o => !o.isFilled) = [] :=
    List.filter_eq_nil_iff.2 fun o mem => by simp [Order.isFilled, (kept.filled o mem).1]
  rw [orders, List.filter_append, booked, filled, List.append_nil]

/-- A pass took `start` to `orders`, and the trades and effects so far say how. -/
structure Trading (base : Denom) (start orders : List Order) (p : Pass) : Prop where
  terms : (orders.map Order.terms).Perm (start.map Order.terms)
  drawn : Drawn start (orders.filter fun o => !o.isFilled) p.crossing.trades
  draws : Draws base p.crossing.trades p.crossing.effects

theorem trading_start (base : Denom) (start : List Order) (b₀ : Book) (seq : Nat) :
    Trading base start start (.start b₀ seq) :=
  ⟨.refl _, .of_subset fun _ mem => List.mem_of_mem_filter mem, draws_nil⟩

theorem Trading.filled [Build] (trading : Trading v.baseCurrency start orders p)
    (distinct : (start.map (·.id)).Nodup)
    (filled : Filled v maker buyer seller f p p' orders orders') :
    Trading v.baseCurrency start orders' p' := by
  obtain ⟨others, before, after⟩ := filled.orders
  have ids := (ids_of_terms trading.terms).nodup_iff.2 distinct
  have apart := (before.map (·.id)).nodup_iff.1 ids
  simp only [List.map_cons, List.nodup_cons, List.mem_cons, not_or] at apart
  obtain ⟨⟨ne, buyerAway⟩, sellerAway, -⟩ := apart
  have stillOpen : ∀ o : Order, o.remaining ≠ 0 → (!o.isFilled) = true := fun o unfilled => by
    simpa [Order.isFilled] using unfilled
  have step := Fill.execute_drawn filled.buys filled.sells filled.pair ne filled.run
  -- What else is open stands beside the two orders of the fill.
  have framed : Drawn (orders.filter fun o => !o.isFilled) (orders'.filter fun o => !o.isFilled)
      [f.trade] := by
    refine step.frame (ids.sublist (List.filter_sublist.map _)) (fun o mem => ?_) fun o mem => ?_
    · simp only [List.mem_cons, List.not_mem_nil, or_false] at mem
      obtain rfl | rfl := mem
      · exact List.mem_filter.2 ⟨before.mem_iff.2 List.mem_cons_self, stillOpen o filled.buyerOpen⟩
      · exact List.mem_filter.2
          ⟨before.mem_iff.2 (.tail _ List.mem_cons_self), stillOpen o filled.sellerOpen⟩
    · obtain ⟨mem, unfilled⟩ := List.mem_filter.1 mem
      have mem := after.mem_iff.1 mem
      simp only [List.mem_cons] at mem
      obtain rfl | rfl | mem := mem
      · exact .inl (List.mem_filter.2 ⟨List.mem_cons_self, unfilled⟩)
      · exact .inl (List.mem_filter.2 ⟨.tail _ List.mem_cons_self, unfilled⟩)
      · refine .inr ⟨List.mem_filter.2 ⟨before.mem_iff.2 (.tail _ (.tail _ mem)), unfilled⟩, ?_⟩
        simp only [List.mem_cons, List.not_mem_nil, or_false, forall_eq_or_imp, forall_eq]
        exact ⟨fun same => buyerAway (same ▸ List.mem_map_of_mem mem),
          fun same => sellerAway (same ▸ List.mem_map_of_mem mem)⟩
  obtain ⟨buyerTerms, sellerTerms⟩ := Fill.execute_terms filled.run
  refine ⟨?_, ?_, ?_⟩
  · have swapped : (orders'.map Order.terms).Perm (orders.map Order.terms) := by
      refine (after.map _).trans ?_
      rw [List.map_cons, List.map_cons, buyerTerms, sellerTerms]
      exact (before.map _).symm
    exact swapped.trans trading.terms
  · rw [filled.trades]
    exact trading.drawn.trans framed distinct
  · rw [filled.trades, filled.effects]
    exact trading.draws.append
      (Fill.execute_draws filled.buys filled.sells filled.pair ne filled.run)

theorem resting_trading [Build] (sound : b₀.Sound) (v : Venue) (seq : Nat) :
    Trading v.baseCurrency b₀.all (resting v seq b₀).orders (resting v seq b₀) := by
  have init : Trading v.baseCurrency b₀.all (start b₀ seq).orders (start b₀ seq) := by
    have all : (Pass.start b₀ seq).orders = b₀.all := List.append_nil _
    rw [all]
    exact trading_start v.baseCurrency b₀.all b₀ seq
  exact (resting_keeps (P := fun p => Trading v.baseCurrency b₀.all p.orders p) sound init
    fun _ _ _ _ _ _ _ trading filled => trading.filled sound.ids filled).2

theorem incoming_trading [Build] (sound : b₀.Sound) (v : Venue) (seq : Nat)
    (pair : t.pair = b₀.pair) (distinct : ((t :: b₀.all).map (·.id)).Nodup) :
    Trading v.baseCurrency (t :: b₀.all) ((incoming v seq b₀ t).2 :: (incoming v seq b₀ t).1.orders)
      (incoming v seq b₀ t).1 := by
  have init : Trading v.baseCurrency (t :: b₀.all) (t :: (start b₀ seq).orders) (start b₀ seq) := by
    have all : (Pass.start b₀ seq).orders = b₀.all := List.append_nil _
    rw [all]
    exact trading_start v.baseCurrency (t :: b₀.all) b₀ seq
  exact (incoming_keeps
    (Q := fun p t' => Trading v.baseCurrency (t :: b₀.all) (t' :: p.orders) p) sound pair init
    fun _ _ _ _ _ _ _ _ _ trading filled _ => trading.filled distinct filled).2.2

end Pass

section Spent

variable {base : Denom} {start mid orders : List Order} {b b' : Batch}

theorem Spent.refl (base : Denom) (orders : List Order) : Spent base orders orders {} :=
  ⟨.of_subset fun _ mem => mem, fun x d => by simp⟩

theorem Spent.trans (first : Spent base start mid b) (second : Spent base mid orders b')
    (distinct : (start.map (·.id)).Nodup) : Spent base start orders (b ++ b') := by
  refine ⟨first.toDrawn.trans second.toDrawn distinct, fun x d => ?_⟩
  have := first.returned x d
  have := second.returned x d
  change Effect.unfreezes (b.effects ++ b'.effects) x d +
    Trade.drawnSum (b.trades ++ b'.trades) base x d + _ = _
  rw [Effect.unfreezes_append, Trade.drawnSum_append]
  omega

/-- What is drawn and balances is spent. -/
theorem Drawn.spent {trades : List Trade} {effects : List Effect}
    (drawn : Drawn start orders trades) (draws : Draws base trades effects)
    (held : ∀ x d, Effect.debits effects x d + Order.escrow orders base x d =
      Order.escrow start base x d) : Spent base start orders ⟨trades, effects⟩ :=
  ⟨drawn, fun x d => by rw [← draws x d, held x d]⟩

end Spent

namespace Store

variable {s s' : Store} {o : Order} {v : Venue} {b₀ : Book} {p : Pass} {pair : PairId}
  {seq seq' : Nat} {base : Denom}

theorem used_of_resting (wf : s.tables.WellFormed) (mem : o ∈ s.resting) :
    o.id ∈ s.tables.usedIds := by
  apply wf.claimed
  rw [Std.ExtTreeMap.mem_iff_isSome_getElem?, wf.mem_values.1 mem]
  rfl

/-- An order whose id is new has an id of its own. -/
theorem nodup_admitted {orders : List Order} {admitted : Option Order}
    (distinct : (orders.map (·.id)).Nodup) (used : ∀ o ∈ orders, o.id ∈ s.tables.usedIds)
    (fresh : ∀ o ∈ admitted, o.id ∉ s.tables.usedIds) :
    ((orders ++ admitted.toList).map (·.id)).Nodup := by
  cases admitted with
  | none => rwa [Option.toList_none, List.append_nil]
  | some o =>
      refine ((List.perm_append_singleton o orders).map _).nodup_iff.2
        (List.nodup_cons.2 ⟨fun mem => ?_, distinct⟩)
      obtain ⟨o', mem, same⟩ := List.mem_map.1 mem
      have same : o'.id = o.id := same
      exact fresh o rfl (same ▸ used o' mem)

/-- The same ids are used. -/
def SameIds (s s' : Store) : Prop := s'.tables.usedIds = s.tables.usedIds

instance : Std.Refl SameIds := ⟨fun _ => rfl⟩

instance : Trans SameIds SameIds SameIds := ⟨fun first second => second.trans first⟩

/-- Matching and delisting use no ids. -/
theorem upkeep_sameIds : Upkeep SameIds where
  removeOrder run := by
    obtain ⟨-, rfl⟩ := removeOrder_ok.1 run
    exact Tables.eraseOrder_usedIds
  updateOrder run := by
    obtain ⟨_, -, -, rfl⟩ := updateOrder_ok.1 run
    rfl
  setLastPrice run := by
    obtain ⟨_, -, rfl⟩ := setLastPrice_ok run
    rfl
  removePair run := (removePair_ok run).2.2.1
  removeDelist s r := by
    rw [SameIds, removeDelist_tables]

/-- What rests after a pass was left in its book or is not of its market. -/
theorem writeBack_resting (wf : s.tables.WellFormed) (wf' : s'.tables.WellFormed)
    (load : s.loadBook pair = .ok b₀) (start : p.From b₀) {u : Unit}
    (run : writeBack pair p.finish s = .ok u s') :
    o ∈ s'.resting ↔ o ∈ p.book.all ∨ o ∈ s.resting ∧ ∀ o' ∈ b₀.all, o'.id ≠ o.id := by
  have booked := (start.apart (Book.ofOrders_ok load).1.ids).1
  rw [mem_resting wf', order?, writeBack_orders wf load start run]
  constructor
  · intro found
    split at found
    · exact .inl ((Book.find?_eq_some booked).1 found).1
    · next absent =>
        exact .inr
          ⟨wf.mem_values.2 found, fun o' mem same => absent (same ▸ List.mem_map_of_mem mem)⟩
  · rintro (mem | ⟨mem, absent⟩)
    · rw [if_pos (start.known.2 (.inl (List.mem_map_of_mem mem)))]
      exact (Book.find?_eq_some booked).2 ⟨mem, rfl⟩
    · rw [if_neg fun known => ?_]
      · exact (mem_resting wf).1 mem
      · obtain ⟨o', mem', same⟩ := List.mem_map.1 known
        exact absent o' mem' same

/-- What the matching of a market takes from the stored orders and returns to their senders. -/
theorem matchPair_spent [Build] {c : Crossing} (wf : s.tables.WellFormed)
    (run : matchPair v seq pair s = .ok (c, seq') s') :
    Spent v.baseCurrency s.resting s'.resting c.batch := by
  have wf' := ((upkeep_extends.matchPair v seq pair).ok run wf).1
  have balanced := matchPair_balanced wf run
  obtain ⟨b₀, load, rfl, -, written⟩ := matchPair_ok run
  have sound := (Book.ofOrders_ok load).1
  have start := resting_from sound v seq
  have trading := Pass.resting_trading sound v seq
  have drawn := trading.drawn
  rw [start.open_orders] at drawn
  refine Drawn.spent ?_ trading.draws balanced.held
  obtain ⟨bare, rfl⟩ | ⟨-, written⟩ := written
  · rw [show (Pass.resting v seq b₀).finish.trades = [] from bare]
    exact .of_subset fun _ mem => mem
  · exact drawn.frame (nodup_resting wf) (fun o mem => loaded_resting wf load o mem)
      fun o mem => (writeBack_resting wf wf' load start written).1 mem

theorem matchPairs_spent [Build] {pairs : List PairId} {batch : Batch} (wf : s.tables.WellFormed)
    (run : matchPairs v seq pairs s = .ok (batch, seq') s') :
    Spent v.baseCurrency s.resting s'.resting batch := by
  induction pairs generalizing s seq batch with
  | nil =>
      obtain ⟨rfl, rfl, rfl⟩ := matchPairs_nil_ok.1 run
      exact .refl v.baseCurrency s.resting
  | cons id rest ih =>
      obtain ⟨c, seq₁, t, more, first, later, rfl⟩ := matchPairs_cons_ok.1 run
      have wf' := ((upkeep_extends.matchPair v seq id).ok first wf).1
      exact (matchPair_spent wf first).trans (ih wf' later) (nodup_resting wf)

/-- A cancellation returns what the order holds. -/
theorem cancel_spent {id : OrderId} {reason : CancelReason} {out : Order × List Effect}
    (run : s.cancel id reason base = .ok (out, s')) :
    Spent base s.resting s'.resting ⟨[], out.2⟩ := by
  have held := (cancel_balanced (v := ⟨0, ⟨""⟩, base⟩) run).held
  obtain ⟨o, found, rfl, rfl⟩ := cancel_ok run
  refine Drawn.spent (.of_subset fun o' mem => ?_) draws_releases held
  have perm := resting_removeOrder (removeOrder_ok.2 ⟨found, rfl⟩)
  exact perm.symm.mem_iff.1 (.tail _ mem)

/-- And so does a sweep with the orders that it expires. -/
theorem sweepDue_spent {now : Int} {sweep : Sweep} (wf : s.tables.WellFormed)
    (run : sweepDue now base s = .ok sweep s') :
    Spent base s.resting s'.resting ⟨[], sweep.effects⟩ := by
  have sweeping : Sweeping base fun sweep t =>
      Spent base s.resting t.resting ⟨[], sweep.effects⟩ := by
    constructor
    · intro sweep t id out t' spent run
      exact spent.trans (cancel_spent run) (nodup_resting wf)
    · intro sweep t p q t' spent run
      rw [resting_removePair run]
      exact spent
    · intro sweep t r spent
      rw [resting_removeDelist]
      exact spent
  exact sweeping.sweepDue (.refl base s.resting) run

end Store

namespace Ledger

variable {l l' : Ledger} {base : Denom} {tokens : Tokens} {params : Params} {header : Header}
  {height : Nat} {done : Executed} {a : Admission}

/-- A step that admits at most one order, under a new id, and settles a batch: it takes from that
order and the stored ones what its trades draw, and returns what is left of those that end. -/
structure Spends (base : Denom) (l : Ledger) (admitted : Option Order) (b : Batch) (l' : Ledger) :
    Prop where
  spent : Spent base (l.store.resting ++ admitted.toList) l'.store.resting b
  fresh : ∀ o ∈ admitted, o.id ∉ l.store.tables.usedIds
  used : ∀ k, k ∈ l'.store.tables.usedIds ↔
    k ∈ l.store.tables.usedIds ∨ ∃ o ∈ admitted, o.id = k

/-- The orders of such a step have different ids. -/
theorem Spends.distinct {admitted : Option Order} {b : Batch} (spends : Spends base l admitted b l')
    (wf : l.store.tables.WellFormed) :
    ((l.store.resting ++ admitted.toList).map (·.id)).Nodup :=
  Store.nodup_admitted (Store.nodup_resting wf) (fun _ mem => Store.used_of_resting wf mem)
    spends.fresh

/-- A step that neither admits nor settles. -/
theorem spends_nothing (base : Denom) (orders : l'.store.tables.orders = l.store.tables.orders)
    (used : l'.store.tables.usedIds = l.store.tables.usedIds) : Spends base l none {} l' := by
  have same : l'.store.resting = l.store.resting := by rw [Store.resting, orders, Store.resting]
  refine ⟨?_, by simp, by simp [used]⟩
  rw [same, Option.toList_none, List.append_nil]
  exact .refl base l.store.resting

/-- A step that admits nothing. -/
theorem spends_of_spent {b : Batch} (spent : Spent base l.store.resting l'.store.resting b)
    (used : l'.store.tables.usedIds = l.store.tables.usedIds) : Spends base l none b l' :=
  ⟨by rwa [Option.toList_none, List.append_nil], by simp, by simp [used]⟩

theorem rest_spends (base : Denom) (run : rest a l = .ok done l') :
    Spends base l (some a.order) done.batch l' := by
  obtain ⟨s, funds, stored, -, batch, rfl⟩ := rest_ok run
  have perm : s.resting.Perm (l.store.resting ++ [a.order]) :=
    (Store.resting_putOrder stored).trans (List.perm_append_singleton _ _).symm
  obtain ⟨unused, -, rfl⟩ := Store.putOrder_ok.1 stored
  refine ⟨?_, by simpa using unused, fun k => ?_⟩
  · rw [batch]
    refine ⟨.of_subset fun o mem => perm.mem_iff.1 mem, fun x d => ?_⟩
    exact (Nat.zero_add _).trans (Order.escrow_perm perm)
  · change k ∈ l.store.tables.usedIds.insert a.order.id ↔ _
    rw [Std.ExtTreeSet.mem_insert, Std.LawfulEqCmp.compare_eq_iff_eq]
    simp [or_comm]

/-- What is settled for a taker returns, beyond what its trades draw, what is left of it. -/
theorem draws_finishTaker {c : Crossing} {taker : Order} (draws : Draws base c.trades c.effects) :
    Draws base (finishTaker c taker base).1.trades (finishTaker c taker base).1.effects := by
  rw [finishTaker]
  split
  · exact draws
  · have both : Draws base (c.trades ++ []) (c.effects ++ taker.releases base) :=
      draws.append draws_releases
    rwa [List.append_nil] at both

theorem finishTaker_trades (c : Crossing) (taker : Order) (base : Denom) :
    (finishTaker c taker base).1.trades = c.trades := by
  rw [finishTaker]
  split <;> rfl

theorem takeOnce_spends [Build] (wf : l.store.tables.WellFormed) (unfilled : a.order.remaining ≠ 0)
    (run : takeOnce a params height l = .ok done l') :
    Spends params.baseCurrency l (some a.order) done.batch l' := by
  have wf' := ((takeOnce_atomic a).store.ok run wf).1
  obtain ⟨s₁, b₀, c, s₂, _, _, claimed, loaded, ended, written, -, -, batch, rfl⟩ := takeOnce_ok run
  obtain rfl := Pass.matchIncoming_outcome ended
  have batch : done.batch = l.takenBatch a params height b₀ := batch
  have held := held_taken wf unfilled claimed loaded written
  have kept := (Store.upkeep_sameIds.writeBack _ _).ok written
  obtain ⟨unused, -, rfl⟩ := Store.claimId_ok.1 claimed
  obtain ⟨sound, pair, -⟩ := Book.ofOrders_ok loaded
  have wf₁ := wf.useId a.order.id
  have start := incoming_from sound (venue params height) l.nextFill pair.symm
  have away : ∀ o ∈ l.store.resting, a.order.id ≠ o.id := fun o mem same =>
    unused (same ▸ Store.used_of_resting wf mem)
  have booked : ∀ o ∈ b₀.all, o ∈ l.store.resting := fun o mem =>
    (Store.loaded_resting wf₁ loaded _ mem :)
  have distinct : ((a.order :: b₀.all).map (·.id)).Nodup := by
    refine List.nodup_cons.2 ⟨fun mem => ?_, sound.ids⟩
    obtain ⟨o, mem, same⟩ := List.mem_map.1 mem
    exact away o (booked o mem) same.symm
  have trading := Pass.incoming_trading sound (venue params height) l.nextFill pair.symm distinct
  have all : ((l.store.resting ++ (some a.order).toList).map (·.id)).Nodup :=
    Store.nodup_admitted (Store.nodup_resting wf) (fun o mem => Store.used_of_resting wf mem)
      (by simpa using unused)
  refine ⟨?_, by simpa using unused, fun k => ?_⟩
  · rw [batch]
    refine Drawn.spent ?_ (draws_finishTaker trading.draws) fun x d => ?_
    · rw [finishTaker_trades]
      refine trading.drawn.frame all (fun o mem => ?_) fun o mem => ?_
      · obtain rfl | mem := List.mem_cons.1 mem
        · exact List.mem_append_right _ List.mem_cons_self
        · exact List.mem_append_left _ (booked o mem)
      · obtain mem | ⟨mem, absent⟩ := (Store.writeBack_resting wf₁ wf' loaded start written).1 mem
        · rw [← start.open_orders] at mem
          exact .inl (((List.sublist_cons_self _ _).filter _).subset mem)
        · exact .inr ⟨List.mem_append_left _ mem,
            List.forall_mem_cons.2 ⟨away o mem, absent⟩⟩
    · rw [Option.toList_some, Order.escrow_append, Order.escrow_cons, Order.escrow_nil,
        Nat.add_zero]
      exact held x d
  · have used : s₂.tables.usedIds = l.store.tables.usedIds.insert a.order.id := kept
    change k ∈ s₂.tables.usedIds ↔ _
    rw [used, Std.ExtTreeSet.mem_insert, Std.LawfulEqCmp.compare_eq_iff_eq]
    simp [or_comm]

/-- An order that is placed and rests, or is taken at once. -/
theorem placeOrder_spends [Build] {m : PlaceOrder} (wf : l.store.tables.WellFormed)
    (checked : (Message.placeOrder m).check = .ok ())
    (run : placeOrder m tokens params height l = .ok done l') :
    ∃ pair a, l.store.lookup m.symbol = .ok pair ∧
      m.pass params pair (l.store.referencePrice pair.stock params.baseCurrency) tokens
        l.clearing.accounts height = .ok a ∧
      Spends params.baseCurrency l (some a.order) done.batch l' := by
  obtain ⟨pair, a, found, passed, run⟩ := placeOrder_ok run
  refine ⟨pair, a, found, passed, ?_⟩
  obtain ⟨-, run⟩ | ⟨-, run⟩ := run
  · exact rest_spends params.baseCurrency run
  · refine takeOnce_spends wf ?_ run
    simp only [Message.check, Check.bind_ok, Check.guard_ok] at checked
    obtain ⟨-, -, -, -, -, -, positive, -⟩ := checked
    obtain ⟨principal, fee, -, -, -, -, order⟩ := pass_ok passed
    rw [order]
    exact positive

/-- The other messages admit nothing. -/
theorem execute_spends [Build] {msg : Message} (other : ∀ m, msg ≠ .placeOrder m)
    (run : execute tokens params header msg l = .ok done l') :
    Spends params.baseCurrency l none done.batch l' := by
  cases msg with
  | createPair m =>
      obtain ⟨id, created, batch⟩ := execute_create_ok run
      rw [batch]
      obtain ⟨s, funds, -, listed, -, rfl⟩ := create_ok created
      obtain ⟨-, rfl⟩ := Store.insertPair_ok.1 listed
      exact spends_nothing _ rfl rfl
  | delistPair m =>
      obtain ⟨r, s, scheduled, batch, rfl⟩ := execute_delist_ok run
      rw [batch]
      obtain ⟨-, -, -, -, -, same⟩ := Store.scheduleDelist_ok scheduled
      exact spends_nothing _ (by rw [withStore_store, same]) (by rw [withStore_store, same])
  | raisePrecision m =>
      obtain ⟨out, s, raised, batch, rfl⟩ := execute_raise_ok run
      rw [batch]
      obtain ⟨pair, -, -, -, rfl⟩ := Store.raisePrecision_ok raised
      exact spends_nothing _ rfl rfl
  | placeOrder m => exact absurd rfl (other m)
  | cancelOrder m =>
      obtain ⟨out, s, clearing, cancelled, -, batch, rfl⟩ := cancelOrder_ok run
      rw [batch]
      exact spends_of_spent (Store.cancel_spent cancelled) (Store.upkeep_sameIds.cancel cancelled)

/-- A block end settles what it draws from the stored orders, and returns what is left of those that
end. -/
theorem endBlock_spends [Build] {report : Report} {batch : Batch} (wf : l.store.tables.WellFormed)
    (run : endBlock params header l = .ok (report, batch) l') :
    Spends params.baseCurrency l none batch l' := by
  obtain ⟨due, matched, nextFill, s₁, sweep, s₂, clearing, -, passed, swept, -, rfl, -, rfl⟩ :=
    endBlock_ok.1 run
  have wf₁ := ((Store.upkeep_extends.matchPairs _ due _).ok passed wf).1
  have sameIds := (Store.upkeep_sameIds.matchPairs _ due _).ok passed
  have sameIds' := (Store.upkeep_sameIds.sweepDue _).ok swept
  have spent := (Store.matchPairs_spent wf passed).trans (Store.sweepDue_spent wf₁ swept)
    (Store.nodup_resting wf)
  exact spends_of_spent spent (sameIds'.trans sameIds)

end Ledger

end Bourse
