import Bourse.Proofs.Coverage
import Bourse.Proofs.Release

/-!
# What trades make of an order's record

* `Trade.Names`, `Trade.stockOf`, `Trade.moneyOf`: the orders of a trade, and what trades exchanged
  for one order;
* `Order.after`: an order after trades, one after the other; `remaining_after`, `dealStock_after`,
  `dealMoney_after`, `status_after` and `stake_after` say what each field of it is then;
* `Order.Counts`: in a checked build the money counter of an order has room for trades;
* `Fill.execute_after`, `Pass.Recording`: a fill, and then a pass, leaves each of its orders as its
  trades say, takes no more of any than what remained of it, and is counted by each.
-/

namespace Bourse

namespace Trade

/-- The order took part in the trade. -/
def Names (t : Trade) (k : OrderId) : Prop := t.makerOrder = k ∨ t.takerOrder = k

instance (t : Trade) (k : OrderId) : Decidable (t.Names k) :=
  inferInstanceAs (Decidable (t.makerOrder = k ∨ t.takerOrder = k))

/-- The sum of `f` over the trades of an order. -/
def sumOf (f : Trade → Nat) (trades : List Trade) (k : OrderId) : Nat :=
  (trades.map fun t => if t.Names k then f t else 0).sum

/-- The stock that trades exchanged for an order. -/
def stockOf : List Trade → OrderId → Nat := sumOf quantity

/-- The money that they exchanged for it. -/
def moneyOf : List Trade → OrderId → Nat := sumOf money

variable {t : Trade} {trades more : List Trade} {k : OrderId} {f : Trade → Nat}
  {buyer seller : Order}

@[simp] theorem sumOf_nil : sumOf f [] k = 0 := rfl

@[simp] theorem sumOf_cons :
    sumOf f (t :: trades) k = (if t.Names k then f t else 0) + sumOf f trades k := by
  simp [sumOf]

@[simp] theorem sumOf_append : sumOf f (trades ++ more) k = sumOf f trades k + sumOf f more k := by
  simp [sumOf]

theorem sumOf_of_idle (idle : ∀ t ∈ trades, ¬t.Names k) : sumOf f trades k = 0 := by
  induction trades with
  | nil => rfl
  | cons t rest ih =>
      rw [List.forall_mem_cons] at idle
      rw [sumOf_cons, if_neg idle.1, ih idle.2]

/-- A trade takes nothing from an order that it does not name. -/
theorem from_of_idle {o : Order} (idle : ¬t.Names o.id) :
    t.principalFrom o = 0 ∧ t.feeFrom o = 0 := by
  have idle : ¬t.makerOrder = o.id ∧ ¬t.takerOrder = o.id := not_or.1 idle
  simp [principalFrom, feeFrom, idle]

theorem Between.names (between : t.Between buyer seller) :
    t.Names k ↔ buyer.id = k ∨ seller.id = k := by
  rw [Names]
  obtain ⟨-, taker, -, maker, -⟩ | ⟨-, taker, -, maker, -⟩ := between.roles
  · rw [taker, maker, or_comm]
  · rw [taker, maker]

end Trade

namespace Order

open Trade (stockOf moneyOf sumOf)

/-- The order after a trade, for which it was settled if it took part. -/
def traded (o : Order) (t : Trade) : Order :=
  if t.Names o.id then Fill.settle o (t.principalFrom o) (t.feeFrom o) t.quantity t.money else o

/-- The order after trades, one after the other. -/
def after (trades : List Trade) (o : Order) : Order := trades.foldl traded o

variable {o : Order} {t : Trade} {trades more : List Trade}

@[simp] theorem after_nil : o.after [] = o := rfl

theorem after_cons : o.after (t :: trades) = (o.traded t).after trades := rfl

theorem after_append : o.after (trades ++ more) = (o.after trades).after more := List.foldl_append

theorem traded_of_idle (idle : ¬t.Names o.id) : o.traded t = o := if_neg idle

theorem after_of_idle (idle : ∀ t ∈ trades, ¬t.Names o.id) : o.after trades = o := by
  induction trades with
  | nil => rfl
  | cons t rest ih =>
      rw [List.forall_mem_cons] at idle
      rw [after_cons, traded_of_idle idle.1, ih idle.2]

theorem terms_traded : (o.traded t).terms = o.terms := by
  rw [traded]
  split
  · exact Fill.terms_settle
  · rfl

theorem terms_after : (o.after trades).terms = o.terms := by
  induction trades generalizing o with
  | nil => rfl
  | cons t rest ih => exact ih.trans terms_traded

@[simp] theorem id_traded : (o.traded t).id = o.id := id_of_terms terms_traded

@[simp] theorem id_after : (o.after trades).id = o.id := id_of_terms terms_after

/-- What trades took of an order is gone from its remainder. -/
theorem remaining_after (fits : stockOf trades o.id ≤ o.remaining)
    (word : o.remaining < Word.size) :
    (o.after trades).remaining + stockOf trades o.id = o.remaining := by
  induction trades generalizing o with
  | nil => rfl
  | cons t rest ih =>
      rw [stockOf, Trade.sumOf_cons] at fits ⊢
      have first : (o.traded t).remaining + (if t.Names o.id then t.quantity else 0) =
          o.remaining := by
        rw [traded]
        split
        · next named =>
            rw [if_pos named] at fits
            rw [Fill.remaining_settle (by omega) word]
            omega
        · rfl
      have later := ih (o := o.traded t) (by rw [id_traded, stockOf]; omega) (by omega)
      rw [id_traded, stockOf] at later
      rw [after_cons]
      omega

/-- What fits an order after trades fits it together with them. -/
theorem fits_append (fits : stockOf trades o.id ≤ o.remaining) (word : o.remaining < Word.size)
    (later : stockOf more o.id ≤ (o.after trades).remaining) :
    stockOf (trades ++ more) o.id ≤ o.remaining := by
  have first := remaining_after fits word
  rw [stockOf] at first later ⊢
  rw [Trade.sumOf_append]
  omega

/-- A counter to which every trade of the order adds `f`, in words, adds up their sum. -/
theorem counter_after (count : Order → Nat) {f : Trade → Nat}
    (adds : ∀ o t, t.Names o.id → count (o.traded t) = Word.wrapAdd (count o) (f t))
    (word : count o < Word.size) :
    count (o.after trades) = (count o + sumOf f trades o.id) % Word.size := by
  induction trades generalizing o with
  | nil => exact (Nat.mod_eq_of_lt word).symm
  | cons t rest ih =>
      rw [after_cons, Trade.sumOf_cons]
      by_cases named : t.Names o.id
      · have first : count (o.traded t) = (count o + f t) % Word.size := adds o t named
        rw [if_pos named, ← Nat.add_assoc, ← Nat.mod_add_mod, ← first, ← id_traded (t := t)]
        refine ih ?_
        rw [first]
        exact Nat.mod_lt _ (by decide : 0 < Word.size)
      · rw [traded_of_idle named, if_neg named, Nat.zero_add]
        exact ih word

theorem dealStock_after (word : o.dealStock < Word.size) :
    (o.after trades).dealStock = (o.dealStock + stockOf trades o.id) % Word.size := by
  refine counter_after dealStock (fun o t named => ?_) word
  rw [traded, if_pos named]
  rfl

theorem dealMoney_after (word : o.dealMoney < Word.size) :
    (o.after trades).dealMoney = (o.dealMoney + moneyOf trades o.id) % Word.size := by
  refine counter_after dealMoney (fun o t named => ?_) word
  rw [traded, if_pos named]
  rfl

/-- In a checked build the money counter of the order, if it is a word, is one after the trades. -/
def Counts [Build] (o : Order) (trades : List Trade) : Prop :=
  Build.isChecked = true → o.dealMoney < Word.size →
    o.dealMoney + moneyOf trades o.id < Word.size

theorem counts_of_idle [Build] (idle : ∀ t ∈ trades, ¬t.Names o.id) : o.Counts trades := by
  intro _ word
  rw [moneyOf, Trade.sumOf_of_idle idle]
  exact word

theorem Counts.append [Build] (first : o.Counts trades) (later : (o.after trades).Counts more) :
    o.Counts (trades ++ more) := by
  intro checked word
  have room := first checked word
  have counted : (o.after trades).dealMoney = o.dealMoney + moneyOf trades o.id :=
    (dealMoney_after word).trans (Nat.mod_eq_of_lt room)
  have room' := later checked (counted ▸ room)
  rw [counted, id_after, Nat.add_assoc] at room'
  rw [moneyOf] at room' ⊢
  rwa [Trade.sumOf_append]

/-- An order that took part in a trade is filled, in full or in part. -/
theorem status_after (named : ∃ t ∈ trades, t.Names o.id) : (o.after trades).status =
    if (o.after trades).remaining = 0 then .filled else .partiallyFilled := by
  induction trades generalizing o with
  | nil => simp at named
  | cons t rest ih =>
      rw [after_cons]
      by_cases later : ∃ t' ∈ rest, t'.Names o.id
      · exact ih (by simpa using later)
      · have idle : ∀ t' ∈ rest, ¬t'.Names (o.traded t).id := by simpa using later
        have named : t.Names o.id := by simpa [later] using named
        rw [after_of_idle idle, traded, if_pos named]
        rfl

/-- What trades left in the escrow of an order. -/
theorem stake_after : (o.after trades).stake = (o.left trades).stake := by
  induction trades generalizing o with
  | nil => rfl
  | cons t rest ih =>
      have first : (o.traded t).stake = (o.left [t]).stake := by
        rw [traded]
        split
        · exact Fill.stake_settle (by simp) (by simp)
        · next idle =>
            obtain ⟨principal, fee⟩ := Trade.from_of_idle idle
            rw [left_of_idle (by simp [principal]) (by simp [fee])]
      rw [after_cons, ih, left_of_stake first, ← left_append, List.singleton_append]

/-- What is not named covers the trades. -/
theorem covers_of_unnamed (idle : ∀ t ∈ trades, ¬t.Names o.id) : o.Covers trades := by
  apply covers_of_idle
  · rw [paid, List.sum_eq_zero_iff_forall_eq_nat, List.forall_mem_map]
    exact fun t mem => (Trade.from_of_idle (idle t mem)).1
  · rw [charged, List.sum_eq_zero_iff_forall_eq_nat, List.forall_mem_map]
    exact fun t mem => (Trade.from_of_idle (idle t mem)).2

theorem principal_after : (o.after trades).frozenPrincipal = o.frozenPrincipal - o.paid trades :=
  (stake_eq.1 stake_after).2.1

theorem fee_after : (o.after trades).frozenFee = o.frozenFee - o.charged trades :=
  (stake_eq.1 stake_after).2.2

/-- A buy pays the money of its trades. -/
theorem paid_buy (buys : o.side = .buy) : o.paid trades = moneyOf trades o.id := by
  rw [paid, moneyOf, sumOf]
  refine congrArg List.sum (List.map_congr_left fun t _ => ?_)
  rw [Trade.principalFrom, buys]
  rfl

/-- A sell delivers their stock. -/
theorem paid_sell (sells : o.side = .sell) : o.paid trades = stockOf trades o.id := by
  rw [paid, stockOf, sumOf]
  refine congrArg List.sum (List.map_congr_left fun t _ => ?_)
  rw [Trade.principalFrom, sells]
  rfl

end Order

namespace Fill

variable {v : Venue} {seq : Nat} {maker : Side} {price : Decimal} {buyer seller o : Order}
  {f : Fill}

theorem close_of_open (unfilled : o.remaining ≠ 0) : close o = o :=
  if_neg (by simpa [Order.isFilled] using unfilled)

theorem close_close : close (close o) = close o := by
  by_cases filled : o.isFilled
  · have closed : close o = o.released := if_pos filled
    rw [closed, close, if_pos (by exact filled)]
    rfl
  · have same : close o = o := if_neg filled
    rw [same, same]

/-- A fill leaves both orders as its trade says. -/
theorem execute_after [Build] (buys : buyer.side = .buy) (sells : seller.side = .sell)
    (pair : seller.pair = buyer.pair) (apart : buyer.id ≠ seller.id)
    (run : execute v seq maker price buyer seller = .ok f) :
    f.trade.Between buyer seller ∧ f.trade.quantity = volume buyer seller ∧
      f.buyer = close (buyer.traded f.trade) ∧ f.seller = close (seller.traded f.trade) := by
  obtain ⟨money, -, -, -, -, rfl⟩ := execute_ok.1 run
  have between := made_between buys sells pair apart v seq maker price money
  obtain ⟨moneyPaid, stockPaid, bought, sold⟩ := made_amounts buys sells v seq maker price money
  obtain ⟨paid, charged⟩ := between.from_buyer
  obtain ⟨delivered, charged'⟩ := between.from_seller
  refine ⟨between, stockPaid, ?_, ?_⟩
  · rw [Order.traded, if_pos (between.names.2 (.inl rfl)), paid, charged, moneyPaid, stockPaid,
      bought]
    rfl
  · rw [Order.traded, if_pos (between.names.2 (.inr rfl)), delivered, charged', moneyPaid,
      stockPaid, sold]
    rfl

/-- In a checked build the money counters of both orders have room for a fill. -/
theorem execute_counts [Build] (buys : buyer.side = .buy) (sells : seller.side = .sell)
    (run : execute v seq maker price buyer seller = .ok f) :
    buyer.Counts [f.trade] ∧ seller.Counts [f.trade] := by
  obtain ⟨money, -, -, -, room, rfl⟩ := execute_ok.1 run
  have paid := (made_amounts buys sells v seq maker price money).1
  have adds (k : OrderId) :
      Trade.moneyOf [(made v seq maker price buyer seller money).trade] k ≤ money := by
    rw [Trade.moneyOf, Trade.sumOf_cons, Trade.sumOf_nil, paid]
    split <;> omega
  constructor <;> intro checked _
  · have fits := (Order.hasRoom_iff.1 (hasRoom_iff.1 (room checked)).1).2.2
    have := adds buyer.id
    omega
  · have fits := (Order.hasRoom_iff.1 (hasRoom_iff.1 (room checked)).2.1).2.2
    have := adds seller.id
    omega

end Fill

namespace Pass

variable {v : Venue} {b₀ : Book} {p p' : Pass} {t o : Order} {start orders orders' : List Order}
  {maker : Side} {buyer seller : Order} {f : Fill} {seq : Nat}

/-- A pass took `start` to `orders` as its trades so far say, which take no more of an order than
what remained of it, are counted by it, and move something each. -/
structure Recording [Build] (start orders : List Order) (p : Pass) : Prop where
  orders : orders.Perm (start.map fun o => Fill.close (o.after p.crossing.trades))
  fits : ∀ o ∈ start, Trade.stockOf p.crossing.trades o.id ≤ o.remaining
  counts : ∀ o ∈ start, o.Counts p.crossing.trades
  moving : ∀ t ∈ p.crossing.trades, t.quantity ≠ 0

theorem recording_start [Build] (unfilled : ∀ o ∈ start, o.remaining ≠ 0) (b₀ : Book) (seq : Nat) :
    Recording start start (.start b₀ seq) := by
  refine ⟨.of_eq ?_, fun o _ => Nat.zero_le _, fun o _ => Order.counts_of_idle ?_, ?_⟩
  · exact (List.map_id start).symm.trans
      (List.map_congr_left fun o mem => (Fill.close_of_open (unfilled o mem)).symm)
  · simp [Pass.start]
  · simp [Pass.start]

section Filled

variable [Build] (filled : Filled v maker buyer seller f p p' orders orders')

include filled

theorem Filled.mem : buyer ∈ orders ∧ seller ∈ orders := by
  obtain ⟨others, before, -⟩ := filled.orders
  exact ⟨before.mem_iff.2 (by simp), before.mem_iff.2 (by simp)⟩

variable (nodup : (orders.map (·.id)).Nodup)

include nodup

theorem Filled.after :
    f.trade.Between buyer seller ∧ f.trade.quantity = Fill.volume buyer seller ∧
      f.buyer = Fill.close (buyer.traded f.trade) ∧
      f.seller = Fill.close (seller.traded f.trade) := by
  obtain ⟨others, before, -⟩ := filled.orders
  have ids := (before.map (·.id)).nodup_iff.1 nodup
  simp only [List.map_cons, List.nodup_cons, List.mem_cons, not_or] at ids
  exact Fill.execute_after filled.buys filled.sells filled.pair ids.1.1 filled.run

/-- A trade is of orders that are open. -/
theorem Filled.meets (mem : o ∈ orders) (named : f.trade.Names o.id) : o.remaining ≠ 0 := by
  obtain ⟨buyerMem, sellerMem⟩ := filled.mem
  obtain same | same := (filled.after nodup).1.names.1 named
  · exact List.inj_on_of_nodup_map nodup buyerMem mem same ▸ filled.buyerOpen
  · exact List.inj_on_of_nodup_map nodup sellerMem mem same ▸ filled.sellerOpen

/-- A fill changes the orders of a pass as its trade says. -/
theorem Filled.traded (closed : ∀ o ∈ orders, Fill.close o = o) :
    orders'.Perm (orders.map fun o => Fill.close (o.traded f.trade)) := by
  obtain ⟨between, -, bought, sold⟩ := filled.after nodup
  obtain ⟨others, before, after⟩ := filled.orders
  have ids := (before.map (·.id)).nodup_iff.1 nodup
  simp only [List.map_cons, List.nodup_cons, List.mem_cons, not_or] at ids
  obtain ⟨⟨-, buyerAway⟩, sellerAway, -⟩ := ids
  refine after.trans (.trans (.of_eq ?_) (before.map _).symm)
  rw [List.map_cons, List.map_cons, ← bought, ← sold]
  refine congrArg (f.buyer :: f.seller :: ·) ?_
  -- The trade names none of the other orders, and those that are filled are closed already.
  refine (List.map_id others).symm.trans (List.map_congr_left fun o here => ?_)
  have idle : ¬f.trade.Names o.id := fun named => by
    obtain same | same := between.names.1 named
    · exact buyerAway (List.mem_map.2 ⟨o, here, same.symm⟩)
    · exact sellerAway (List.mem_map.2 ⟨o, here, same.symm⟩)
  rw [Order.traded_of_idle idle, closed o (before.mem_iff.2 (.tail _ (.tail _ here)))]
  rfl

end Filled

section Step

variable [Build] (recording : Recording start orders p) (distinct : (start.map (·.id)).Nodup)

include recording

theorem Recording.ids : (orders.map (·.id)).Perm (start.map (·.id)) := by
  refine (recording.orders.map _).trans (.of_eq ?_)
  rw [List.map_map]
  refine List.map_congr_left fun o _ => ?_
  exact (Order.id_of_terms Fill.terms_close).trans Order.id_after

theorem Recording.closed : ∀ o ∈ orders, Fill.close o = o := by
  intro o mem
  obtain ⟨o₀, -, rfl⟩ := List.mem_map.1 (recording.orders.mem_iff.1 mem)
  exact Fill.close_close

/-- An open order of the pass is one of the start after the trades so far. -/
theorem Recording.origin (mem : o ∈ orders) (unfilled : o.remaining ≠ 0) :
    ∃ o₀ ∈ start, o = o₀.after p.crossing.trades := by
  obtain ⟨o₀, mem₀, rfl⟩ := List.mem_map.1 (recording.orders.mem_iff.1 mem)
  rw [Fill.remaining_close] at unfilled
  exact ⟨o₀, mem₀, Fill.close_of_open unfilled⟩

/-- The next trade changes the orders that it names as it says, and no order that is filled. -/
theorem Recording.traded {t : Trade} (meets : ∀ o ∈ orders, t.Names o.id → o.remaining ≠ 0) :
    (orders.map fun o => Fill.close (o.traded t)).Perm
      (start.map fun o => Fill.close (o.after (p.crossing.trades ++ [t]))) := by
  refine (recording.orders.map _).trans (.of_eq ?_)
  rw [List.map_map]
  refine List.map_congr_left fun o mem => ?_
  rw [Function.comp_apply, Order.after_append]
  by_cases filled : (o.after p.crossing.trades).remaining = 0
  · have closed := recording.orders.mem_iff.2 (List.mem_map_of_mem mem)
    have idle : ¬t.Names (Fill.close (o.after p.crossing.trades)).id := fun named =>
      meets _ closed named (by rw [Fill.remaining_close, filled])
    rw [Order.traded_of_idle idle, Fill.close_close]
    rw [Order.id_of_terms Fill.terms_close] at idle
    rw [Order.after_cons, Order.traded_of_idle idle, Order.after_nil]
  · rw [Fill.close_of_open filled]
    rfl

include distinct

theorem Recording.eq_after {o₀ : Order} (mem : o ∈ orders) (unfilled : o.remaining ≠ 0)
    (mem₀ : o₀ ∈ start) (same : o.id = o₀.id) : o = o₀.after p.crossing.trades := by
  obtain ⟨o₁, mem₁, rfl⟩ := recording.origin mem unfilled
  rw [List.inj_on_of_nodup_map distinct mem₁ mem₀ (Order.id_after.symm.trans same)]

/-- What remains of an open order is what the trades so far did not take. -/
theorem Recording.remaining (words : ∀ o ∈ start, o.remaining < Word.size) {o₀ : Order}
    (mem : o ∈ orders) (unfilled : o.remaining ≠ 0) (mem₀ : o₀ ∈ start) (same : o.id = o₀.id) :
    o.remaining + Trade.stockOf p.crossing.trades o₀.id = o₀.remaining := by
  rw [recording.eq_after distinct mem unfilled mem₀ same]
  exact Order.remaining_after (recording.fits o₀ mem₀) (words o₀ mem₀)

theorem Recording.filled (words : ∀ o ∈ start, o.remaining < Word.size)
    (filled : Filled v maker buyer seller f p p' orders orders') :
    Recording start orders' p' := by
  have nodup := recording.ids.nodup_iff.2 distinct
  obtain ⟨between, volume, -, -⟩ := filled.after nodup
  obtain ⟨mem, mem'⟩ := filled.mem
  obtain ⟨bought, sold⟩ := Fill.execute_counts filled.buys filled.sells filled.run
  refine ⟨?_, fun o mem₀ => ?_, fun o mem₀ => ?_, ?_⟩ <;> rw [filled.trades]
  · exact (filled.traded nodup recording.closed).trans
      (recording.traded fun o here named => filled.meets nodup here named)
  · have fits := recording.fits o mem₀
    rw [Trade.stockOf, Trade.sumOf_append, Trade.sumOf_cons, Trade.sumOf_nil]
    rw [Trade.stockOf] at fits
    split
    · next named =>
        rw [volume, Fill.volume]
        obtain same | same := between.names.1 named
        · have left := recording.remaining distinct words mem filled.buyerOpen mem₀ same
          rw [Trade.stockOf] at left
          omega
        · have left := recording.remaining distinct words mem' filled.sellerOpen mem₀ same
          rw [Trade.stockOf] at left
          omega
    · omega
  · refine (recording.counts o mem₀).append ?_
    by_cases named : f.trade.Names o.id
    · obtain same | same := between.names.1 named
      · rwa [← recording.eq_after distinct mem filled.buyerOpen mem₀ same]
      · rwa [← recording.eq_after distinct mem' filled.sellerOpen mem₀ same]
    · exact Order.counts_of_idle (by simpa using named)
  · intro t here
    rw [List.mem_append, List.mem_singleton] at here
    obtain here | rfl := here
    · exact recording.moving t here
    · have buyerOpen := filled.buyerOpen
      have sellerOpen := filled.sellerOpen
      rw [volume, Fill.volume]
      omega

end Step

/-- A pass over a book leaves its orders as its trades say. -/
theorem resting_recording [Build] (sound : b₀.Sound) (words : ∀ o ∈ b₀.all, o.remaining < Word.size)
    (v : Venue) (seq : Nat) :
    Recording b₀.all (resting v seq b₀).orders (resting v seq b₀) := by
  have init : Recording b₀.all (start b₀ seq).orders (start b₀ seq) := by
    have all : (Pass.start b₀ seq).orders = b₀.all := List.append_nil _
    rw [all]
    exact recording_start sound.unfilled b₀ seq
  exact (resting_keeps (P := fun p => Recording b₀.all p.orders p) sound init
    fun _ _ _ _ _ _ _ recording filled => recording.filled sound.ids words filled).2

/-- And so does a pass of an order over a book. -/
theorem incoming_recording [Build] (sound : b₀.Sound) (v : Venue) (seq : Nat)
    (pair : t.pair = b₀.pair) (unfilled : t.remaining ≠ 0)
    (distinct : ((t :: b₀.all).map (·.id)).Nodup)
    (words : ∀ o ∈ t :: b₀.all, o.remaining < Word.size) :
    Recording (t :: b₀.all) ((incoming v seq b₀ t).2 :: (incoming v seq b₀ t).1.orders)
      (incoming v seq b₀ t).1 := by
  have init : Recording (t :: b₀.all) (t :: (start b₀ seq).orders) (start b₀ seq) := by
    have all : (Pass.start b₀ seq).orders = b₀.all := List.append_nil _
    rw [all]
    exact recording_start (List.forall_mem_cons.2 ⟨unfilled, sound.unfilled⟩) b₀ seq
  exact (incoming_keeps
    (Q := fun p t' => Recording (t :: b₀.all) (t' :: p.orders) p) sound pair init
    fun _ _ _ _ _ _ _ _ _ recording filled _ => recording.filled distinct words filled).2.2

end Pass

end Bourse
