import Bourse.Proofs.Release
import Bourse.Proofs.Turns

/-!
# The effects of a pass account for what its orders hold

* `Trade.transfers`: what a trade moves between the parties and to the fee collector, and
  `Trade.income` what that brings an account;
* `Fill.execute_transfers`: a fill transfers what its trade moves and nothing else, so a pass
  transfers what its trades move (`resting_transfers`, `incoming_transfers`);
* `effects_account_for_escrow`: the effects of a pass debit what its orders hold less afterwards,
  leave the filled ones nothing, and credit others with what the trades say.
-/

namespace Bourse

namespace Effect

/-- The effect moves funds to another account. -/
def isTransfer : Effect → Bool
  | transfer _ _ _ => true
  | unfreeze _ _ => false

variable {effects : List Effect}

theorem filter_transfers
    (moves : ∀ e ∈ effects, ∃ source target coin, e = transfer source target coin) :
    effects.filter (·.isTransfer) = effects := by
  refine List.filter_eq_self.2 fun e mem => ?_
  obtain ⟨source, target, coin, rfl⟩ := moves e mem
  rfl

theorem filter_releases (returns : ∀ e ∈ effects, ∃ owner coin, e = unfreeze owner coin) :
    effects.filter (·.isTransfer) = [] := by
  refine List.filter_eq_nil_iff.2 fun e mem => ?_
  obtain ⟨owner, coin, rfl⟩ := returns e mem
  exact Bool.false_ne_true

end Effect

namespace Trade

/-- What a trade moves: money to the seller, stock to the buyer, and the fee of each to the
collector. -/
def transfers (v : Venue) (t : Trade) : List Effect :=
  Effect.moving [
    .transfer t.counterparties.1 t.counterparties.2 ⟨t.pair.money, t.money⟩,
    .transfer t.counterparties.2 t.counterparties.1 ⟨t.pair.stock, t.quantity⟩,
    .transfer t.counterparties.1 v.feeCollector ⟨v.baseCurrency, t.buyerFee⟩,
    .transfer t.counterparties.2 v.feeCollector ⟨v.baseCurrency, t.sellerFee⟩]

/-- What a trade brings an account: the stock if it buys, the money if it sells, and both fees if it
collects them. -/
def income (v : Venue) (t : Trade) (x : Address) (d : Denom) : Nat :=
  (if t.counterparties.1 = x ∧ t.pair.stock = d then t.quantity else 0) +
  (if t.counterparties.2 = x ∧ t.pair.money = d then t.money else 0) +
  if v.feeCollector = x ∧ v.baseCurrency = d then t.makerFee + t.takerFee else 0

variable {v : Venue} {x : Address} {d : Denom}

theorem credits_transfers (t : Trade) : Effect.credits (t.transfers v) x d = t.income v x d := by
  have fees : t.buyerFee + t.sellerFee = t.makerFee + t.takerFee := by
    rw [buyerFee, sellerFee]
    split
    · exact Nat.add_comm _ _
    · rfl
  simp only [transfers, Effect.credits_moving, Effect.credits_cons, Effect.credits_nil,
    Effect.credit, Effect.credited, Effect.coin, income, ← fees]
  grind

/-- Trades bring an account the sum of what each of them brings. -/
theorem credits_flatMap (trades : List Trade) :
    Effect.credits (trades.flatMap (transfers v)) x d =
      (trades.map fun t => t.income v x d).sum := by
  induction trades with
  | nil => rfl
  | cons t rest ih =>
      rw [List.flatMap_cons, Effect.credits_append, credits_transfers, ih, List.map_cons,
        List.sum_cons]

end Trade

namespace Fill

variable {v : Venue} {seq : Nat} {maker : Side} {price : Decimal} {buyer seller : Order} {f : Fill}

/-- A fill transfers what its trade moves. -/
theorem execute_transfers [Build] (run : execute v seq maker price buyer seller = .ok f)
    (buys : buyer.side = .buy) (sells : seller.side = .sell) :
    f.effects.filter (·.isTransfer) = f.trade.transfers v := by
  obtain ⟨money, -, -, -, -, rfl⟩ := execute_ok.1 run
  obtain ⟨paid, delivered, bought, sold⟩ := made_amounts buys sells v seq maker price money
  have parties : (made v seq maker price buyer seller money).trade.counterparties =
      (buyer.sender, seller.sender) := by
    cases maker <;>
      simp [made, record, Trade.counterparties, Trade.takerIsBuyer, buys, sells]
  have pair : (made v seq maker price buyer seller money).trade.pair = buyer.pair := by
    cases maker <;> rfl
  have moved : (made v seq maker price buyer seller money).trade.transfers v =
      transfers v buyer seller (volume buyer seller) money (buyerFee buyer seller)
        (sellerFee buyer seller) := by
    rw [Trade.transfers, parties, pair, paid, delivered, bought, sold, transfers]
  rw [moved]
  simp only [made, List.filter_append, Effect.filter_releases closing_unfreeze, List.append_nil,
    Effect.filter_transfers transfers_transfer]

end Fill

namespace Crossing

/-- The transfers of a pass are those of its trades. -/
def Transfers (v : Venue) (c : Crossing) : Prop :=
  c.effects.filter (·.isTransfer) = c.trades.flatMap (Trade.transfers v)

/-- The effects of a pass account for the orders that took part, before and after it. -/
structure Accounted (v : Venue) (before after : List Order) (c : Crossing) : Prop where
  same : (after.map Order.terms).Perm (before.map Order.terms)
  debited : ∀ x d, Effect.debits c.effects x d + Order.escrow after v.baseCurrency x d =
    Order.escrow before v.baseCurrency x d
  filled : ∀ o ∈ c.filled, o.remaining = 0
  closed : ∀ o ∈ after, o.remaining = 0 → o.frozenPrincipal = 0 ∧ o.frozenFee = 0
  transfers : c.Transfers v
  credited : ∀ x d, Effect.credits (c.effects.filter (·.isTransfer)) x d =
    (c.trades.map fun t => t.income v x d).sum

theorem Transfers.credited {v : Venue} {c : Crossing} (transfers : c.Transfers v) (x : Address)
    (d : Denom) : Effect.credits (c.effects.filter (·.isTransfer)) x d =
      (c.trades.map fun t => t.income v x d).sum := by
  rw [transfers, Trade.credits_flatMap]

end Crossing

namespace Pass

variable {v : Venue} {b₀ : Book} {p p' : Pass} {t : Order} {seq : Nat} {maker : Side}
  {buyer seller : Order} {f : Fill} {orders orders' : List Order}

theorem Filled.transfers [Build] (filled : Filled v maker buyer seller f p p' orders orders')
    (moved : p.crossing.Transfers v) : p'.crossing.Transfers v := by
  rw [Crossing.Transfers, filled.effects, filled.trades, List.filter_append, moved,
    Fill.execute_transfers filled.run filled.buys filled.sells, List.flatMap_append,
    List.flatMap_singleton]

theorem resting_transfers [Build] (sound : b₀.Sound) (v : Venue) (seq : Nat) :
    (resting v seq b₀).crossing.Transfers v :=
  (resting_keeps (P := fun p => p.crossing.Transfers v) sound rfl
    fun _ _ _ _ _ _ _ moved filled => filled.transfers moved).2

theorem incoming_transfers [Build] (sound : b₀.Sound) (v : Venue) (seq : Nat)
    (pair : t.pair = b₀.pair) :
    (incoming v seq b₀ t).1.crossing.Transfers v :=
  (incoming_keeps (Q := fun p _ => p.crossing.Transfers v) sound pair rfl
    fun _ _ _ _ _ _ _ _ _ moved filled _ => filled.transfers moved).2.2

/-- A filled order of a pass holds nothing. -/
theorem From.closed (start : From b₀ p) : ∀ o ∈ p.orders, o.Closed := by
  intro o mem empty
  rw [orders, List.mem_append] at mem
  rcases mem with mem | mem
  · exact absurd empty (start.unfilled o mem)
  · exact (start.filled o mem).2 empty

end Pass

namespace Book

variable {b : Book}

/-- The effects of a pass that does not fail debit, by account and denomination, what its orders
hold less afterwards, of which those that it filled hold nothing. Its transfers are, trade by trade,
the money, the stock and the fees. -/
theorem effects_account_for_escrow [Build] (v : Venue) (seq : Nat) (sound : b.Sound) :
    (∀ c, (matchResting v seq b).outcome = .ok c →
      c.Accounted v b.all ((matchResting v seq b).book.all ++ c.filled)) ∧
    ∀ t : Order, t.pair = b.pair → t.remaining ≠ 0 →
      ∀ c, (matchIncoming v seq b t).1.outcome = .ok c →
        c.Accounted v (t :: b.all)
          ((matchIncoming v seq b t).2 :: ((matchIncoming v seq b t).1.book.all ++ c.filled)) := by
  constructor
  · intro c ended
    obtain rfl := Pass.matchResting_outcome ended
    have start := resting_from sound v seq
    have moved := Pass.resting_transfers sound v seq
    exact ⟨start.terms, (resting_balanced sound v seq).held, fun o mem => (start.filled o mem).1,
      start.closed, moved, moved.credited⟩
  · intro t pair unfilled c ended
    obtain rfl := Pass.matchIncoming_outcome ended
    have start := incoming_from sound v seq pair
    have moved := Pass.incoming_transfers sound v seq pair
    refine ⟨?_, (incoming_balanced sound v seq pair).held, fun o mem => (start.filled o mem).1,
      List.forall_mem_cons.2 ⟨?_, start.closed⟩, moved, moved.credited⟩
    · rw [List.map_cons, List.map_cons]
      exact incoming_terms sound v seq pair ▸ start.terms.cons _
    · exact incoming_closed sound v seq pair fun filled => absurd filled unfilled

section Checked

attribute [local instance] Build.checked

/-- Three trades, of which the fee collector is a party to one, and one of the short bid. -/
theorem chargedLots_accounted : ∃ b c c', ofOrders ⟨"btc/cet"⟩ chargedLots = .ok b ∧
    ((matchResting ⟨3, ⟨"c"⟩, "cet"⟩ 0 b).outcome = .ok c ∧ c.trades.length = 3 ∧
      c.Accounted ⟨3, ⟨"c"⟩, "cet"⟩ b.all
        ((matchResting ⟨3, ⟨"c"⟩, "cet"⟩ 0 b).book.all ++ c.filled)) ∧
    (matchIncoming ⟨3, ⟨"c"⟩, "cet"⟩ 0 b shortBid).1.outcome = .ok c' ∧ c'.trades.length = 1 ∧
      c'.Accounted ⟨3, ⟨"c"⟩, "cet"⟩ (shortBid :: b.all)
        ((matchIncoming ⟨3, ⟨"c"⟩, "cet"⟩ 0 b shortBid).2 ::
          ((matchIncoming ⟨3, ⟨"c"⟩, "cet"⟩ 0 b shortBid).1.book.all ++ c'.filled)) := by
  obtain ⟨b, c, c', booked, ended, length, ended', length'⟩ := chargedLots_trades
  obtain ⟨sound, pair, -⟩ := ofOrders_ok booked
  obtain ⟨resting, incoming⟩ := effects_account_for_escrow ⟨3, ⟨"c"⟩, "cet"⟩ 0 sound
  exact ⟨b, c, c', booked, ⟨ended, length, resting c ended⟩, ended', length',
    incoming shortBid pair.symm (by decide) c' ended'⟩

end Checked

end Book

end Bourse
