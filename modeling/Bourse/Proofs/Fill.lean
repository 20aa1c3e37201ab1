import Bourse.Matching.Fill
import Bourse.Proofs.Settlement

/-!
# What one fill does

* `execute_ok`: a fill succeeds exactly if its money is a word, both sides hold what they owe and,
  in a checked build, the counters have room for it; then it is `made`;
* `execute_terms`: both orders keep their terms;
* `execute_held`: what its effects debit is what the two orders hold less afterwards;
* `execute_net`: what they credit beyond that is what its trade says.
-/

namespace Bourse

namespace Order

/-- What an order keeps for life: all but its remainder, its escrow and its counters. -/
def terms (o : Order) : Order :=
  { o with
    remaining := 0, frozenFee := 0, frozenPrincipal := 0, dealStock := 0, dealMoney := 0
    status := .opened }

/-- What an order holds of a denomination in escrow. -/
def held (o : Order) (base d : Denom) : Nat :=
  (if o.principalDenom = d then o.frozenPrincipal else 0) + if base = d then o.frozenFee else 0

/-- What an order holds for an account. -/
def heldFor (o : Order) (base : Denom) (x : Address) (d : Denom) : Nat :=
  if o.sender = x then o.held base d else 0

/-- What orders hold for an account together. -/
def escrow (orders : List Order) (base : Denom) (x : Address) (d : Denom) : Nat :=
  (orders.map fun o => o.heldFor base x d).sum

variable {o o' : Order} {base d : Denom} {x : Address} {orders more : List Order}

@[simp] theorem escrow_nil : escrow [] base x d = 0 := rfl

@[simp] theorem escrow_cons :
    escrow (o :: orders) base x d = o.heldFor base x d + escrow orders base x d := by
  simp [escrow]

@[simp] theorem escrow_append :
    escrow (orders ++ more) base x d = escrow orders base x d + escrow more base x d := by
  simp [escrow]

theorem escrow_perm (perm : orders.Perm more) : escrow orders base x d = escrow more base x d :=
  (perm.map _).sum_eq

section Terms

variable (same : o'.terms = o.terms)

include same

theorem id_of_terms : o'.id = o.id := (congrArg id same :)

theorem sender_of_terms : o'.sender = o.sender := (congrArg sender same :)

theorem pair_of_terms : o'.pair = o.pair := (congrArg pair same :)

theorem side_of_terms : o'.side = o.side := (congrArg side same :)

theorem principalDenom_of_terms : o'.principalDenom = o.principalDenom := by
  rw [principalDenom, principalDenom, side_of_terms same, pair_of_terms same]

theorem effectivePrice_of_terms : o'.effectivePrice = o.effectivePrice :=
  (congrArg effectivePrice same :)

end Terms

theorem debits_releases : Effect.debits (o.releases base) x d = o.heldFor base x d := by
  simp only [releases, Effect.debits_moving, Effect.debits_cons, Effect.debits_nil, Effect.debit,
    Effect.debited, Effect.coin, heldFor, held]
  grind

theorem credits_releases : Effect.credits (o.releases base) x d = o.heldFor base x d := by
  simp only [releases, Effect.credits_moving, Effect.credits_cons, Effect.credits_nil,
    Effect.credit, Effect.credited, Effect.coin, heldFor, held]
  grind

@[simp] theorem heldFor_released : o.released.heldFor base x d = 0 := by
  have principal : o.released.frozenPrincipal = 0 := rfl
  have fee : o.released.frozenFee = 0 := rfl
  simp [heldFor, held, principal, fee]

@[simp] theorem terms_released : o.released.terms = o.terms := rfl

end Order

namespace Order

variable {o : Order}

/-- A filled order holds nothing any more. -/
def Closed (o : Order) : Prop := o.remaining = 0 → o.frozenPrincipal = 0 ∧ o.frozenFee = 0

theorem Closed.heldFor (closed : o.Closed) (filled : o.remaining = 0) (base : Denom) (x : Address)
    (d : Denom) : o.heldFor base x d = 0 := by
  obtain ⟨principal, fee⟩ := closed filled
  simp [Order.heldFor, held, principal, fee]

end Order

namespace Trade

/-- An amount of one denomination, seen by another. -/
def amountIn (d e : Denom) (n : Nat) : Int := if e = d then n else 0

/-- What a trade moves to or from an account: stock to the buyer and money to the seller, each less
its own fee, and both fees to the collector. -/
def net (t : Trade) (base : Denom) (collector x : Address) (d : Denom) : Int :=
  let (buyer, seller) := t.counterparties
  let (buyerFee, sellerFee) :=
    if t.takerIsBuyer then (t.takerFee, t.makerFee) else (t.makerFee, t.takerFee)
  (if buyer = x then
      amountIn d t.pair.stock t.quantity - amountIn d t.pair.money t.money
        - amountIn d base buyerFee
    else 0)
  + (if seller = x then
      amountIn d t.pair.money t.money - amountIn d t.pair.stock t.quantity
        - amountIn d base sellerFee
    else 0)
  + if collector = x then amountIn d base (t.makerFee + t.takerFee) else 0

/-- What trades move together. -/
def netSum (trades : List Trade) (base : Denom) (collector x : Address) (d : Denom) : Int :=
  (trades.map fun t => t.net base collector x d).sum

variable {t : Trade} {trades more : List Trade} {base d : Denom} {collector x : Address}

@[simp] theorem netSum_nil : netSum [] base collector x d = 0 := rfl

@[simp] theorem netSum_cons : netSum (t :: trades) base collector x d =
    t.net base collector x d + netSum trades base collector x d := by
  simp [netSum]

@[simp] theorem netSum_append : netSum (trades ++ more) base collector x d =
    netSum trades base collector x d + netSum more base collector x d := by
  simp [netSum]

end Trade

theorem Order.hasRoom_iff {o : Order} {quantity money : Nat} :
    o.hasRoom quantity money = true ↔ quantity ≤ o.remaining ∧
      o.dealStock + quantity < Word.size ∧ o.dealMoney + money < Word.size := by
  simp only [hasRoom, Bool.and_eq_true, decide_eq_true_eq, and_assoc]

namespace Fill

variable {v : Venue} {seq money quantity principal fee : Nat} {maker : Side} {price : Decimal}
  {buyer seller o : Order} {f : Fill} {base d : Denom} {x : Address}

/-- The quantity that two orders exchange. -/
def volume (buyer seller : Order) : Nat := min buyer.remaining seller.remaining

def buyerFee (buyer seller : Order) : Nat :=
  Fee.share buyer.frozenFee (volume buyer seller) buyer.remaining

def sellerFee (buyer seller : Order) : Nat :=
  Fee.share seller.frozenFee (volume buyer seller) seller.remaining

theorem buyerFee_le (buyer seller : Order) : buyerFee buyer seller ≤ buyer.frozenFee := Fee.share_le

theorem sellerFee_le (buyer seller : Order) : sellerFee buyer seller ≤ seller.frozenFee :=
  Fee.share_le

/-- The fill that moves `money`. -/
def made (v : Venue) (seq : Nat) (maker : Side) (price : Decimal) (buyer seller : Order)
    (money : Nat) : Fill :=
  let quantity := volume buyer seller
  let buyerFee := buyerFee buyer seller
  let sellerFee := sellerFee buyer seller
  let buyer' := settle buyer money buyerFee quantity money
  let seller' := settle seller quantity sellerFee quantity money
  { buyer := close buyer'
    seller := close seller'
    trade :=
      match maker with
      | .buy => record v seq buyer.pair price quantity money buyer seller buyerFee sellerFee
      | .sell => record v seq buyer.pair price quantity money seller buyer sellerFee buyerFee
    effects := transfers v buyer seller quantity money buyerFee sellerFee
      ++ closing buyer' v.baseCurrency ++ closing seller' v.baseCurrency }

theorem hasRoom_iff : hasRoom seq buyer seller quantity money = true ↔
    buyer.hasRoom quantity money = true ∧ seller.hasRoom quantity money = true ∧
      seq + 1 < Word.size := by
  simp only [hasRoom, Bool.and_eq_true, decide_eq_true_eq, and_assoc]

theorem execute_ok [Build] : execute v seq maker price buyer seller = .ok f ↔
    ∃ money, Fee.fillMoney (volume buyer seller) price = .ok money ∧
      money ≤ buyer.frozenPrincipal ∧ volume buyer seller ≤ seller.frozenPrincipal ∧
      (Build.isChecked = true → hasRoom seq buyer seller (volume buyer seller) money = true) ∧
      f = made v seq maker price buyer seller money := by
  simp only [execute, Check.bind_ok, Check.guard_ok, Check.pure_ok, Nat.not_lt,
    Bool.not_eq_true, Build.stops_eq_false_iff]
  refine exists_congr fun money => and_congr_right fun _ => and_congr_right fun _ =>
    and_congr_right fun _ => and_congr_right fun _ => ?_
  rw [eq_comm]
  rfl

section Sides

@[simp] theorem terms_recordFill : (o.recordFill quantity money).terms = o.terms := by
  rw [Order.recordFill, Order.terms, Order.terms]

@[simp] theorem terms_settle : (settle o principal fee quantity money).terms = o.terms := by
  rw [settle, terms_recordFill, Order.terms, Order.terms]

@[simp] theorem principal_settle :
    (settle o principal fee quantity money).frozenPrincipal = o.frozenPrincipal - principal := by
  rw [settle, Order.recordFill]

@[simp] theorem fee_settle :
    (settle o principal fee quantity money).frozenFee = o.frozenFee - fee := by
  rw [settle, Order.recordFill]

@[simp] theorem terms_close : (close o).terms = o.terms := by
  rw [close]
  split
  · exact Order.terms_released
  · rfl

@[simp] theorem remaining_close : (close o).remaining = o.remaining := by
  rw [close]
  split <;> rfl

theorem closed_close : (close o).Closed := by
  intro filled
  rw [remaining_close] at filled
  rw [close, if_pos (by simpa [Order.isFilled] using filled)]
  exact ⟨rfl, rfl⟩

theorem heldFor_settle (quantity money : Nat) (base : Denom) (x : Address) (d : Denom)
    (principalHeld : principal ≤ o.frozenPrincipal) (feeHeld : fee ≤ o.frozenFee) :
    (settle o principal fee quantity money).heldFor base x d +
        (if o.sender = x ∧ o.principalDenom = d then principal else 0) +
        (if o.sender = x ∧ base = d then fee else 0) = o.heldFor base x d := by
  have same : (settle o principal fee quantity money).terms = o.terms := terms_settle
  simp only [Order.heldFor, Order.held, Order.sender_of_terms same,
    Order.principalDenom_of_terms same, principal_settle, fee_settle]
  grind

theorem debits_closing (o : Order) (base : Denom) (x : Address) (d : Denom) :
    Effect.debits (closing o base) x d + (close o).heldFor base x d = o.heldFor base x d := by
  rw [closing, close]
  split
  · rw [Order.debits_releases, Order.heldFor_released, Nat.add_zero]
  · simp

theorem credits_closing :
    Effect.credits (closing o base) x d = Effect.debits (closing o base) x d := by
  rw [closing]
  split
  · rw [Order.credits_releases, Order.debits_releases]
  · rfl

end Sides

/-- In a checked build a fill leaves a number for the next. -/
theorem execute_next [Build] (run : execute v seq maker price buyer seller = .ok f)
    (checked : Build.isChecked = true) : seq + 1 < Word.size := by
  obtain ⟨money, -, -, -, room, -⟩ := execute_ok.1 run
  exact (hasRoom_iff.1 (room checked)).2.2

section Execute

variable [Build] (run : execute v seq maker price buyer seller = .ok f)

include run

/-- Both orders keep their terms. -/
theorem execute_terms : f.buyer.terms = buyer.terms ∧ f.seller.terms = seller.terms := by
  obtain ⟨money, -, -, -, -, rfl⟩ := execute_ok.1 run
  exact ⟨terms_close.trans terms_settle, terms_close.trans terms_settle⟩

theorem execute_closed : f.buyer.Closed ∧ f.seller.Closed := by
  obtain ⟨money, -, -, -, -, rfl⟩ := execute_ok.1 run
  exact ⟨closed_close, closed_close⟩

end Execute

section Transfers

variable {buyerFee sellerFee : Nat}

theorem debits_transfers :
    Effect.debits (transfers v buyer seller quantity money buyerFee sellerFee) x d =
      (if buyer.sender = x ∧ buyer.pair.money = d then money else 0) +
      (if seller.sender = x ∧ buyer.pair.stock = d then quantity else 0) +
      (if buyer.sender = x ∧ v.baseCurrency = d then buyerFee else 0) +
      if seller.sender = x ∧ v.baseCurrency = d then sellerFee else 0 := by
  simp only [transfers, Effect.debits_moving, Effect.debits_cons, Effect.debits_nil, Effect.debit,
    Effect.debited, Effect.coin, Nat.add_assoc, Nat.add_zero]
  rfl

theorem credits_transfers :
    Effect.credits (transfers v buyer seller quantity money buyerFee sellerFee) x d =
      (if seller.sender = x ∧ buyer.pair.money = d then money else 0) +
      (if buyer.sender = x ∧ buyer.pair.stock = d then quantity else 0) +
      (if v.feeCollector = x ∧ v.baseCurrency = d then buyerFee else 0) +
      if v.feeCollector = x ∧ v.baseCurrency = d then sellerFee else 0 := by
  simp only [transfers, Effect.credits_moving, Effect.credits_cons, Effect.credits_nil,
    Effect.credit, Effect.credited, Effect.coin, Nat.add_assoc, Nat.add_zero]
  rfl

end Transfers

section Balance

variable [Build] (run : execute v seq maker price buyer seller = .ok f) (buys : buyer.side = .buy)
  (sells : seller.side = .sell)

include run buys sells

/-- A fill debits what its two orders hold less afterwards. -/
theorem execute_held (pair : seller.pair = buyer.pair) :
    Effect.debits f.effects x d + f.buyer.heldFor v.baseCurrency x d +
        f.seller.heldFor v.baseCurrency x d =
      buyer.heldFor v.baseCurrency x d + seller.heldFor v.baseCurrency x d := by
  obtain ⟨money, -, pays, delivers, -, rfl⟩ := execute_ok.1 run
  have paid := heldFor_settle (volume buyer seller) money v.baseCurrency x d pays
    (buyerFee_le buyer seller)
  have delivered := heldFor_settle (volume buyer seller) money v.baseCurrency x d delivers
    (sellerFee_le buyer seller)
  have closedBuyer := debits_closing
    (settle buyer money (buyerFee buyer seller) (volume buyer seller) money) v.baseCurrency x d
  have closedSeller := debits_closing
    (settle seller (volume buyer seller) (sellerFee buyer seller) (volume buyer seller) money)
    v.baseCurrency x d
  have money : buyer.principalDenom = buyer.pair.money := by rw [Order.principalDenom, buys]
  have stock : seller.principalDenom = buyer.pair.stock := by
    rw [Order.principalDenom, sells, pair]
  rw [money] at paid
  rw [stock] at delivered
  simp only [made, Effect.debits_append, debits_transfers]
  omega

/-- What a fill credits beyond what it debits is what its trade says. -/
theorem execute_net : (Effect.credits f.effects x d : Int) =
    Effect.debits f.effects x d + f.trade.net v.baseCurrency v.feeCollector x d := by
  obtain ⟨money, -, -, -, -, rfl⟩ := execute_ok.1 run
  have net : (made v seq maker price buyer seller money).trade.net
      v.baseCurrency v.feeCollector x d =
      (if buyer.sender = x then
        Trade.amountIn d buyer.pair.stock (volume buyer seller)
          - Trade.amountIn d buyer.pair.money money
          - Trade.amountIn d v.baseCurrency (buyerFee buyer seller)
      else 0)
      + (if seller.sender = x then
        Trade.amountIn d buyer.pair.money money
          - Trade.amountIn d buyer.pair.stock (volume buyer seller)
          - Trade.amountIn d v.baseCurrency (sellerFee buyer seller)
      else 0)
      + if v.feeCollector = x then
        Trade.amountIn d v.baseCurrency (buyerFee buyer seller + sellerFee buyer seller)
      else 0 := by
    cases maker <;>
      simp [made, record, Trade.net, Trade.counterparties, Trade.takerIsBuyer, buys, sells,
        Nat.add_comm]
  rw [net]
  simp only [made, Effect.debits_append, Effect.credits_append, credits_closing,
    debits_transfers, credits_transfers, Trade.amountIn]
  push_cast
  grind

end Balance

end Fill

end Bourse
