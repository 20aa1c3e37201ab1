import Bourse.Proofs.Fill

/-!
# What trades draw from the escrow of orders

* `Order.paid`, `Order.charged`: the principal and the fee that trades took from an order;
  `Order.left` is the order with what they left it;
* `Drawn`: orders that trades led to from others hold what the trades left them (`Drawn.trans`,
  `Drawn.frame`, `Drawn.fill`);
* `Drawn.drawnSum`: what the trades draw from the accounts is what they took from the orders;
* `Spent.released`: so the amounts that return are what is left of the orders that ended.
-/

namespace Bourse

namespace Effect

/-- What an effect returns to an account. -/
def unfrozen (e : Effect) (x : Address) (d : Denom) : Nat :=
  match e with
  | unfreeze owner coin => if owner = x ∧ coin.denom = d then coin.amount else 0
  | transfer _ _ _ => 0

/-- What effects return to an account together. -/
def unfreezes (effects : List Effect) (x : Address) (d : Denom) : Nat :=
  (effects.map fun e => e.unfrozen x d).sum

variable {effects more : List Effect} {x : Address} {d : Denom}

@[simp] theorem unfreezes_nil : unfreezes [] x d = 0 := rfl

@[simp] theorem unfreezes_append :
    unfreezes (effects ++ more) x d = unfreezes effects x d + unfreezes more x d := by
  simp [unfreezes]

/-- All that these effects debit returns to its owner. -/
theorem unfreezes_of_releases (returns : ∀ e ∈ effects, ∃ owner coin, e = unfreeze owner coin) :
    unfreezes effects x d = debits effects x d := by
  induction effects with
  | nil => rfl
  | cons e rest ih =>
      obtain ⟨owner, coin, rfl⟩ := returns e List.mem_cons_self
      rw [debits_cons, ← ih fun e mem => returns e (.tail _ mem)]
      rfl

theorem releases_unfreeze {o : Order} {base : Denom} :
    ∀ e ∈ o.releases base, ∃ owner coin, e = unfreeze owner coin := by
  intro e mem
  have mem := (List.mem_filter.1 mem).1
  simp only [List.mem_cons, List.not_mem_nil, or_false] at mem
  obtain rfl | rfl := mem
  · exact ⟨_, _, rfl⟩
  · exact ⟨_, _, rfl⟩

/-- And nothing of what only moves to others. -/
theorem unfreezes_of_transfers
    (moves : ∀ e ∈ effects, ∃ source target coin, e = transfer source target coin) :
    unfreezes effects x d = 0 := by
  induction effects with
  | nil => rfl
  | cons e rest ih =>
      obtain ⟨source, target, coin, rfl⟩ := moves e List.mem_cons_self
      have rest := ih fun e mem => moves e (.tail _ mem)
      rw [unfreezes] at rest ⊢
      rw [List.map_cons, List.sum_cons, rest]
      rfl

end Effect

namespace Trade

/-- The principal that a trade takes from an order: money from a buy, stock from a sell. -/
def principalFrom (t : Trade) (o : Order) : Nat :=
  if t.makerOrder = o.id ∨ t.takerOrder = o.id then
    match o.side with
    | .buy => t.money
    | .sell => t.quantity
  else 0

/-- The fee that a trade charges to an order. -/
def feeFrom (t : Trade) (o : Order) : Nat :=
  (if t.makerOrder = o.id then t.makerFee else 0) + if t.takerOrder = o.id then t.takerFee else 0

def buyerFee (t : Trade) : Nat := if t.takerIsBuyer then t.takerFee else t.makerFee

def sellerFee (t : Trade) : Nat := if t.takerIsBuyer then t.makerFee else t.takerFee

/-- What a trade takes from the escrow of an account: the money and a fee from the buyer, the stock
and a fee from the seller. -/
def drawn (t : Trade) (base : Denom) (x : Address) (d : Denom) : Nat :=
  (if t.counterparties.1 = x then
    (if t.pair.money = d then t.money else 0) + if base = d then t.buyerFee else 0 else 0) +
  if t.counterparties.2 = x then
    (if t.pair.stock = d then t.quantity else 0) + if base = d then t.sellerFee else 0 else 0

/-- What trades take together. -/
def drawnSum (trades : List Trade) (base : Denom) (x : Address) (d : Denom) : Nat :=
  (trades.map fun t => t.drawn base x d).sum

/-- The trade is between these two orders. -/
structure Between (t : Trade) (buyer seller : Order) : Prop where
  buys : buyer.side = .buy
  sells : seller.side = .sell
  apart : buyer.id ≠ seller.id
  buyerPair : buyer.pair = t.pair
  sellerPair : seller.pair = t.pair
  roles : (t.takerSide = .buy ∧ t.takerOrder = buyer.id ∧ t.taker = buyer.sender ∧
      t.makerOrder = seller.id ∧ t.maker = seller.sender) ∨
    (t.takerSide = .sell ∧ t.takerOrder = seller.id ∧ t.taker = seller.sender ∧
      t.makerOrder = buyer.id ∧ t.maker = buyer.sender)

variable {t : Trade} {trades more : List Trade} {base d : Denom} {x : Address}

@[simp] theorem drawnSum_nil : drawnSum [] base x d = 0 := rfl

@[simp] theorem drawnSum_cons :
    drawnSum (t :: trades) base x d = t.drawn base x d + drawnSum trades base x d := by
  simp [drawnSum]

@[simp] theorem drawnSum_append :
    drawnSum (trades ++ more) base x d = drawnSum trades base x d + drawnSum more base x d := by
  simp [drawnSum]

end Trade

namespace Order

/-- The principal that trades took from an order. -/
def paid (trades : List Trade) (o : Order) : Nat := (trades.map fun t => t.principalFrom o).sum

/-- The fees that they charged to it. -/
def charged (trades : List Trade) (o : Order) : Nat := (trades.map fun t => t.feeFrom o).sum

/-- The order with what trades left it. -/
def left (trades : List Trade) (o : Order) : Order :=
  { o with
    frozenPrincipal := o.frozenPrincipal - o.paid trades
    frozenFee := o.frozenFee - o.charged trades }

/-- The order with what they took. -/
def spent (trades : List Trade) (o : Order) : Order :=
  { o with frozenPrincipal := o.paid trades, frozenFee := o.charged trades }

/-- An order up to what only counts its fills. -/
def stake (o : Order) : Order :=
  { o with remaining := 0, dealStock := 0, dealMoney := 0, status := .opened }

/-- The order holds at least what trades took from it. -/
def Covers (o : Order) (trades : List Trade) : Prop :=
  o.paid trades ≤ o.frozenPrincipal ∧ o.charged trades ≤ o.frozenFee

variable {o o' : Order} {t : Trade} {trades more : List Trade} {base d : Denom} {x : Address}
  {orders orders' : List Order}

section Stakes

theorem stake_eq : o.stake = o'.stake ↔
    o.terms = o'.terms ∧ o.frozenPrincipal = o'.frozenPrincipal ∧ o.frozenFee = o'.frozenFee := by
  simp only [stake, terms, Order.mk.injEq]
  tauto

@[simp] theorem principalDenom_left : (o.left trades).principalDenom = o.principalDenom := rfl

@[simp] theorem principalDenom_spent : (o.spent trades).principalDenom = o.principalDenom := rfl

theorem left_of_stake (same : o.stake = o'.stake) :
    (o.left trades).stake = (o'.left trades).stake :=
  (congrArg (left trades) same :)

/-- Orders with the same stakes hold the same. -/
theorem escrow_of_stakes (same : (orders.map stake).Perm (orders'.map stake)) :
    escrow orders base x d = escrow orders' base x d := by
  have sums := (same.map fun o => o.heldFor base x d).sum_eq
  rw [List.map_map, List.map_map] at sums
  exact sums

/-- Of orders with the same stakes, those of some ids have the same stakes, also after trades. -/
theorem stakes_left_filter {P : OrderId → Prop} [DecidablePred P]
    (same : (orders.map stake).Perm (orders'.map stake)) :
    (((orders.filter fun o => P o.id).map (left trades)).map stake).Perm
      (((orders'.filter fun o => P o.id).map (left trades)).map stake) := by
  have shape : ∀ l : List Order, ((l.filter fun o => P o.id).map (left trades)).map stake =
      ((l.map stake).filter fun o => P o.id).map fun o => (left trades o).stake := by
    intro l
    rw [List.filter_map, List.map_map, List.map_map]
    rfl
  rw [shape, shape]
  exact (same.filter _).map _

end Stakes

section Drawing

@[simp] theorem paid_nil : o.paid [] = 0 := rfl

@[simp] theorem charged_nil : o.charged [] = 0 := rfl

@[simp] theorem paid_cons : o.paid (t :: trades) = t.principalFrom o + o.paid trades := by
  simp [paid]

@[simp] theorem charged_cons : o.charged (t :: trades) = t.feeFrom o + o.charged trades := by
  simp [charged]

@[simp] theorem paid_append : o.paid (trades ++ more) = o.paid trades + o.paid more := by
  simp [paid]

@[simp] theorem charged_append :
    o.charged (trades ++ more) = o.charged trades + o.charged more := by
  simp [charged]

theorem paid_of_terms (same : o.terms = o'.terms) : o.paid trades = o'.paid trades :=
  (congrArg (paid trades) same :)

theorem charged_of_terms (same : o.terms = o'.terms) : o.charged trades = o'.charged trades :=
  (congrArg (charged trades) same :)

theorem left_append : o.left (trades ++ more) = (o.left trades).left more := by
  simp only [left, paid_append, charged_append, Nat.sub_sub]
  rfl

theorem left_of_idle (paid : o.paid trades = 0) (charged : o.charged trades = 0) :
    o.left trades = o := by
  rw [left, paid, charged]
  rfl

theorem Covers.append (first : o.Covers trades) (second : (o.left trades).Covers more) :
    o.Covers (trades ++ more) := by
  obtain ⟨paid, charged⟩ := first
  obtain ⟨paid', charged'⟩ := second
  have paid' : o.paid more ≤ o.frozenPrincipal - o.paid trades := paid'
  have charged' : o.charged more ≤ o.frozenFee - o.charged trades := charged'
  constructor
  · rw [paid_append]
    omega
  · rw [charged_append]
    omega

theorem Covers.of_stake (covers : o.Covers trades) (same : o.stake = o'.stake) :
    o'.Covers trades := by
  obtain ⟨terms, principal, fee⟩ := stake_eq.1 same
  rw [Covers, ← paid_of_terms terms, ← charged_of_terms terms, ← principal, ← fee]
  exact covers

theorem covers_of_idle (paid : o.paid trades = 0) (charged : o.charged trades = 0) :
    o.Covers trades := by
  rw [Covers, paid, charged]
  exact ⟨Nat.zero_le _, Nat.zero_le _⟩

/-- What an order held is what trades left it and what they took. -/
theorem Covers.heldFor (covers : o.Covers trades) : o.heldFor base x d =
    (o.left trades).heldFor base x d + (o.spent trades).heldFor base x d := by
  obtain ⟨paid, charged⟩ := covers
  simp only [Order.heldFor, held, principalDenom_left, principalDenom_spent]
  simp only [left, spent]
  grind

theorem heldFor_spent_append : (o.spent (trades ++ more)).heldFor base x d =
    (o.spent trades).heldFor base x d + (o.spent more).heldFor base x d := by
  simp only [Order.heldFor, held, principalDenom_spent]
  simp only [spent, paid_append, charged_append]
  grind

/-- Orders that trades took nothing from spent nothing. -/
theorem escrow_spent_of_idle (idle : ∀ o ∈ orders, o.paid trades = 0 ∧ o.charged trades = 0) :
    escrow (orders.map (spent trades)) base x d = 0 := by
  induction orders with
  | nil => rfl
  | cons o rest ih =>
      rw [List.forall_mem_cons] at idle
      obtain ⟨⟨paid, charged⟩, others⟩ := idle
      rw [List.map_cons, escrow_cons, ih others, Nat.add_zero, Order.heldFor, held,
        principalDenom_spent]
      simp [spent, paid, charged]

theorem escrow_map_add {f g h : Order → Order}
    (sum : ∀ o ∈ orders, (f o).heldFor base x d = (g o).heldFor base x d + (h o).heldFor base x d) :
    escrow (orders.map f) base x d =
      escrow (orders.map g) base x d + escrow (orders.map h) base x d := by
  induction orders with
  | nil => rfl
  | cons o rest ih =>
      rw [List.forall_mem_cons] at sum
      simp only [List.map_cons, escrow_cons, sum.1, ih sum.2]
      omega

end Drawing

end Order

namespace Trade.Between

variable {t : Trade} {buyer seller buyer' seller' o : Order} {base d : Denom} {x : Address}
  (between : t.Between buyer seller)

include between

theorem of_terms (same : buyer.terms = buyer'.terms) (same' : seller.terms = seller'.terms) :
    t.Between buyer' seller' := by
  obtain ⟨buys, sells, apart, pair, pair', roles⟩ := between
  rw [Order.id_of_terms same, Order.id_of_terms same'] at apart
  rw [Order.id_of_terms same, Order.id_of_terms same', Order.sender_of_terms same,
    Order.sender_of_terms same'] at roles
  exact ⟨Order.side_of_terms same ▸ buys, Order.side_of_terms same' ▸ sells, apart,
    Order.pair_of_terms same ▸ pair, Order.pair_of_terms same' ▸ pair', roles⟩

theorem from_buyer : t.principalFrom buyer = t.money ∧ t.feeFrom buyer = t.buyerFee := by
  have apart := between.apart
  rw [principalFrom, feeFrom, buyerFee, takerIsBuyer, between.buys]
  obtain ⟨side, taker, -, maker, -⟩ | ⟨side, taker, -, maker, -⟩ := between.roles <;>
    simp [side, taker, maker, apart.symm]

theorem from_seller : t.principalFrom seller = t.quantity ∧ t.feeFrom seller = t.sellerFee := by
  have apart := between.apart
  rw [principalFrom, feeFrom, sellerFee, takerIsBuyer, between.sells]
  obtain ⟨side, taker, -, maker, -⟩ | ⟨side, taker, -, maker, -⟩ := between.roles <;>
    simp [side, taker, maker, apart]

theorem from_other (ne : o.id ≠ buyer.id) (ne' : o.id ≠ seller.id) :
    t.principalFrom o = 0 ∧ t.feeFrom o = 0 := by
  rw [principalFrom, feeFrom]
  obtain ⟨-, taker, -, maker, -⟩ | ⟨-, taker, -, maker, -⟩ := between.roles <;>
    simp [taker, maker, ne.symm, ne'.symm]

theorem counterparties_eq : t.counterparties = (buyer.sender, seller.sender) := by
  rw [counterparties, takerIsBuyer]
  obtain ⟨side, -, taker, -, maker⟩ | ⟨side, -, taker, -, maker⟩ := between.roles <;>
    simp [side, taker, maker]

/-- What a trade draws from an account is what it takes from its two orders. -/
theorem drawn_eq : t.drawn base x d =
    (buyer.spent [t]).heldFor base x d + (seller.spent [t]).heldFor base x d := by
  have money : buyer.principalDenom = t.pair.money := by
    rw [Order.principalDenom, between.buys, between.buyerPair]
  have stock : seller.principalDenom = t.pair.stock := by
    rw [Order.principalDenom, between.sells, between.sellerPair]
  simp only [drawn, between.counterparties_eq, Order.heldFor, Order.held,
    Order.principalDenom_spent, money, stock]
  simp [Order.spent, between.from_buyer, between.from_seller]

/-- Of orders of different ids it draws from no others. -/
theorem drawn_eq_escrow {orders : List Order} (distinct : (orders.map (·.id)).Nodup)
    (mem : buyer ∈ orders) (mem' : seller ∈ orders) :
    t.drawn base x d = Order.escrow (orders.map (Order.spent [t])) base x d := by
  have ne : seller ≠ buyer := fun same => between.apart (congrArg Order.id same).symm
  have split : orders.Perm (buyer :: seller :: (orders.erase buyer).erase seller) :=
    (List.perm_cons_erase mem).trans
      ((List.perm_cons_erase ((List.mem_erase_of_ne ne).2 mem')).cons buyer)
  generalize (orders.erase buyer).erase seller = rest at split
  have ids := (split.map (·.id)).nodup_iff.1 distinct
  simp only [List.map_cons, List.nodup_cons, List.mem_cons, not_or] at ids
  obtain ⟨⟨-, others⟩, others', -⟩ := ids
  have nothing : Order.escrow (rest.map (Order.spent [t])) base x d = 0 := by
    apply Order.escrow_spent_of_idle
    intro o mem
    obtain ⟨principal, fee⟩ := between.from_other (o := o)
      (fun same => others (same ▸ List.mem_map_of_mem mem))
      (fun same => others' (same ▸ List.mem_map_of_mem mem))
    simp [principal, fee]
  rw [Order.escrow_perm (split.map _), List.map_cons, List.map_cons, Order.escrow_cons,
    Order.escrow_cons, nothing, between.drawn_eq, Nat.add_zero]

end Trade.Between

/-- The trades are between the orders of `start`, which hold what those took, and `orders` are such
of them with what is left. -/
structure Drawn (start orders : List Order) (trades : List Trade) : Prop where
  kept : ∀ o ∈ orders, ∃ o₀ ∈ start, o.stake = (o₀.left trades).stake
  covers : ∀ o ∈ start, o.Covers trades
  parties : ∀ t ∈ trades, ∃ buyer ∈ start, ∃ seller ∈ start, t.Between buyer seller

namespace Drawn

variable {start mid orders : List Order} {trades more : List Trade} {o o₀ : Order} {base d : Denom}
  {x : Address}

theorem of_subset (subset : ∀ o ∈ orders, o ∈ start) : Drawn start orders [] where
  kept o mem := ⟨o, subset o mem, rfl⟩
  covers o _ := Order.covers_of_idle rfl rfl
  parties := by simp

/-- Trades take nothing from other orders. -/
theorem idle (drawn : Drawn start orders trades) (absent : ∀ o' ∈ start, o'.id ≠ o.id) :
    o.paid trades = 0 ∧ o.charged trades = 0 := by
  have nothing : ∀ t ∈ trades, t.principalFrom o = 0 ∧ t.feeFrom o = 0 := by
    intro t mem
    obtain ⟨buyer, mem, seller, mem', between⟩ := drawn.parties t mem
    exact between.from_other (absent buyer mem).symm (absent seller mem').symm
  rw [Order.paid, Order.charged, List.sum_eq_zero_iff_forall_eq_nat,
    List.sum_eq_zero_iff_forall_eq_nat, List.forall_mem_map, List.forall_mem_map]
  exact ⟨fun t mem => (nothing t mem).1, fun t mem => (nothing t mem).2⟩

theorem origin (drawn : Drawn start orders trades) (mem : o ∈ orders) :
    ∃ o₀ ∈ start, o.terms = o₀.terms ∧ o.stake = (o₀.left trades).stake := by
  obtain ⟨o₀, mem₀, same⟩ := drawn.kept o mem
  exact ⟨o₀, mem₀, (Order.stake_eq.1 same).1, same⟩

/-- Of orders of different ids, the one that another comes from has its id. -/
theorem origin_unique (drawn : Drawn start orders trades) (distinct : (start.map (·.id)).Nodup)
    (mem : o ∈ orders) (mem₀ : o₀ ∈ start) (id : o.id = o₀.id) :
    o.stake = (o₀.left trades).stake := by
  obtain ⟨o₁, mem₁, terms, same⟩ := drawn.origin mem
  have ids : o₁.id = o₀.id := (Order.id_of_terms terms).symm.trans id
  rwa [List.inj_on_of_nodup_map distinct mem₁ mem₀ ids] at same

theorem trans (first : Drawn start mid trades) (second : Drawn mid orders more)
    (distinct : (start.map (·.id)).Nodup) : Drawn start orders (trades ++ more) where
  kept o mem := by
    obtain ⟨o₁, mem₁, same₁⟩ := second.kept o mem
    obtain ⟨o₀, mem₀, same₀⟩ := first.kept o₁ mem₁
    refine ⟨o₀, mem₀, ?_⟩
    rw [Order.left_append, same₁, Order.left_of_stake same₀]
  covers o mem := by
    by_cases still : ∃ o₁ ∈ mid, o₁.id = o.id
    · obtain ⟨o₁, mem₁, id⟩ := still
      have same := first.origin_unique distinct mem₁ mem id
      exact (first.covers o mem).append ((second.covers o₁ mem₁).of_stake same)
    · have absent : ∀ o' ∈ mid, o'.id ≠ o.id := fun o' mem id => still ⟨o', mem, id⟩
      obtain ⟨paid, charged⟩ := second.idle absent
      exact (first.covers o mem).append
        (Order.covers_of_idle (o := o.left trades) paid charged)
  parties t mem := by
    obtain mem | mem := List.mem_append.1 mem
    · exact first.parties t mem
    · obtain ⟨buyer, mem, seller, mem', between⟩ := second.parties t mem
      obtain ⟨buyer₀, mem₀, terms, -⟩ := first.origin mem
      obtain ⟨seller₀, mem₀', terms', -⟩ := first.origin mem'
      exact ⟨buyer₀, mem₀, seller₀, mem₀', between.of_terms terms terms'⟩

/-- Other orders may stand beside. -/
theorem frame {all after : List Order} (drawn : Drawn start orders trades)
    (distinct : (all.map (·.id)).Nodup) (subset : ∀ o ∈ start, o ∈ all)
    (left : ∀ o ∈ after, o ∈ orders ∨ o ∈ all ∧ ∀ o' ∈ start, o'.id ≠ o.id) :
    Drawn all after trades where
  kept o mem := by
    obtain mem | ⟨mem, absent⟩ := left o mem
    · obtain ⟨o₀, mem₀, same⟩ := drawn.kept o mem
      exact ⟨o₀, subset o₀ mem₀, same⟩
    · obtain ⟨paid, charged⟩ := drawn.idle absent
      exact ⟨o, mem, by rw [Order.left_of_idle paid charged]⟩
  covers o mem := by
    by_cases inside : ∃ o' ∈ start, o'.id = o.id
    · obtain ⟨o', mem', id⟩ := inside
      rw [← List.inj_on_of_nodup_map distinct (subset o' mem') mem id]
      exact drawn.covers o' mem'
    · obtain ⟨paid, charged⟩ := drawn.idle fun o' mem id => inside ⟨o', mem, id⟩
      exact Order.covers_of_idle paid charged
  parties t mem := by
    obtain ⟨buyer, mem, seller, mem', between⟩ := drawn.parties t mem
    exact ⟨buyer, subset buyer mem, seller, subset seller mem', between⟩

/-- What the trades draw from an account is what they take from its orders. -/
theorem drawnSum (drawn : Drawn start orders trades) (distinct : (start.map (·.id)).Nodup) :
    Trade.drawnSum trades base x d =
      Order.escrow (start.map (Order.spent trades)) base x d := by
  have parties := drawn.parties
  clear drawn
  induction trades with
  | nil => exact (Order.escrow_spent_of_idle fun o _ => ⟨rfl, rfl⟩).symm
  | cons t rest ih =>
      rw [List.forall_mem_cons] at parties
      obtain ⟨⟨buyer, mem, seller, mem', between⟩, parties⟩ := parties
      rw [Trade.drawnSum_cons, ih parties, between.drawn_eq_escrow distinct mem mem']
      refine (Order.escrow_map_add fun o _ => ?_).symm
      rw [← Order.heldFor_spent_append, List.singleton_append]

/-- Those of the start that still stand have the stakes of the orders, but for what they spent. -/
theorem stakes (drawn : Drawn start orders trades) (distinct : (start.map (·.id)).Nodup)
    (distinct' : (orders.map (·.id)).Nodup) {P : OrderId → Prop} [DecidablePred P]
    (stands : ∀ k, P k ↔ k ∈ orders.map (·.id)) :
    (((start.filter fun o => P o.id).map (Order.left trades)).map Order.stake).Perm
      (orders.map Order.stake) := by
  have nodup : ∀ {l : List Order}, (l.map (·.id)).Nodup → (l.map Order.stake).Nodup := by
    intro l ids
    apply List.Nodup.of_map (·.id)
    rw [List.map_map]
    exact ids
  refine (List.perm_ext_iff_of_nodup (nodup ?_) (nodup distinct')).2 fun a => ?_
  · rw [List.map_map]
    exact distinct.sublist (List.filter_sublist.map _)
  · simp only [List.mem_map, List.mem_filter, decide_eq_true_eq]
    constructor
    · rintro ⟨_, ⟨o₀, ⟨mem₀, still⟩, rfl⟩, rfl⟩
      obtain ⟨o, mem, id⟩ := List.mem_map.1 ((stands _).1 still)
      exact ⟨o, mem, drawn.origin_unique distinct mem mem₀ id⟩
    · rintro ⟨o, mem, rfl⟩
      obtain ⟨o₀, mem₀, terms, same⟩ := drawn.origin mem
      refine ⟨_, ⟨o₀, ⟨mem₀, (stands _).2 ?_⟩, rfl⟩, same.symm⟩
      rw [← Order.id_of_terms terms]
      exact List.mem_map_of_mem mem

end Drawn

/-- A batch took `start` to `orders`: beyond what its trades drew, it returned what is held less. -/
structure Spent (base : Denom) (start orders : List Order) (b : Batch) : Prop
    extends Drawn start orders b.trades where
  returned : ∀ x d, Effect.unfreezes b.effects x d + Trade.drawnSum b.trades base x d +
    Order.escrow orders base x d = Order.escrow start base x d

/-- It returns what is left of the orders that ended. -/
theorem Spent.released {base d : Denom} {x : Address} {start orders : List Order} {b : Batch}
    (spent : Spent base start orders b) (distinct : (start.map (·.id)).Nodup)
    (distinct' : (orders.map (·.id)).Nodup) {P : OrderId → Prop} [DecidablePred P]
    (stands : ∀ k, P k ↔ k ∈ orders.map (·.id)) :
    Effect.unfreezes b.effects x d =
      Order.escrow ((start.filter fun o => ¬P o.id).map (Order.left b.trades)) base x d := by
  have drawn := spent.toDrawn
  have returned := spent.returned x d
  have taken : Trade.drawnSum b.trades base x d =
      Order.escrow (start.map (Order.spent b.trades)) base x d := drawn.drawnSum distinct
  have before : Order.escrow (start.map id) base x d =
      Order.escrow (start.map (Order.left b.trades)) base x d +
        Order.escrow (start.map (Order.spent b.trades)) base x d :=
    Order.escrow_map_add fun o mem => (drawn.covers o mem).heldFor
  have parted : Order.escrow (start.map (Order.left b.trades)) base x d =
      Order.escrow ((start.filter fun o => P o.id).map (Order.left b.trades)) base x d +
        Order.escrow ((start.filter fun o => ¬P o.id).map (Order.left b.trades)) base x d := by
    rw [← Order.escrow_append, ← List.map_append]
    refine Order.escrow_perm (List.Perm.map _ ?_)
    simpa using (List.filter_append_perm (fun o : Order => decide (P o.id)) start).symm
  have still : Order.escrow ((start.filter fun o => P o.id).map (Order.left b.trades)) base x d =
      Order.escrow orders base x d :=
    Order.escrow_of_stakes (drawn.stakes distinct distinct' stands)
  rw [List.map_id] at before
  omega

end Bourse
