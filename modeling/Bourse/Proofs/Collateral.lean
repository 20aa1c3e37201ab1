import Bourse.Proofs.Admission
import Bourse.Proofs.Sufficiency

/-!
# Admitted orders are fully collateralised

* `Tokens.Allows`: no issuer forbids the pair, or the sender its use (`checkForbidden_ok`);
* `Granted`: what admission asks of a message, with the principal and the fee that it computes;
* `pass_ok_iff`: admission lets exactly such messages pass, and what it makes of them;
* `admitted_collateralised`: what is frozen for an admitted order is what the order records, the
  freeze can only fail on the frozen side, and whoever is short of funds or forbidden is refused.
-/

namespace Bourse

namespace Tokens

variable {t : Tokens} {sender : Address} {pair : Pair}

/-- Neither token is forbidden, and neither to the sender. -/
structure Allows (t : Tokens) (sender : Address) (pair : Pair) : Prop where
  stock : t.isForbidden pair.stock = false
  money : t.isForbidden pair.money = false
  stockUse : t.isAddressForbidden pair.stock sender = false
  moneyUse : t.isAddressForbidden pair.money sender = false

theorem checkForbidden_ok {u : Unit} :
    t.checkForbidden sender pair = .ok u ↔ t.Allows sender pair := by
  unfold checkForbidden
  simp only [Check.guard_ok, Bool.not_eq_true]
  constructor
  · rintro ⟨stock, money, stockUse, rest⟩
    split at rest
    · exact absurd rest Check.throw_ok
    · next moneyUse => exact ⟨stock, money, stockUse, eq_false_of_ne_true moneyUse⟩
  · rintro ⟨stock, money, stockUse, moneyUse⟩
    refine ⟨stock, money, stockUse, ?_⟩
    rw [if_neg (by simp [moneyUse])]
    rfl

end Tokens

variable {m : PlaceOrder} {params : Params} {pair : Pair} {reference : Decimal} {tokens : Tokens}
  {accounts : Accounts} {height : Nat} {a : Admission} {principal : Coin} {fee : Nat}

/-- The precision suits the market, principal and fee are amounts that the sender has together, and
no issuer objects. -/
structure Granted (m : PlaceOrder) (params : Params) (pair : Pair) (reference : Decimal)
    (tokens : Tokens) (accounts : Accounts) (principal : Coin) (fee : Nat) : Prop where
  precise : m.precision ≤ pair.precision
  put : m.principal params pair = .ok principal
  charged :
    Fee.tradeFee params (pair.stock == params.baseCurrency) reference m.quantity = .ok fee
  covered : ∀ d, Coin.amountOf [principal, ⟨params.baseCurrency, fee⟩] d ≤
    (accounts.holding m.sender d).available
  allowed : tokens.Allows m.sender pair

/-- What is frozen for a message that is granted is available. -/
theorem Granted.enough {holds : List Coin}
    (granted : Granted m params pair reference tokens accounts principal fee)
    (merged : mergeHolds [principal, ⟨params.baseCurrency, fee⟩] = .ok holds) (d : Denom) :
    Coin.amountOf holds d ≤ (accounts.holding m.sender d).available := by
  rw [Coin.amountOf_mergeHolds merged]
  exact granted.covered d

/-- A message passes exactly if it is granted; its order and its holds follow from the principal and
the fee. -/
theorem pass_ok_iff (range : accounts.InRange) :
    m.pass params pair reference tokens accounts height = .ok a ↔
      ∃ principal fee, Granted m params pair reference tokens accounts principal fee ∧
        mergeHolds [principal, ⟨params.baseCurrency, fee⟩] = .ok a.holds ∧
        a.order = m.order params pair principal.amount fee height := by
  simp only [PlaceOrder.pass, Check.guard_ok, Check.bind_ok, Check.pure_ok, Nat.not_lt,
    Accounts.checkSufficient_ok, Tokens.checkForbidden_ok]
  constructor
  · rintro ⟨precise, principal, put, fee, charged, holds, merged, -, ⟨-, covered⟩, -, allowed, rfl⟩
    simp only [Coin.amountOf_mergeHolds merged] at covered
    exact ⟨principal, fee, ⟨precise, put, charged, covered, allowed⟩, merged, rfl⟩
  · rintro ⟨principal, fee, granted, merged, order⟩
    have enough := granted.enough merged
    have again := mergeHolds_total fun d => (enough d).trans_lt (range m.sender d).1
    refine ⟨granted.precise, principal, granted.put, fee, granted.charged, a.holds, merged, (),
      ⟨again, enough⟩, (), granted.allowed, ?_⟩
    rw [← order]

/-- A message that is not granted is refused. -/
theorem refused_of_not_granted (range : accounts.InRange)
    (refused : ∀ principal fee,
      ¬Granted m params pair reference tokens accounts principal fee) :
    ∃ fault, m.pass params pair reference tokens accounts height = .error fault := by
  cases run : m.pass params pair reference tokens accounts height with
  | error fault => exact ⟨fault, rfl⟩
  | ok a =>
      obtain ⟨principal, fee, granted, -⟩ := (pass_ok_iff range).1 run
      exact absurd granted (refused principal fee)

theorem Coin.amountOf_pair {c c' : Coin} {d : Denom} : Coin.amountOf [c, c'] d =
    (if c.denom = d then c.amount else 0) + if c'.denom = d then c'.amount else 0 := by
  simp

/-- What is frozen for an order that is admitted is of distinct denominations, none of it zero, and
of each denomination it is what the order records: its principal in the denomination that its market
id gives, and its fee in the base currency. The freeze fails only if a frozen amount would be no
word. Whoever has less of a denomination available than principal and fee take of it together, or
whom or whose tokens an issuer forbids, is refused. -/
theorem admitted_collateralised (range : accounts.InRange) :
    (∀ a, m.pass params pair reference tokens accounts height = .ok a →
      (a.holds.map Coin.denom).Nodup ∧ (∀ c ∈ a.holds, c.amount ≠ 0) ∧
      (PairId.separator ∉ pair.stock.toList → PairId.separator ∉ pair.money.toList →
        ∀ d, Coin.amountOf a.holds d =
          (if a.order.principalDenom = d then a.order.frozenPrincipal else 0) +
            if params.baseCurrency = d then a.order.frozenFee else 0) ∧
      ∀ fault accounts', Accounts.freezeAll a.order.sender a.holds accounts =
          .error fault accounts' →
        ∃ c ∈ a.holds, Word.size ≤
          (accounts.holding a.order.sender c.denom).frozen + c.amount) ∧
    (∀ principal fee d, m.principal params pair = .ok principal →
      Fee.tradeFee params (pair.stock == params.baseCurrency) reference m.quantity = .ok fee →
      (accounts.holding m.sender d).available <
        (if principal.denom = d then principal.amount else 0) +
          (if params.baseCurrency = d then fee else 0) →
      ∃ fault, m.pass params pair reference tokens accounts height = .error fault) ∧
    (tokens.isForbidden pair.stock = true ∨ tokens.isForbidden pair.money = true ∨
        tokens.isAddressForbidden pair.stock m.sender = true ∨
        tokens.isAddressForbidden pair.money m.sender = true →
      ∃ fault, m.pass params pair reference tokens accounts height = .error fault) := by
  refine ⟨fun a run => ?_, fun principal fee d put charged short => ?_, fun forbidden => ?_⟩
  · obtain ⟨principal, fee, granted, merged, order⟩ := (pass_ok_iff range).1 run
    have distinct := merged_of_mergeHolds merged
    refine ⟨distinct.distinct, distinct.nonzero, fun absent _ => ?_,
      fun fault accounts' failed => ?_⟩
    · exact pass_held (PairId.join_parts absent) run
    · -- The sums are available, so it is the frozen side that has no room for one of them.
      by_contra room
      simp only [not_exists, not_and, Nat.not_le] at room
      have sender : a.order.sender = m.sender := by rw [order]; rfl
      rw [sender] at failed room
      have left := (distinct.forall_le_iff
        fun d => Word.size - 1 - (accounts.holding m.sender d).frozen).1 fun c mem => by
          have := room c mem
          omega
      obtain ⟨_, succeeded⟩ := (Accounts.freezeAll_ok_iff range).2 fun d =>
        ⟨granted.enough merged d, by
          have := left d
          have := (range m.sender d).2
          omega⟩
      rw [succeeded] at failed
      cases failed
  · apply refused_of_not_granted range
    intro principal' fee' granted
    obtain rfl := Except.ok.inj (put.symm.trans granted.put)
    obtain rfl := Except.ok.inj (charged.symm.trans granted.charged)
    have covered := granted.covered d
    rw [Coin.amountOf_pair] at covered
    exact absurd covered (Nat.not_le.2 short)
  · apply refused_of_not_granted range
    intro _ _ granted
    obtain ⟨stock, money, stockUse, moneyUse⟩ := granted.allowed
    simp [stock, money, stockUse, moneyUse] at forbidden

section Tight

/-- A bid for 7 at a price of 6, where the stock has no price yet. -/
def tightBid : PlaceOrder := ⟨⟨"b"⟩, 1, "btc/cet", .limit, 0, 6, 7, .buy, .goodTillExpire⟩

def tightPair : Pair := ⟨"btc", "cet", ⟨"a"⟩, 8, .zero, 1, 0⟩

/-- What `b` has available for it. -/
def tightFunds (available : Nat) : Accounts := ({} : Accounts).set ⟨"b"⟩ "cet" ⟨available, 0⟩

/-- Principal and fee are both in `cet`: 42 and 1000000 are frozen as one amount, to the last unit.
With one unit less the bid is refused, and so it is if the token is forbidden. -/
theorem tightBid_collateralised :
    (∃ a, tightBid.pass .default tightPair .zero {} (tightFunds 1000042) 1 = .ok a ∧
      a.holds = [⟨"cet", 1000042⟩] ∧ a.order.frozenPrincipal = 42 ∧
      Coin.amountOf a.holds "cet" = a.order.frozenPrincipal + a.order.frozenFee) ∧
    (∃ fault, tightBid.pass .default tightPair .zero {} (tightFunds 1000041) 1 = .error fault) ∧
    ∃ fault, tightBid.pass .default tightPair .zero
      ⟨(∅ : Std.ExtTreeMap String Token).insert "btc" { issuer := ⟨"a"⟩, forbidden := true }⟩
      (tightFunds 1000042) 1 = .error fault := by
  have range : ∀ n, n < Word.size → (tightFunds n).InRange := fun n word =>
    Accounts.inRange_empty.set word (by decide : 0 < Word.size)
  have put : tightBid.principal .default tightPair = .ok ⟨"cet", 42⟩ := by decide +kernel
  refine ⟨?_, ?_, ?_⟩
  · have passed : (tightBid.pass .default tightPair .zero {} (tightFunds 1000042) 1).toOption.map
        (fun a => (a.holds, a.order.frozenPrincipal, a.order.principalDenom)) =
          some ([⟨"cet", 1000042⟩], 42, "cet") := by
      decide +kernel
    obtain ⟨a, run, same⟩ := Option.map_eq_some_iff.1 passed
    obtain ⟨holds, same⟩ := Prod.mk.inj same
    obtain ⟨principal, denom⟩ := Prod.mk.inj same
    have run := Check.toOption_eq_some.1 run
    obtain ⟨-, -, sums, -⟩ := (admitted_collateralised (range 1000042 (by decide))).1 a run
    have sum := sums (by decide) (by decide) "cet"
    rw [denom] at sum
    exact ⟨a, run, holds, principal, sum⟩
  · exact (admitted_collateralised (range 1000041 (by decide))).2.1 ⟨"cet", 42⟩ 1000000 "cet" put
      (by decide +kernel) (by decide +kernel)
  · exact (admitted_collateralised (range 1000042 (by decide))).2.2 (.inl (by decide +kernel))

end Tight

end Bourse
