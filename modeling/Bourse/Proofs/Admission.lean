import Bourse.Admission
import Bourse.Proofs.Escrow
import Bourse.Proofs.Fill
import Bourse.Proofs.Symbol
import Bourse.Proofs.Upkeep

/-!
# What an admitted order holds

* `Pair.Faithful`: the id of a market gives its two denominations back; every listed market is such
  (`faithful_of_check`), and matching, delisting and raised precisions keep it;
* `pass_ok`: what admission computes;
* `pass_held`: the coins it freezes are what the new order holds.
-/

namespace Bourse

/-- The denominations can be read off the id. -/
def Pair.Faithful (p : Pair) : Prop := p.id.stock = p.stock ∧ p.id.money = p.money

theorem Pair.requireCreator_ok {p : Pair} {sender : Address} {u : Unit} :
    p.requireCreator sender = .ok u ↔ p.creator = sender := by
  rw [requireCreator]
  by_cases same : p.creator = sender <;> simp [same]

theorem Fee.checkPrecisionChange_ok {old new most : Nat} {u : Unit}
    (run : checkPrecisionChange old new most = .ok u) : old < new := by
  rw [checkPrecisionChange] at run
  split at run
  · cases run
  · split at run
    · cases run
    · next rises => exact Nat.not_le.1 rises

/-- A market that passed the checks without state is faithful. -/
theorem faithful_of_check {m : CreatePair} (checked : (Message.createPair m).check = .ok ())
    (params : Params) (height : Nat) : (Listing.newPair m params height).Faithful := by
  simp only [Message.check, Check.bind_ok, Check.guard_ok] at checked
  obtain ⟨_, -, -, _, parsed, -⟩ := checked
  exact (PairId.parse_join_ok.1 parsed).2.parts

namespace Store

/-- Every listed market is faithful. -/
def Faithful (s : Store) : Prop := ∀ q p, s.pair? q = some p → p.Faithful

/-- Faithful markets stay so. -/
def StaysFaithful (s s' : Store) : Prop := s.Faithful → s'.Faithful

instance : Std.Refl StaysFaithful := ⟨fun _ => id⟩

instance : Trans StaysFaithful StaysFaithful StaysFaithful :=
  ⟨fun first second faithful => second (first faithful)⟩

variable {s s' : Store}

theorem faithful_setPair {p : Pair} (faithful : s.Faithful) (own : p.Faithful) :
    (s.setPair p).Faithful := by
  intro q p' found
  rw [pair?_setPair] at found
  split at found
  · exact Option.some.inj found ▸ own
  · exact faithful q p' found

theorem faithful_of_pairs (faithful : s.Faithful) (pairs : s'.tables.pairs = s.tables.pairs) :
    s'.Faithful := by
  intro q p found
  rw [pair?, pairs] at found
  exact faithful q p found

/-- Matching and delisting keep the markets faithful. -/
theorem upkeep_faithful : Upkeep StaysFaithful where
  removeOrder run faithful := by
    obtain ⟨-, rfl⟩ := removeOrder_ok.1 run
    exact faithful_of_pairs faithful Tables.eraseOrder_pairs
  updateOrder run faithful := by
    obtain ⟨_, -, -, rfl⟩ := updateOrder_ok.1 run
    exact faithful_of_pairs faithful rfl
  setLastPrice run faithful := by
    obtain ⟨p, found, rfl⟩ := setLastPrice_ok run
    exact faithful_setPair faithful (faithful _ p found)
  removePair run faithful := by
    intro q p found
    rw [pair?, (removePair_ok run).2.2.2, Maps.getElem?_erase] at found
    split at found
    · cases found
    · exact faithful q p found
  removeDelist s r faithful := by
    apply faithful_of_pairs faithful
    rw [removeDelist_tables]

theorem lookup_ok {symbol : String} {p : Pair} (run : s.lookup symbol = .ok p) :
    ∃ q, PairId.parse symbol = .ok q ∧ s.pair? q = some p := by
  obtain ⟨q, parsed, run⟩ := Check.bind_ok.1 run
  refine ⟨q, parsed, ?_⟩
  split at run
  · next found => rw [found, Check.pure_ok.1 run]
  · exact absurd run Check.throw_ok

/-- A request that is stored was made by the market's creator, in time. -/
theorem scheduleDelist_ok {d : DelistPair} {params : Params} {now : Int} {r : DelistRequest}
    (run : s.scheduleDelist d params now = .ok (r, s')) :
    ∃ p, s.lookup d.symbol = .ok p ∧ p.creator = d.sender ∧ r = ⟨d.effectiveTime, p.id⟩ ∧
      Clock.add now params.minDelistDelay ≤ d.effectiveTime ∧
      s'.tables = { s.tables with delists := s.tables.delists.insert r } := by
  simp only [scheduleDelist, Check.guard_ok, Check.bind_ok, Check.pure_ok, Prod.mk.injEq] at run
  obtain ⟨timely, p, found, _, owned, rfl, rfl⟩ := run
  exact ⟨p, found, Pair.requireCreator_ok.1 owned, rfl, not_lt.1 timely, putDelist_tables s _⟩

theorem raisePrecision_ok {m : RaisePrecision} {params : Params} {out : Nat × Nat}
    (run : Listing.raisePrecision m params s = .ok (out, s')) :
    ∃ p, s.lookup m.symbol = .ok p ∧ p.creator = m.sender ∧ p.precision < m.precision ∧
      s' = s.setPair { p with precision := m.precision } := by
  simp only [Listing.raisePrecision, Check.bind_ok, Check.pure_ok, Prod.mk.injEq] at run
  obtain ⟨p, found, _, owned, _, rises, t, updated, -, rfl⟩ := run
  exact ⟨p, found, Pair.requireCreator_ok.1 owned, Fee.checkPrecisionChange_ok rises,
    (updatePair_ok updated).2⟩

end Store

section Pass

variable {m : PlaceOrder} {params : Params} {pair : Pair} {reference : Decimal} {tokens : Tokens}
  {accounts : Accounts} {height : Nat} {a : Admission}

theorem pass_ok (run : m.pass params pair reference tokens accounts height = .ok a) :
    ∃ principal fee, m.precision ≤ pair.precision ∧ m.principal params pair = .ok principal ∧
      Fee.tradeFee params (pair.stock == params.baseCurrency) reference m.quantity = .ok fee ∧
      mergeHolds [principal, ⟨params.baseCurrency, fee⟩] = .ok a.holds ∧
      a.order = m.order params pair principal.amount fee height := by
  simp only [PlaceOrder.pass, Check.guard_ok, Check.bind_ok, Check.pure_ok, Nat.not_lt] at run
  obtain ⟨precise, principal, put, fee, charged, holds, merged, -, -, -, -, rfl⟩ := run
  exact ⟨principal, fee, precise, put, charged, merged, rfl⟩

theorem principal_ok {principal : Coin} (run : m.principal params pair = .ok principal) :
    principal.denom = match m.side with | .buy => pair.money | .sell => pair.stock := by
  rw [PlaceOrder.principal] at run
  cases side : m.side with
  | buy =>
      simp only [side] at run
      obtain ⟨n, -, run⟩ := Check.bind_ok.1 run
      rw [← Check.pure_ok.1 run]
  | sell =>
      simp only [side, Except.ok.injEq] at run
      rw [← run]

/-- The coins to freeze are what the new order holds. -/
theorem pass_held (faithful : pair.Faithful)
    (run : m.pass params pair reference tokens accounts height = .ok a) (d : Denom) :
    Coin.amountOf a.holds d = a.order.held params.baseCurrency d := by
  obtain ⟨principal, fee, -, put, -, merged, order⟩ := pass_ok run
  have denom : a.order.principalDenom = principal.denom := by
    rw [principal_ok put, Order.principalDenom, order]
    cases side : m.side with
    | buy => simp only [PlaceOrder.order, side, faithful.2]
    | sell => simp only [PlaceOrder.order, side, faithful.1]
  rw [Coin.amountOf_mergeHolds merged, Order.held, denom, order]
  simp [PlaceOrder.order]

end Pass

end Bourse
