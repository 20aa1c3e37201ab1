import Bourse.Proofs.Conservation
import Bourse.Proofs.Records

/-!
# What the counters of an order count

* `Order.Newborn`: an order as the gate makes it, with nothing filled;
* `tradesOf`: the trades that a trace settled;
* `Tallied`: every resting order is a new one after those trades, which exchanged no more than its
  quantity; each input keeps this (`Tallied.next`);
* `deal_counters`: so its stock counter is exact. Its money counter is exact modulo the range of a
  word: always for a buy, and for a sell as long as what it earned is a word;
* `money_counter_overflows`: that can be more than a word. Then a release build counts wrongly, and
  a checked build stops.
-/

namespace Bourse

/-- An order as the gate makes it. -/
structure Order.Newborn (o : Order) : Prop where
  unfilled : o.quantity ≠ 0
  word : o.quantity < Word.size
  remaining : o.remaining = o.quantity
  priced : o.price ≠ 0
  dealStock : o.dealStock = 0
  dealMoney : o.dealMoney = 0
  opened : o.status = .opened
  principal : o.frozenPrincipal < Word.size
  sold : o.side = .sell → o.frozenPrincipal = o.quantity

theorem newborn_of_pass {p : PlaceOrder} {params : Params} {pair : Pair} {reference : Decimal}
    {tokens : Tokens} {accounts : Accounts} {height : Nat} {a : Admission}
    (checked : (Message.placeOrder p).check = .ok ()) (word : p.quantity < Word.size)
    (run : p.pass params pair reference tokens accounts height = .ok a) : a.order.Newborn := by
  obtain ⟨principal, fee, -, put, -, -, order⟩ := pass_ok run
  simp only [Message.check, Check.bind_ok, Check.guard_ok] at checked
  obtain ⟨-, -, -, -, -, -, positive, last⟩ := checked
  have priced : p.price ≠ 0 := fun free => by
    rw [if_pos free] at last
    exact Check.throw_ok last
  have small : principal.amount < Word.size ∧ (p.side = .sell → principal.amount = p.quantity) := by
    rw [PlaceOrder.principal] at put
    cases side : p.side with
    | buy =>
        simp only [side] at put
        obtain ⟨n, priced, made⟩ := Check.bind_ok.1 put
        obtain rfl := Check.pure_ok.1 made
        exact ⟨(Fee.buyPrincipal_covers priced).1, fun sells => by cases sells⟩
    | sell =>
        simp only [side, Except.ok.injEq] at put
        obtain rfl := put
        exact ⟨word, fun _ => rfl⟩
  rw [order]
  exact ⟨positive, word, rfl, priced, rfl, rfl, rfl, small.1, small.2⟩

namespace Market

variable {past : List Moment} {m : Market} {i : Input} {x : Moment} {o : Order} {k : OrderId}

/-- The order that a moment admits is what the gate made of a message. -/
theorem admitted_cases [Build] (admitted : o ∈ (m.event i).admitted) : ∃ p pair a,
    i = .deliver (.placeOrder p) ∧ (m.deliver (.placeOrder p)).1.success = true ∧
      (Message.placeOrder p).check = .ok () ∧ m.ledger.store.lookup p.symbol = .ok pair ∧
      p.pass m.params pair (m.ledger.store.referencePrice pair.stock m.params.baseCurrency)
        m.tokens m.ledger.clearing.accounts m.header.height = .ok a ∧ a.order = o := by
  have assigned : Moment.assigned? ⟨m, i⟩ = some o.id := by rw [Moment.assigned?, admitted]; rfl
  obtain ⟨p, ⟨here, accepted⟩, -⟩ := assigned?_eq_some.1 assigned
  obtain rfl : i = .deliver (.placeOrder p) := here
  obtain ⟨done, checked, run⟩ := apply_of_accepted accepted
  rw [event, eventOf_ok checked run] at admitted
  obtain ⟨l, acted, -⟩ := Market.apply_ok run
  obtain ⟨pair, a, found, passed, -⟩ := Ledger.placeOrder_ok acted
  have gate : m.gate (.placeOrder p) = some a.order := gate_placeOrder found passed
  exact ⟨p, pair, a, rfl, accepted, checked, found, passed,
    Option.some.inj (gate.symm.trans admitted)⟩

theorem newborn_of_event [Build] (typed : i.InRange) (admitted : o ∈ (m.event i).admitted) :
    o.Newborn := by
  obtain ⟨p, pair, a, rfl, -, checked, -, passed, rfl⟩ := admitted_cases admitted
  exact newborn_of_pass checked typed passed

/-- An admitted order is not immediate if it rests. -/
theorem rests_of_admitted [Build] {start left : List Order} {trades : List Trade}
    (accounted : Accounted start left trades (Moment.Removes ⟨m, i⟩))
    (admitted : o ∈ (m.event i).admitted) (mem : o ∈ start) (rests : ∃ o' ∈ left, o'.id = o.id) :
    o.timeInForce = .goodTillExpire := by
  have assigned : Moment.assigned? ⟨m, i⟩ = some o.id := by rw [Moment.assigned?, admitted]; rfl
  obtain ⟨p, pair, a, rfl, -, -, -, passed, rfl⟩ := admitted_cases admitted
  obtain ⟨_, _, -, -, -, -, order⟩ := pass_ok passed
  cases kind : a.order.timeInForce with
  | goodTillExpire => rfl
  | immediateOrCancel =>
      rw [order] at kind
      obtain ⟨o', mem', same⟩ := rests
      exact absurd same (accounted.gone a.order mem ⟨kind, assigned⟩ o' mem')

/-- The trades that a trace settled. -/
def tradesOf [Build] (past : List Moment) : List Trade :=
  past.flatMap fun x => (x.market.event x.input).batch.trades

theorem tradesOf_append [Build] :
    tradesOf (past ++ [x]) = tradesOf past ++ (x.market.event x.input).batch.trades := by
  simp [tradesOf]

/-- Every resting order is one that was admitted to rest, after the trades since. -/
structure Tallied [Build] (past : List Moment) (m : Market) : Prop where
  unfilled : ∀ o ∈ m.ledger.store.resting, o.remaining ≠ 0
  origin : ∀ o ∈ m.ledger.store.resting, ∃ o₀, o = o₀.after (tradesOf past) ∧ o₀.Newborn ∧
    o₀.timeInForce = .goodTillExpire ∧ Trade.stockOf (tradesOf past) o₀.id ≤ o₀.quantity ∧
    o₀.Covers (tradesOf past) ∧ o₀.Counts (tradesOf past) ∧
    ∃ x ∈ past, o₀ ∈ (x.market.event x.input).admitted
  known : ∀ t ∈ tradesOf past, ∀ k, t.Names k → k ∈ m.ledger.store.tables.usedIds
  moving : ∀ t ∈ tradesOf past, t.quantity ≠ 0

theorem Tallied.open [Build] (tallied : Tallied past m) : m.Open := by
  refine ⟨tallied.unfilled, fun o mem => ?_⟩
  obtain ⟨o₀, rfl, new, -, fits, -⟩ := tallied.origin o mem
  have whole := new.remaining
  have word := new.word
  have := Order.remaining_after (whole.symm ▸ fits) (whole.symm ▸ word)
  omega

/-- Before an input, an order that rests after it is what it was admitted as, after the trades up
to then. -/
theorem Tallied.origin_before [Build] (tallied : Tallied past m) (intact : m.Intact) (fits : i.Fits)
    (typed : i.InRange) (start : o ∈ m.ledger.store.resting ++ (m.event i).admitted.toList)
    (rests : ∃ o' ∈ (m.after i).ledger.store.resting, o'.id = o.id) :
    ∃ o₀, o = o₀.after (tradesOf past) ∧ o₀.Newborn ∧ o₀.timeInForce = .goodTillExpire ∧
      Trade.stockOf (tradesOf past) o₀.id ≤ o₀.quantity ∧ o₀.Covers (tradesOf past) ∧
      o₀.Counts (tradesOf past) ∧
      ∃ x ∈ past ++ [⟨m, i⟩], o₀ ∈ (x.market.event x.input).admitted := by
  have accounted := intact.accounted tallied.open typed
  obtain resting | admitted := List.mem_append.1 start
  · obtain ⟨o₀, same, new, rests, most, covers, counts, x, here, admitted⟩ :=
      tallied.origin o resting
    exact ⟨o₀, same, new, rests, most, covers, counts, x, List.mem_append_left _ here, admitted⟩
  · have admitted := Option.mem_toList.1 admitted
    have idle : ∀ t ∈ tradesOf past, ¬t.Names o.id := fun t mem named =>
      (intact.spends (call_after m fits)).fresh o admitted (tallied.known t mem o.id named)
    refine ⟨o, (Order.after_of_idle idle).symm, newborn_of_event typed admitted, ?_, ?_,
      Order.covers_of_unnamed idle, Order.counts_of_idle idle, _,
      List.mem_append_right _ List.mem_cons_self, admitted⟩
    · exact rests_of_admitted accounted admitted start rests
    · rw [Trade.stockOf, Trade.sumOf_of_idle idle]
      exact Nat.zero_le _

/-- An input keeps this. -/
theorem Tallied.next [Build] (tallied : Tallied past m) (intact : m.Intact) (fits : i.Fits)
    (typed : i.InRange) : Tallied (past ++ [⟨m, i⟩]) (m.after i) := by
  have accounted := intact.accounted tallied.open typed
  have spends := intact.spends (call_after m fits)
  constructor
  · exact fun o mem => (accounted.kept o mem).1
  · intro o' mem
    obtain ⟨-, o, start, rfl⟩ := accounted.kept o' mem
    obtain ⟨o₀, rfl, new, rests, most, covers, counts, x, here, admitted⟩ :=
      tallied.origin_before intact fits typed start ⟨_, mem, Order.id_after⟩
    have whole := new.remaining
    rw [tradesOf_append]
    refine ⟨o₀, Order.after_append.symm, new, rests, ?_, ?_, ?_, x, here, admitted⟩
    · rw [← whole] at most ⊢
      refine Order.fits_append most (whole.symm ▸ new.word) ?_
      exact Order.id_after ▸ accounted.fits _ start
    · exact covers.append ((spends.spent.covers _ start).of_stake Order.stake_after)
    · exact counts.append (accounted.counts _ start)
  · intro t mem k named
    rw [tradesOf_append, List.mem_append] at mem
    rw [spends.used]
    obtain old | new := mem
    · exact .inl (tallied.known t old k named)
    · obtain ⟨o, start, rfl⟩ := accounted.names t new k named
      obtain resting | admitted := List.mem_append.1 start
      · exact .inl (Store.used_of_resting intact.tables resting)
      · exact .inr ⟨o, Option.mem_toList.1 admitted, rfl⟩
  · intro t mem
    rw [tradesOf_append, List.mem_append] at mem
    exact mem.elim (tallied.moving t) (accounted.moving t)

theorem Trace.tallied [Build] (trace : Trace past m) (typed : ∀ x ∈ past, x.input.InRange) :
    Tallied past m := by
  induction trace with
  | start tokens params range =>
      have none : ∀ o, o ∉ ({} : Store).resting := by
        intro o mem
        rw [Store.mem_resting Tables.wellFormed_empty] at mem
        simp [Store.order?] at mem
      exact ⟨fun o mem => absurd mem (none o), fun o mem => absurd mem (none o), by simp [tradesOf],
        by simp [tradesOf]⟩
  | @next past m i trace fits ih =>
      rw [List.forall_mem_append, List.forall_mem_singleton] at typed
      exact (ih typed.1).next trace.intact fits typed.2

/-- A delivery changes no supply. -/
theorem Trace.words [Build] (trace : Trace past m) (msg : Message)
    (words : ∀ d, m.supply d < Word.size) : ∀ d, (m.after (.deliver msg)).supply d < Word.size :=
  fun d => ((deliver_moved trace.intact.range msg).supply d).trans_lt (words d)

/-- Along every run, the stock counter of a resting order is the stock that its trades exchanged.
Its money counter is the money that they exchanged, modulo the range of a word. A buy never pays
more than a word, so its counter is exact; that of a sell is while it has earned no more, and a
checked build does not let it earn more. -/
theorem deal_counters [Build] (trace : Trace past m) (typed : ∀ x ∈ past, x.input.InRange)
    (found : m.order? k = some o) :
    o.dealStock = Trade.stockOf (tradesOf past) k ∧
      o.dealMoney = Trade.moneyOf (tradesOf past) k % Word.size ∧
      (o.side = .buy ∨ Build.isChecked = true → Trade.moneyOf (tradesOf past) k < Word.size) ∧
      (Trade.moneyOf (tradesOf past) k < Word.size →
        o.dealMoney = Trade.moneyOf (tradesOf past) k) := by
  have intact := trace.intact
  obtain rfl := intact.tables.order_id k o found
  have resting := (Store.mem_resting intact.tables).2 found
  obtain ⟨o₀, rfl, new, -, fits, covers, counts, -⟩ := (trace.tallied typed).origin o resting
  have word := new.word
  have nothing : 0 < Word.size := by decide
  rw [Order.id_after, Order.dealStock_after (new.dealStock ▸ nothing), new.dealStock, Nat.zero_add,
    Nat.mod_eq_of_lt (by omega), Order.dealMoney_after (new.dealMoney ▸ nothing), new.dealMoney,
    Nat.zero_add]
  refine ⟨rfl, rfl, fun small => ?_, Nat.mod_eq_of_lt⟩
  obtain buys | checked := small
  · have pays := covers.1
    rw [Order.paid_buy ((Order.side_of_terms Order.terms_after).symm.trans buys)] at pays
    exact Nat.lt_of_le_of_lt pays new.principal
  · have room := counts checked (new.dealMoney ▸ nothing)
    rwa [new.dealMoney, Nat.zero_add] at room

section Circulated

attribute [local instance] Build.release

/-- Nothing is charged for a listing or a trade. `a` has 3 of the `btc` that it issued, and half of
all `cet` that a word can count. -/
def gratis : Market :=
  let funds := ({} : Accounts).set ⟨"a"⟩ "btc" ⟨3, 0⟩
  { ledger := { clearing := { accounts := funds.set ⟨"a"⟩ "cet" ⟨2 ^ 63, 0⟩ } }
    tokens := traders.tokens
    params := { Params.default with
      createMarketFee := 0, fixedTradeFee := 0, feeRateNumerator := 0 } }

/-- `a` offers 3 of it, for all its money each. -/
def offer3 : Message :=
  .placeOrder ⟨⟨"a"⟩, 1, "btc/cet", .limit, 0, 2 ^ 63, 3, .sell, .goodTillExpire⟩

/-- And buys one back. -/
def take1 (sequence : Nat) : Message :=
  .placeOrder ⟨⟨"a"⟩, sequence, "btc/cet", .limit, 0, 2 ^ 63, 1, .buy, .immediateOrCancel⟩

def priced [Build] : Market := gratis.after (.deliver listing)

def stalled [Build] : Market := priced.after (.deliver offer3)

def returned [Build] : Market := stalled.after (.deliver (take1 2))

/-- Twice the money came back to pay again. -/
def circulated [Build] : Market := returned.after (.deliver (take1 3))

def circulatedPast : List Moment := [
  ⟨gratis, .deliver listing⟩, ⟨priced, .deliver offer3⟩, ⟨stalled, .deliver (take1 2)⟩,
  ⟨returned, .deliver (take1 3)⟩]

theorem gratis_range : gratis.ledger.clearing.accounts.InRange :=
  (Accounts.inRange_empty.set (by decide) (by decide)).set (by decide) (by decide)

theorem gratis_trace : Trace [] gratis := .start gratis.tokens gratis.params gratis_range

theorem priced_trace : Trace [⟨gratis, .deliver listing⟩] priced :=
  gratis_trace.next (.deliver listing) trivial

theorem stalled_trace : Trace [⟨gratis, .deliver listing⟩, ⟨priced, .deliver offer3⟩] stalled :=
  priced_trace.next (.deliver offer3) trivial

theorem returned_trace : Trace [⟨gratis, .deliver listing⟩, ⟨priced, .deliver offer3⟩,
    ⟨stalled, .deliver (take1 2)⟩] returned :=
  stalled_trace.next (.deliver (take1 2)) trivial

theorem circulated_trace : Trace circulatedPast circulated :=
  returned_trace.next (.deliver (take1 3)) trivial

theorem circulated_typed : ∀ x ∈ circulatedPast, x.input.InRange := by
  have offered : offer3.InRange := (by decide : 3 < Word.size)
  have taken (sequence : Nat) : (take1 sequence).InRange := (by decide : 1 < Word.size)
  exact List.forall_mem_cons.2 ⟨trivial, List.forall_mem_cons.2 ⟨offered,
    List.forall_mem_cons.2 ⟨taken 2, List.forall_mem_singleton.2 (taken 3)⟩⟩⟩

theorem circulated_supply : (∀ x ∈ circulatedPast, ∀ d, x.market.supply d < Word.size) ∧
    ∀ d, circulated.supply d < Word.size := by
  have start : ∀ d, gratis.supply d < Word.size := fun d => by
    have paid := (({} : Accounts).set ⟨"a"⟩ "btc" ⟨3, 0⟩).supply_set_le ⟨"a"⟩ "cet" d ⟨2 ^ 63, 0⟩
    have stocked := ({} : Accounts).supply_set_le ⟨"a"⟩ "btc" d ⟨3, 0⟩
    have nothing : ({} : Accounts).supply d = 0 := by
      rw [Accounts.supply, Accounts.sumOf_eq]
      rfl
    simp only [Market.supply, gratis, Word.size, Holding.total] at *
    split at paid <;> split at stocked <;> omega
  have priced : ∀ d, priced.supply d < Word.size := gratis_trace.words listing start
  have stalled : ∀ d, stalled.supply d < Word.size := priced_trace.words offer3 priced
  have returned : ∀ d, returned.supply d < Word.size := stalled_trace.words (take1 2) stalled
  refine ⟨?_, returned_trace.words (take1 3) returned⟩
  simp only [circulatedPast, List.forall_mem_cons]
  exact ⟨start, priced, stalled, returned, List.forall_mem_nil _⟩

theorem circulated_outcome :
    (circulated.order? ⟨"a-1-0"⟩).map (fun o => (o.dealStock, o.dealMoney)) = some (2, 0) ∧
      Trade.moneyOf (tradesOf circulatedPast) ⟨"a-1-0"⟩ = Word.size := by
  decide +kernel

/-- After both trades the stock counter of the offer stands at 2, and its money counter is back at
zero. -/
theorem circulated_counters : ∃ o, circulated.order? ⟨"a-1-0"⟩ = some o ∧
    o.dealStock = Trade.stockOf (tradesOf circulatedPast) ⟨"a-1-0"⟩ ∧ o.dealStock = 2 ∧
    o.dealMoney = 0 := by
  obtain ⟨stored, earned⟩ := circulated_outcome
  obtain ⟨o, found, counters⟩ := Option.map_eq_some_iff.1 stored
  obtain ⟨stock, money, -, -⟩ := deal_counters circulated_trace circulated_typed found
  rw [earned, Nat.mod_self] at money
  exact ⟨o, found, stock, congrArg Prod.fst counters, money⟩

/-- So a money counter can fall behind what was paid, although no supply leaves the range of a word.
Where counters do not wrap, the program stops over the second trade. -/
theorem money_counter_overflows : (¬∀ past m k o, Trace past m → (∀ x ∈ past, x.input.InRange) →
    (∀ x ∈ past, ∀ d, x.market.supply d < Word.size) → (∀ d, m.supply d < Word.size) →
    m.order? k = some o → o.dealMoney = Trade.moneyOf (tradesOf past) k) ∧
    ((@returned .checked).order? ⟨"a-1-0"⟩).map (·.dealMoney) = some (2 ^ 63) ∧
    @deliver? .checked (@returned .checked) (take1 3) = none := by
  refine ⟨fun exact => ?_, by decide +kernel, ?_⟩
  · obtain ⟨stored, earned⟩ := circulated_outcome
    obtain ⟨o, found, counters⟩ := Option.map_eq_some_iff.1 stored
    have same := exact _ _ _ o circulated_trace circulated_typed circulated_supply.1
      circulated_supply.2 found
    rw [earned, show o.dealMoney = 0 from congrArg Prod.snd counters] at same
    cases same
  · have stops : (@deliver? .checked (@returned .checked) (take1 3)).isNone = true := by
      decide +kernel
    exact Option.isNone_iff_eq_none.1 stops

end Circulated

end Market

end Bourse
