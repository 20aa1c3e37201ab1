import Bourse.Proofs.Amendment
import Bourse.Proofs.LifeCycle
import Bourse.Proofs.Requests

/-!
# What rests is well formed

* `Store.Lasting`: markets that stay keep their denominations, and their precision never falls; each
  input but a market put in leaves them so (`Intact.lasting`);
* `Store.Houses`: the market of an order is listed, and no less precise than the order. A market
  only leaves with its orders, so every order that rests is housed (`Trace.housed`);
* `Order.Standing`: the fields of an order agree; one that was admitted and traded since is such
  (`Newborn.standing`);
* `resting_well_formed`: both hold of whatever rests, and its id is its own and used.
-/

namespace Bourse

namespace Store

/-- The markets but for those gone keep their denominations, and no precision falls. -/
def Lasting (gone : List PairId) (s s' : Store) : Prop :=
  ∀ p ∉ gone, ∀ pair, s.pair? p = some pair → ∃ pair', s'.pair? p = some pair' ∧
    pair'.stock = pair.stock ∧ pair'.money = pair.money ∧ pair.precision ≤ pair'.precision

/-- The market of the order is listed, under the denominations that the order names, and it is no
less precise. -/
def Houses (s : Store) (o : Order) : Prop :=
  ∃ pair, s.pair? o.pair = some pair ∧ pair.stock = o.pair.stock ∧ pair.money = o.pair.money ∧
    o.precision ≤ pair.precision

variable {s s' : Store} {gone : List PairId} {o o' : Order} {pair : Pair} {symbol : String}

theorem Lasting.houses (lasting : Lasting gone s s') (stays : o.pair ∉ gone) (housed : s.Houses o) :
    s'.Houses o := by
  obtain ⟨pair, found, stock, money, precise⟩ := housed
  obtain ⟨pair', found', stock', money', rises⟩ := lasting o.pair stays pair found
  exact ⟨pair', found', stock'.trans stock, money'.trans money, precise.trans rises⟩

theorem Houses.of_terms (housed : s.Houses o) (same : o'.terms = o.terms) : s.Houses o' := by
  rw [Houses, Order.pair_of_terms same,
    show o'.precision = o.precision from (congrArg Order.precision same :)]
  exact housed

/-- A market that a symbol names has the denominations that the symbol names. -/
theorem faithful_of_lookup (wf : s.tables.WellFormed) (found : s.lookup symbol = .ok pair) :
    s.pair? pair.id = some pair ∧ pair.Faithful := by
  obtain ⟨q, parsed, stored⟩ := lookup_ok found
  obtain rfl := wf.pair_id q pair stored
  have text : pair.id.text = symbol := congrArg PairId.text (PairId.parse_ok parsed)
  have parsed : PairId.parse (PairId.join pair.stock pair.money).text = .ok pair.id := text ▸ parsed
  exact ⟨stored, PairId.parts_of_parse parsed⟩

end Store

/-- The fields of an order that was traded in part, or not at all. -/
structure Order.Standing (o : Order) : Prop where
  unfilled : 0 < o.remaining
  within : o.remaining ≤ o.quantity
  priced : 0 < o.price
  dealt : o.dealStock = o.quantity - o.remaining
  status : o.status = if o.remaining = o.quantity then .opened else .partiallyFilled
  principal : o.side = .sell → o.frozenPrincipal = o.remaining

/-- So are those of a new order after trades that took no more than it had. -/
theorem Order.Newborn.standing {o : Order} {trades : List Trade} (new : o.Newborn)
    (fits : Trade.stockOf trades o.id ≤ o.quantity) (moving : ∀ t ∈ trades, t.quantity ≠ 0)
    (unfilled : (o.after trades).remaining ≠ 0) : (o.after trades).Standing := by
  have whole := new.remaining
  have word := new.word
  have taken := Order.remaining_after (whole.symm ▸ fits) (whole.symm ▸ word)
  have quantity : (o.after trades).quantity = o.quantity :=
    (congrArg Order.quantity Order.terms_after :)
  constructor
  · exact Nat.pos_of_ne_zero unfilled
  · omega
  · rw [show (o.after trades).price = o.price from (congrArg Order.price Order.terms_after :)]
    exact Nat.pos_of_ne_zero new.priced
  · have nothing : o.dealStock < Word.size := new.dealStock ▸ (by decide)
    rw [Order.dealStock_after nothing, new.dealStock, Nat.zero_add, Nat.mod_eq_of_lt (by omega)]
    omega
  · by_cases named : ∃ t ∈ trades, t.Names o.id
    · -- A trade that names it took something.
      obtain ⟨t, mem, names⟩ := named
      have some : t.quantity ≤ Trade.stockOf trades o.id := by
        refine List.le_sum_of_mem (List.mem_map.2 ⟨t, mem, if_pos names⟩)
      have moved := moving t mem
      rw [Order.status_after ⟨t, mem, names⟩, if_neg unfilled, if_neg (by omega)]
    · have idle : ∀ t ∈ trades, ¬t.Names o.id := fun t mem names => named ⟨t, mem, names⟩
      rw [Order.after_of_idle idle, new.opened, if_pos whole]
  · intro sells
    have sells : o.side = .sell := (Order.side_of_terms Order.terms_after).symm.trans sells
    rw [Order.principal_after, Order.paid_sell sells, new.sold sells]
    omega

namespace Market

variable {past : List Moment} {m : Market} {i : Input} {o : Order} {k : OrderId}

theorem Moment.Amends.lasts [Build] {x : Moment} {p : PairId} {trades : List Trade} {q q' : Pair}
    (amends : x.Amends p trades q q') :
    q'.stock = q.stock ∧ q'.money = q.money ∧ q.precision ≤ q'.precision := by
  refine ⟨?_, ?_, amends.rises⟩ <;> rw [amends.record] <;> rfl

/-- The markets last, but for those that leave with their orders. -/
theorem Intact.lasting [Build] (intact : m.Intact) (calm : ∀ pair, i ≠ .setPair pair) :
    ∃ gone, Store.Lasting gone m.ledger.store (m.after i).ledger.store ∧
      ∀ o : Order, o.pair ∈ gone → Moment.Removes ⟨m, i⟩ o := by
  have calm : ∀ p r, i = .setPair r → r.id ≠ p := fun p r put => absurd put (calm r)
  by_cases ends : ∃ header report, i = .endBlock header ∧ (m.endBlock header).1 = .ok report
  · obtain ⟨header, report, rfl, ended⟩ := ends
    refine ⟨report.delisted, fun p stays pair found => ?_, fun o left => ⟨report, ended, left⟩⟩
    obtain ⟨pair', found', amends⟩ | ⟨-, _, _, same, ended', left⟩ := intact.amends (calm p) found
    · exact ⟨pair', found', amends.lasts⟩
    · cases same
      cases ended.symm.trans ended'
      exact absurd left stays
  · refine ⟨[], fun p _ pair found => ?_, nofun⟩
    obtain ⟨pair', found', amends⟩ | ⟨-, header, report, same, ended, -⟩ :=
      intact.amends (calm p) found
    · exact ⟨pair', found', amends.lasts⟩
    · exact absurd ⟨header, report, same, ended⟩ ends

/-- The order that a moment admits has a market. -/
theorem housed_of_admitted [Build] (intact : m.Intact) (admitted : o ∈ (m.event i).admitted) :
    m.ledger.store.Houses o := by
  obtain ⟨p, pair, a, -, -, -, found, passed, rfl⟩ := admitted_cases admitted
  obtain ⟨_, _, precise, -, -, -, order⟩ := pass_ok passed
  obtain ⟨stored, stock, money⟩ := Store.faithful_of_lookup intact.tables found
  rw [order]
  exact ⟨pair, stored, stock.symm, money.symm, precise⟩

/-- Markets are put in before anything rests. -/
theorem Tallied.calm [Build] (tallied : Tallied past m) (first : PutFirst (past ++ [⟨m, i⟩]))
    (rests : o ∈ m.ledger.store.resting) (pair : Pair) : i ≠ .setPair pair := by
  obtain ⟨o₀, -, -, -, -, -, -, x, mem, admitted⟩ := tallied.origin o rests
  obtain ⟨p, _, _, here, -⟩ := admitted_cases admitted
  obtain ⟨-, -, apart⟩ := List.pairwise_append.1 first
  exact apart x mem _ (List.mem_singleton.2 rfl) ⟨_, here⟩ pair

theorem Trace.housed [Build] (trace : Trace past m) (typed : ∀ x ∈ past, x.input.InRange)
    (first : PutFirst past) : ∀ o ∈ m.ledger.store.resting, m.ledger.store.Houses o := by
  induction trace with
  | start tokens params range =>
      intro o mem
      rw [Store.mem_resting Tables.wellFormed_empty] at mem
      simp [Store.order?] at mem
  | @next past m i trace fits ih =>
      rw [List.forall_mem_append, List.forall_mem_singleton] at typed
      have tallied := trace.tallied typed.1
      have intact := trace.intact
      have accounted := intact.accounted tallied.open typed.2
      intro o' mem
      obtain ⟨-, o, start, rfl⟩ := accounted.kept o' mem
      have calm : ∀ pair, i ≠ .setPair pair := by
        obtain resting | admitted := List.mem_append.1 start
        · exact tallied.calm first resting
        · obtain ⟨p, _, _, rfl, -⟩ := admitted_cases (Option.mem_toList.1 admitted)
          exact fun _ => Input.noConfusion
      have housed : m.ledger.store.Houses o := by
        obtain resting | admitted := List.mem_append.1 start
        · exact ih typed.1 (List.pairwise_append.1 first).1 o resting
        · exact housed_of_admitted intact (Option.mem_toList.1 admitted)
      obtain ⟨gone, lasting, removes⟩ := intact.lasting calm
      have stays : o.pair ∉ gone := fun left =>
        accounted.gone o start (removes o left) _ mem Order.id_after
      exact (lasting.houses stays housed).of_terms Order.terms_after

/-- Along every run that puts in markets before its first message only, the fields of whatever rests
agree, and its id is that of its sender, its sequence and some version, and used. Its market is
listed under the denominations that it names, and no less precise. -/
theorem resting_well_formed [Build] (trace : Trace past m) (typed : ∀ x ∈ past, x.input.InRange)
    (first : PutFirst past) (found : m.order? k = some o) :
    o.id = k ∧ o.Standing ∧ (∃ version, k = .assemble o.sender o.sequence version) ∧
      m.ledger.store.tables.isIdUsed k = true ∧ m.ledger.store.Houses o := by
  have intact := trace.intact
  obtain rfl := intact.tables.order_id k o found
  have resting := (Store.mem_resting intact.tables).2 found
  have tallied := trace.tallied typed
  have housed := trace.housed typed first o resting
  have unfilled := tallied.unfilled o resting
  have used := Store.used_of_resting intact.tables resting
  refine ⟨rfl, ?_, ?_, ?_, housed⟩
  · obtain ⟨o₀, rfl, new, -, fits, -⟩ := tallied.origin o resting
    exact new.standing fits tallied.moving unfilled
  · obtain ⟨o₀, rfl, -, -, -, -, -, x, -, admitted⟩ := tallied.origin o resting
    obtain ⟨p, pair, a, -, -, -, -, passed, rfl⟩ := admitted_cases admitted
    obtain ⟨_, _, -, -, -, -, order⟩ := pass_ok passed
    refine ⟨x.market.params.chainIdVersion, ?_⟩
    rw [Order.id_after, Order.sender_of_terms Order.terms_after,
      show (a.order.after _).sequence = a.order.sequence from
        (congrArg Order.sequence Order.terms_after :), order]
    rfl
  · rw [Tables.isIdUsed, Bool.or_eq_true, ← Std.ExtTreeSet.mem_iff_contains]
    exact .inl used

section Checked

attribute [local instance] Build.checked

/-- After the block the offer of 7 rests with 3, filled in part, and its market is still listed. -/
theorem quoted_well_formed :
    let m := quoted.after (.endBlock ⟨1, 0⟩)
    ∃ o, m.order? ⟨"a-1-0"⟩ = some o ∧ o.remaining = 3 ∧ o.quantity = 7 ∧ o.dealStock = 7 - 3 ∧
      o.status = .partiallyFilled ∧ m.ledger.store.Houses o := by
  have ended : Trace _ (quoted.after (.endBlock ⟨1, 0⟩)) :=
    quoted_trace.next (.endBlock ⟨1, 0⟩) trivial
  have typed : ∀ x ∈ quotedPast ++ [⟨quoted, .endBlock ⟨1, 0⟩⟩], x.input.InRange :=
    List.forall_mem_append.2 ⟨quoted_typed, List.forall_mem_singleton.2 trivial⟩
  have first : PutFirst (quotedPast ++ [⟨quoted, .endBlock ⟨1, 0⟩⟩]) := by
    refine List.pairwise_of_forall_mem_list fun x _ y mem _ pair put => ?_
    simp only [quotedPast, List.mem_append, List.mem_cons, List.not_mem_nil, or_false] at mem
    obtain (rfl | rfl | rfl) | rfl := mem <;> cases put
  have rests : ((quoted.after (.endBlock ⟨1, 0⟩)).order? ⟨"a-1-0"⟩).map
      (fun o => (o.remaining, o.quantity)) = some (3, 7) := by
    decide +kernel
  obtain ⟨o, found, amounts⟩ := Option.map_eq_some_iff.1 rests
  obtain ⟨left, quantity⟩ := Prod.mk.inj amounts
  obtain ⟨-, standing, -, -, housed⟩ := resting_well_formed ended typed first found
  refine ⟨o, found, left, quantity, ?_, ?_, housed⟩
  · rw [standing.dealt, quantity, left]
  · rw [standing.status, quantity, left]
    rfl

end Checked

end Market

end Bourse
