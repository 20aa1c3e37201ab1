import Bourse.Proofs.Counters
import Bourse.Proofs.WriteBack

/-!
# What an input makes of the record of a market

* `Moment.Amends`: the record of a market notes the last of its trades at the moment, and only its
  creator may raise its precision (`Moment.Raises`);
* `Intact.amends`: so does every input, unless the market is put in or leaves;
* `Tallied.priced`: no trade is at a price of zero.
-/

namespace Bourse

namespace Ledger

variable {l l' : Ledger} {tokens : Tokens} {params : Params} {header : Header} {height : Nat}
  {done : Executed} {report : Report} {batch : Batch}

section Records

variable [Build] (wf : l.store.tables.WellFormed)

include wf

theorem takeOnce_records {a : Admission} (run : takeOnce a params height l = .ok done l')
    (k : PairId) : l'.store.pair? k =
      (l.store.pair? k).map (·.traded (done.batch.trades.filter (·.pair = k))) := by
  obtain ⟨s₁, b₀, c, s₂, _, _, claimed, loaded, ended, written, -, -, batch, rfl⟩ := takeOnce_ok run
  obtain rfl := Pass.matchIncoming_outcome ended
  obtain ⟨-, -, rfl⟩ := Store.claimId_ok.1 claimed
  obtain ⟨sound, pair, -⟩ := Book.ofOrders_ok loaded
  rw [batch, finishTaker_trades]
  exact Store.writeBack_records (wf.useId a.order.id)
    (Pass.incoming_lastPrice sound _ _ pair.symm)
    (fun t mem => (Pass.incoming_pair sound _ _ pair.symm t mem).trans pair) written k

theorem placeOrder_records {m : PlaceOrder}
    (run : placeOrder m tokens params height l = .ok done l') (k : PairId) : l'.store.pair? k =
      (l.store.pair? k).map (·.traded (done.batch.trades.filter (·.pair = k))) := by
  obtain ⟨pair, a, -, -, ⟨-, run⟩ | ⟨-, run⟩⟩ := placeOrder_ok run
  · obtain ⟨s, funds, stored, -, batch, rfl⟩ := rest_ok run
    obtain ⟨-, -, rfl⟩ := Store.putOrder_ok.1 stored
    rw [batch]
    exact Option.map_id'.symm
  · exact takeOnce_records wf run k

/-- A block end removes the markets that it delists, and amends the others. -/
theorem endBlock_records (run : endBlock params header l = .ok (report, batch) l') (k : PairId) :
    l'.store.pair? k = if k ∈ report.delisted then none
      else (l.store.pair? k).map (·.traded (batch.trades.filter (·.pair = k))) := by
  obtain ⟨due, matched, nextFill, s₁, sweep, s₂, clearing, -, passed, swept, -, rfl, rfl, rfl⟩ :=
    endBlock_ok.1 run
  have wf₁ := ((Store.upkeep_extends.matchPairs _ due _).ok passed wf).1
  have trades : (matched ++ ({ effects := sweep.effects } : Batch)).trades = matched.trades :=
    List.append_nil _
  rw [trades, ← Store.matchPairs_records wf passed]
  exact (Store.sweepDue_ok wf₁ swept).1.pair?_eq

end Records

section Prices

/-- Orders with prices trade at prices. -/
theorem price_of_orders {orders : List Order} {t : Trade} (priced : ∀ o ∈ orders, o.price ≠ 0)
    (traded : ∃ o ∈ orders, o.pair = t.pair ∧ o.effectivePrice = t.price) :
    t.price.isZero = false := by
  obtain ⟨o, mem, -, same⟩ := traded
  rw [← same]
  exact beq_false_of_ne (priced o mem)

variable (wf : l.store.tables.WellFormed) (priced : ∀ o ∈ l.store.resting, o.price ≠ 0)

include wf priced

theorem takeOnce_priced [Build] {a : Admission} (own : a.order.price ≠ 0)
    (run : takeOnce a params height l = .ok done l') :
    ∀ t ∈ done.batch.trades, t.price.isZero = false := by
  obtain ⟨s₁, b₀, c, s₂, _, _, claimed, loaded, ended, written, -, -, batch, rfl⟩ := takeOnce_ok run
  obtain rfl := Pass.matchIncoming_outcome ended
  obtain ⟨-, -, rfl⟩ := Store.claimId_ok.1 claimed
  obtain ⟨sound, pair, -⟩ := Book.ofOrders_ok loaded
  have booked : ∀ o ∈ b₀.all, o.price ≠ 0 := fun o mem =>
    priced o (Store.loaded_resting (wf.useId a.order.id) loaded o mem :)
  rw [batch, finishTaker_trades]
  exact fun t mem => price_of_orders (List.forall_mem_cons.2 ⟨own, booked⟩)
    ((Pass.incoming_priced sound _ _ pair.symm).trades t mem)

theorem execute_priced [Build] {msg : Message} (typed : msg.InRange) (checked : msg.check = .ok ())
    (run : execute tokens params header msg l = .ok done l') :
    ∀ t ∈ done.batch.trades, t.price.isZero = false := by
  cases msg with
  | createPair c =>
      obtain ⟨_, -, batch⟩ := execute_create_ok run
      rw [batch]
      exact nofun
  | delistPair d =>
      obtain ⟨_, _, -, batch, -⟩ := execute_delist_ok run
      rw [batch]
      exact nofun
  | raisePrecision r =>
      obtain ⟨_, _, -, batch, -⟩ := execute_raise_ok run
      rw [batch]
      exact nofun
  | placeOrder o =>
      obtain ⟨pair, a, -, passed, ⟨-, run⟩ | ⟨-, run⟩⟩ := placeOrder_ok run
      · obtain ⟨_, _, -, -, batch, -⟩ := rest_ok run
        rw [batch]
        exact nofun
      · exact takeOnce_priced wf priced (newborn_of_pass checked typed passed).priced run
  | cancelOrder c =>
      obtain ⟨_, _, _, -, -, batch, -⟩ := cancelOrder_ok run
      rw [batch]
      exact nofun

theorem endBlock_priced [Build] (run : endBlock params header l = .ok (report, batch) l') :
    ∀ t ∈ batch.trades, t.price.isZero = false := by
  obtain ⟨due, s₁, -, matching, -⟩ := endBlock_swept wf run
  obtain ⟨_, _, _, _, _, _, _, -, -, -, -, -, rfl, -⟩ := endBlock_ok.1 run
  intro t mem
  obtain ⟨b₀, seq, load, -, made, -⟩ := matching.crossed t.pair (matching.only t mem)
  have traded : t ∈ (Pass.resting _ seq b₀).finish.trades :=
    made ▸ List.mem_filter.2 ⟨mem, by simp⟩
  have booked : ∀ o ∈ b₀.all, o.price ≠ 0 := fun o mem =>
    priced o (Store.loaded_resting wf load o mem)
  exact price_of_orders booked
    ((Pass.resting_priced (Book.ofOrders_ok load).1 _ seq).trades t traded)

end Prices

end Ledger

namespace Market

variable [Build] {past : List Moment} {m : Market} {i : Input} {x : Moment} {p : PairId}
  {q q' : Pair} {msg : Message} {trades : List Trade}

/-- An accepted message of its creator raises the precision of the market `p` to `n`. -/
def Moment.Raises (x : Moment) (p : PairId) (q : Pair) (n : Nat) : Prop :=
  ∃ r, x.input = .deliver (.raisePrecision r) ∧
    (x.market.deliver (.raisePrecision r)).1.success = true ∧ r.symbol = p.text ∧
    r.sender = q.creator ∧ r.precision = n ∧ q.precision < n ∧ n ≤ Price.maxPrecision

/-- A moment with these trades turns the record `q` of the market `p` to `q'`. -/
structure Moment.Amends (x : Moment) (p : PairId) (trades : List Trade) (q q' : Pair) :
    Prop where
  record : q' = { q.traded (trades.filter (·.pair = p)) with precision := q'.precision }
  precision : q'.precision = q.precision ∨ x.Raises p q q'.precision

theorem Moment.Amends.rises (amends : x.Amends p trades q q') : q.precision ≤ q'.precision := by
  obtain same | ⟨-, -, -, -, -, -, more, -⟩ := amends.precision
  · exact same.ge
  · exact more.le

/-- The trades are noted, and nothing else changes. -/
theorem amends_of_records {record record' : Option Pair}
    (records : record' = record.map (·.traded (trades.filter (·.pair = p))))
    (found : record = some q) : ∃ q', record' = some q' ∧ x.Amends p trades q q' := by
  rw [found, Option.map_some] at records
  exact ⟨_, records, rfl, .inl rfl⟩

theorem amends_of_same {record record' : Option Pair} (same : record' = record)
    (found : record = some q) : ∃ q', record' = some q' ∧ x.Amends p [] q q' :=
  ⟨q, same.trans found, rfl, .inl rfl⟩

/-- What an accepted message makes of a record, on the ledger. -/
theorem execute_amends {l l' : Ledger} {done : Executed} (wf : l.store.tables.WellFormed)
    (here : x.input = .deliver msg) (checked : msg.check = .ok ())
    (accepted : (x.market.deliver msg).1.success = true)
    (run : Ledger.execute x.market.tokens x.market.params x.market.header msg l = .ok done l')
    (found : l.store.pair? p = some q) :
    ∃ q', l'.store.pair? p = some q' ∧ x.Amends p done.batch.trades q q' := by
  cases msg with
  | createPair c =>
      obtain ⟨id, created, batch⟩ := Ledger.execute_create_ok run
      obtain ⟨s, funds, -, inserted, -, rfl⟩ := Ledger.create_ok created
      obtain ⟨absent, rfl⟩ := Store.insertPair_ok.1 inserted
      rw [batch]
      refine amends_of_same (Store.pair?_setPair.trans (if_neg fun same => ?_)) found
      rw [same, found] at absent
      cases absent
  | delistPair d =>
      obtain ⟨r, s, scheduled, batch, rfl⟩ := Ledger.execute_delist_ok run
      obtain ⟨pair, -, -, -, -, tables⟩ := Store.scheduleDelist_ok scheduled
      rw [batch]
      exact amends_of_same (congrArg (·.pairs[p]?) tables :) found
  | raisePrecision r =>
      obtain ⟨out, s, raised, batch, rfl⟩ := Ledger.execute_raise_ok run
      obtain ⟨pair, found', owned, rises, rfl⟩ := Store.raisePrecision_ok raised
      obtain ⟨k, parsed, stored⟩ := Store.lookup_ok found'
      obtain rfl := wf.pair_id k pair stored
      rw [batch]
      by_cases same : pair.id = p
      · -- The message is about this market.
        subst same
        obtain rfl := Option.some.inj (stored.symm.trans found)
        have most : r.precision ≤ Price.maxPrecision := by
          simp only [Message.check, Check.bind_ok, Message.requirePrecision] at checked
          obtain ⟨-, -, -, -, bounded⟩ := checked
          by_contra above
          rw [if_pos (not_le.1 above)] at bounded
          cases bounded
        refine ⟨{ pair with precision := r.precision }, Store.pair?_setPair.trans (if_pos rfl), rfl,
          .inr ⟨r, here, accepted, ?_, owned.symm, rfl, rises, most⟩⟩
        exact (congrArg PairId.text (PairId.parse_ok parsed)).symm
      · exact amends_of_same (Store.pair?_setPair.trans (if_neg same)) found
  | placeOrder o => exact amends_of_records (Ledger.placeOrder_records wf run p) found
  | cancelOrder c =>
      obtain ⟨out, s, clearing, cancelled, -, batch, rfl⟩ := Ledger.cancelOrder_ok run
      obtain ⟨o, -, -, rfl⟩ := Store.cancel_ok cancelled
      rw [batch]
      exact amends_of_same (congrArg (·[p]?) Tables.eraseOrder_pairs :) found

/-- What an input makes of a record, if it does not put the market in. -/
theorem Intact.amends (intact : m.Intact) (calm : ∀ r, i = .setPair r → r.id ≠ p)
    (found : m.ledger.store.pair? p = some q) :
    (∃ q', (m.after i).ledger.store.pair? p = some q' ∧
      Moment.Amends ⟨m, i⟩ p (m.event i).batch.trades q q') ∨
    (m.after i).ledger.store.pair? p = none ∧
      ∃ header report, i = .endBlock header ∧ (m.endBlock header).1 = .ok report ∧
        p ∈ report.delisted := by
  cases i with
  | beginBlock | accounts | params | tokens => exact .inl (amends_of_same rfl found)
  | setPair r =>
      exact .inl (amends_of_same (Store.pair?_setPair.trans (if_neg (calm r rfl))) found)
  | deliver msg =>
      refine .inl ?_
      obtain ⟨-, same, idle⟩ | ⟨done, l, checked, accepted, acted, same, event⟩ :=
        intact.after_deliver msg
      · rw [same, idle]
        exact amends_of_same rfl found
      · rw [same, event]
        exact (execute_amends (x := ⟨m, .deliver msg⟩) intact.opened rfl checked accepted acted
          found :)
  | endBlock header =>
      obtain ⟨fault, -, same, idle⟩ | ⟨report, batch, l, ended, acted, same, event⟩ :=
        intact.after_endBlock header
      · rw [same, idle]
        exact .inl (amends_of_same rfl found)
      · have records := Ledger.endBlock_records intact.opened acted p
        rw [same, event]
        by_cases left : p ∈ report.delisted
        · rw [if_pos left] at records
          exact .inr ⟨records, header, report, rfl, ended, left⟩
        · rw [if_neg left] at records
          exact .inl (amends_of_records records found)

/-- Whatever rests has a price. -/
theorem Tallied.price_of_resting (tallied : Tallied past m) :
    ∀ o ∈ m.ledger.store.resting, o.price ≠ 0 := by
  intro o mem
  obtain ⟨o₀, rfl, new, -⟩ := tallied.origin o mem
  have same : (o₀.after (tradesOf past)).price = o₀.price :=
    (congrArg Order.price Order.terms_after :)
  exact same ▸ new.priced

/-- So no trade is at a price of zero. -/
theorem Tallied.priced (tallied : Tallied past m) (intact : m.Intact) (typed : i.InRange) :
    ∀ t ∈ (m.event i).batch.trades, t.price.isZero = false := by
  have priced := tallied.price_of_resting
  cases i with
  | beginBlock | accounts | params | tokens | setPair => exact nofun
  | deliver msg =>
      obtain ⟨-, -, idle⟩ | ⟨done, l, checked, -, acted, -, event⟩ := intact.after_deliver msg
      · rw [idle]
        exact nofun
      · rw [event]
        exact Ledger.execute_priced intact.opened priced typed checked acted
  | endBlock header =>
      obtain ⟨fault, -, -, idle⟩ | ⟨report, batch, l, -, acted, -, event⟩ :=
        intact.after_endBlock header
      · rw [idle]
        exact nofun
      · rw [event]
        exact Ledger.endBlock_priced intact.opened priced acted

end Market

end Bourse
