import Bourse.Proofs.Admission
import Bourse.Proofs.Atomicity
import Bourse.Proofs.Balance

/-!
# The frozen funds are what the resting orders hold

* `Ledger.Backed`: the invariant; every message and every block end that succeeds keeps it
  (`execute_backed`, `endBlock_backed`), and one that fails changes nothing;
* `Market.Step`, `Market.Reachable`: the runs of a market from nothing frozen, whose base currency
  stays;
* `frozen_backs_orders`: in every state that such a run reaches, what an account has frozen is what
  its resting orders hold.
-/

namespace Bourse

namespace Clearing

variable {c c' : Clearing} {b : Batch}

theorem settled_frozen (run : c.settled b = .ok c') (x : Address) (d : Denom) :
    (c'.accounts.holding x d).frozen + Effect.debits b.effects x d =
      (c.accounts.holding x d).frozen := by
  obtain ⟨_, accounts, -, rehearsed, rfl⟩ := settled_ok.1 run
  exact (Accounts.rehearsal_moves rehearsed).1 x d

theorem settled_inRange (range : c.accounts.InRange) (run : c.settled b = .ok c') :
    c'.accounts.InRange := by
  obtain ⟨_, accounts, -, rehearsed, rfl⟩ := settled_ok.1 run
  exact range.rehearsal rehearsed

end Clearing

namespace Ledger

variable {l l' : Ledger} {base : Denom} {tokens : Tokens} {params : Params} {header : Header}
  {height : Nat} {done : Executed}

/-- The frozen funds of every account are what its resting orders hold, on well-formed tables and
amounts that are words. -/
structure Backed (base : Denom) (l : Ledger) : Prop where
  tables : l.store.tables.WellFormed
  faithful : l.store.Faithful
  range : l.clearing.accounts.InRange
  frozen : ∀ x d, (l.clearing.accounts.holding x d).frozen =
    Order.escrow l.store.resting base x d

theorem create_backed {m : CreatePair} {id : PairId}
    (checked : (Message.createPair m).check = .ok ()) (backed : l.Backed base)
    (run : Listing.create m tokens params height l = .ok id l') : l'.Backed base := by
  obtain ⟨s, funds, -, listed, charged, rfl⟩ := create_ok run
  obtain ⟨-, rfl⟩ := Store.insertPair_ok.1 listed
  refine ⟨backed.tables.insertPair _,
    Store.faithful_setPair backed.faithful (faithful_of_check checked params height),
    backed.range.send charged, fun x d => ?_⟩
  exact ((Accounts.sent_of_send charged).frozen x d).trans (backed.frozen x d)

theorem delist_backed {m : DelistPair} {now : Int} {r : DelistRequest} {s : Store}
    (backed : l.Backed base) (run : Store.scheduleDelist m params now l.store = .ok (r, s)) :
    (l.withStore s).Backed base := by
  have wf := (Store.scheduleDelist_extends run backed.tables).1
  obtain ⟨-, -, -, -, -, same⟩ := Store.scheduleDelist_ok run
  refine ⟨wf, Store.faithful_of_pairs backed.faithful (by rw [withStore_store, same]),
    backed.range, fun x d => ?_⟩
  rw [withStore_store, Store.resting, same]
  exact backed.frozen x d

theorem raise_backed {m : RaisePrecision} {out : Nat × Nat} {s : Store} (backed : l.Backed base)
    (run : Listing.raisePrecision m params l.store = .ok (out, s)) :
    (l.withStore s).Backed base := by
  have wf := (Store.raisePrecision_extends run backed.tables).1
  obtain ⟨pair, found, -, -, rfl⟩ := Store.raisePrecision_ok run
  obtain ⟨q, -, stored⟩ := Store.lookup_ok found
  exact ⟨wf, Store.faithful_setPair backed.faithful (backed.faithful q pair stored),
    backed.range, backed.frozen⟩

/-- The market that a symbol names is faithful. -/
theorem Backed.pair_faithful {symbol : String} {pair : Pair} (backed : l.Backed base)
    (found : l.store.lookup symbol = .ok pair) : pair.Faithful := by
  obtain ⟨q, -, stored⟩ := Store.lookup_ok found
  exact backed.faithful q pair stored

/-- What is settled for a taker returns what is left of it. -/
theorem debits_finishTaker {c : Crossing} {taker : Order} (closed : taker.Closed) (x : Address)
    (d : Denom) : Effect.debits (finishTaker c taker base).1.effects x d =
      Effect.debits c.effects x d + taker.heldFor base x d := by
  rw [finishTaker]
  split
  · next filled =>
      rw [closed.heldFor (by simpa [Order.isFilled] using filled), Nat.add_zero]
      rfl
  · rw [Effect.debits_append, Order.debits_releases]

/-- Where the pass of an admitted order over the book of its market ends. -/
def taken [Build] (l : Ledger) (a : Admission) (params : Params) (height : Nat) (b₀ : Book) :
    Pass × Order :=
  Pass.incoming (venue params height) l.nextFill b₀ a.order

/-- What is settled for it. -/
def takenBatch [Build] (l : Ledger) (a : Admission) (params : Params) (height : Nat) (b₀ : Book) :
    Batch :=
  (finishTaker (l.taken a params height b₀).1.finish (l.taken a params height b₀).2
    params.baseCurrency).1

section Orders

variable {a : Admission} (holds : ∀ d, Coin.amountOf a.holds d = a.order.held params.baseCurrency d)

include holds

theorem frozen_admitted {b b' : Accounts}
    (frozen : Accounts.Frozen a.order.sender (Coin.amountOf a.holds) b b') (x : Address)
    (d : Denom) : (b'.holding x d).frozen =
      (b.holding x d).frozen + a.order.heldFor params.baseCurrency x d := by
  rw [frozen.frozen x d, Order.heldFor, holds]

theorem rest_backed (backed : l.Backed params.baseCurrency) (run : rest a l = .ok done l') :
    l'.Backed params.baseCurrency := by
  have wf := ((rest_atomic a).store.ok run backed.tables).1
  obtain ⟨s, funds, stored, frozen, -, rfl⟩ := rest_ok run
  obtain ⟨frozen, range⟩ := Accounts.freezeAll_ok backed.range frozen
  have perm := Store.resting_putOrder stored
  obtain ⟨-, -, rfl⟩ := Store.putOrder_ok.1 stored
  refine ⟨wf, backed.faithful, range, fun x d => ?_⟩
  apply (frozen_admitted holds frozen x d).trans
  rw [backed.frozen x d, Nat.add_comm, ← Order.escrow_cons]
  exact (Order.escrow_perm perm).symm

omit holds in
/-- What an immediate order settles is what it and the resting orders held, less what rests after
it. -/
theorem held_taken [Build] {s₁ s₂ : Store} {b₀ : Book} {u : Unit} (wf : l.store.tables.WellFormed)
    (unfilled : a.order.remaining ≠ 0) (claimed : l.store.claimId a.order.id = .ok s₁)
    (loaded : s₁.loadBook a.order.pair = .ok b₀)
    (written : Store.writeBack a.order.pair (l.taken a params height b₀).1.finish s₁ = .ok u s₂)
    (x : Address) (d : Denom) :
    Effect.debits (l.takenBatch a params height b₀).effects x d +
        Order.escrow s₂.resting params.baseCurrency x d =
      Order.escrow l.store.resting params.baseCurrency x d +
        a.order.heldFor params.baseCurrency x d := by
  obtain ⟨-, -, rfl⟩ := Store.claimId_ok.1 claimed
  obtain ⟨sound, pair, -⟩ := Book.ofOrders_ok loaded
  have start := incoming_from sound (venue params height) l.nextFill pair.symm
  have closed := incoming_closed sound (venue params height) l.nextFill pair.symm
    fun filled => absurd filled unfilled
  have matched := (incoming_balanced sound (venue params height) l.nextFill pair.symm).held x d
  rw [takenBatch]
  rw [taken] at *
  generalize Pass.incoming (venue params height) l.nextFill b₀ a.order = out at *
  have wrote := Store.writeBack_escrow (wf.useId a.order.id) loaded start written
    params.baseCurrency x d
  have same : (l.store.write (.idUsed a.order.id) (l.store.tables.useId a.order.id)).resting =
    l.store.resting := rfl
  rw [same] at wrote
  rw [Order.escrow_cons, Order.escrow_cons] at matched
  rw [debits_finishTaker closed]
  dsimp only [venue] at matched
  omega

/-- Once the funds of the order are frozen, that is what is frozen, less what rests after it. -/
theorem debits_taken [Build] {s₁ s₂ : Store} {b₀ : Book} {funds : Accounts} {u : Unit}
    (unfilled : a.order.remaining ≠ 0) (backed : l.Backed params.baseCurrency)
    (claimed : l.store.claimId a.order.id = .ok s₁) (loaded : s₁.loadBook a.order.pair = .ok b₀)
    (written : Store.writeBack a.order.pair (l.taken a params height b₀).1.finish s₁ = .ok u s₂)
    (frozen : Accounts.Frozen a.order.sender (Coin.amountOf a.holds) l.clearing.accounts funds)
    (x : Address) (d : Denom) :
    Effect.debits (l.takenBatch a params height b₀).effects x d +
      Order.escrow s₂.resting params.baseCurrency x d = (funds.holding x d).frozen := by
  have held := held_taken backed.tables unfilled claimed loaded written x d
  have admitted := frozen_admitted holds frozen x d
  have before := backed.frozen x d
  omega

theorem takeOnce_backed [Build] (unfilled : a.order.remaining ≠ 0)
    (backed : l.Backed params.baseCurrency)
    (run : takeOnce a params height l = .ok done l') : l'.Backed params.baseCurrency := by
  have wf := ((takeOnce_atomic a).store.ok run backed.tables).1
  obtain ⟨s₁, book, c, s₂, funds, clearing, claimed, loaded, ended, written, frozen, settled,
    batch, rfl⟩ := takeOnce_ok run
  obtain ⟨frozen, range⟩ := Accounts.freezeAll_ok backed.range frozen
  obtain rfl := Pass.matchIncoming_outcome ended
  have faithful : s₂.Faithful := by
    obtain ⟨-, -, rfl⟩ := Store.claimId_ok.1 claimed
    exact (Store.upkeep_faithful.writeBack a.order.pair _).ok written backed.faithful
  refine ⟨wf, faithful, Clearing.settled_inRange range settled, fun x d => ?_⟩
  have moved := Clearing.settled_frozen settled x d
  have taken := debits_taken holds unfilled backed claimed loaded written frozen x d
  have same : done.batch = l.takenBatch a params height book := batch
  rw [same] at moved
  change (clearing.accounts.holding x d).frozen = Order.escrow s₂.resting params.baseCurrency x d
  dsimp only at moved
  omega

end Orders

/-- What balances keeps the frozen funds backed once it is settled. -/
theorem Backed.settle {v : Venue} {b : Batch} {c : Clearing} {s : Store} {nextFill : Nat}
    (backed : l.Backed v.baseCurrency) (wf : s.tables.WellFormed) (faithful : s.Faithful)
    (balanced : Balanced v l.store.resting s.resting b.trades b.effects)
    (settled : l.clearing.settled b = .ok c) :
    Backed v.baseCurrency ⟨s, c, nextFill⟩ := by
  refine ⟨wf, faithful, Clearing.settled_inRange backed.range settled, fun x d => ?_⟩
  have moved := Clearing.settled_frozen settled x d
  have held := balanced.held x d
  have before := backed.frozen x d
  change (c.accounts.holding x d).frozen = Order.escrow s.resting v.baseCurrency x d
  omega

theorem cancel_backed {m : CancelOrder} (height : Nat) (backed : l.Backed params.baseCurrency)
    (run : cancelOrder m params l = .ok done l') : l'.Backed params.baseCurrency := by
  have wf := ((cancelOrder_atomic m).store.ok run backed.tables).1
  obtain ⟨out, s, clearing, cancelled, settled, batch, rfl⟩ := cancelOrder_ok run
  have faithful := Store.upkeep_faithful.cancel cancelled backed.faithful
  have balanced := Store.cancel_balanced (v := venue params height) cancelled
  refine Backed.settle (v := venue params height) backed wf faithful ?_ settled
  rw [batch]
  exact balanced

/-- Every message that succeeds keeps the frozen funds backed. -/
theorem execute_backed [Build] {msg : Message} (checked : msg.check = .ok ())
    (backed : l.Backed params.baseCurrency)
    (run : execute tokens params header msg l = .ok done l') : l'.Backed params.baseCurrency := by
  cases msg with
  | createPair m =>
      obtain ⟨id, created, -⟩ := execute_create_ok run
      exact create_backed checked backed created
  | delistPair m =>
      obtain ⟨r, s, scheduled, -, rfl⟩ := execute_delist_ok run
      exact delist_backed backed scheduled
  | raisePrecision m =>
      obtain ⟨out, s, raised, -, rfl⟩ := execute_raise_ok run
      exact raise_backed backed raised
  | placeOrder m =>
      obtain ⟨pair, a, found, passed, run⟩ := placeOrder_ok run
      have holds := pass_held (backed.pair_faithful found) passed
      obtain ⟨-, run⟩ | ⟨-, run⟩ := run
      · exact rest_backed holds backed run
      · refine takeOnce_backed holds ?_ backed run
        simp only [Message.check, Check.bind_ok, Check.guard_ok] at checked
        obtain ⟨-, -, -, -, -, -, positive, -⟩ := checked
        obtain ⟨principal, fee, -, -, -, -, order⟩ := pass_ok passed
        rw [order]
        exact positive
  | cancelOrder m => exact cancel_backed header.height backed run

/-- And so does every block end. -/
theorem endBlock_backed [Build] {out : Report × Batch} (backed : l.Backed params.baseCurrency)
    (run : endBlock params header l = .ok out l') : l'.Backed params.baseCurrency := by
  have wf := (endBlock_atomic.store.ok run backed.tables).1
  obtain ⟨report, batch⟩ := out
  obtain ⟨due, matched, nextFill, s₁, sweep, s₂, clearing, -, passed, swept, settled, rfl, -,
    rfl⟩ := endBlock_ok.1 run
  have faithful := (Store.upkeep_faithful.sweepDue _).ok swept
    ((Store.upkeep_faithful.matchPairs _ due _).ok passed backed.faithful)
  have balanced := Store.matchPairs_balanced backed.tables passed
  exact Backed.settle (v := venue params header.height) backed wf faithful
    (balanced.append (Store.sweepDue_balanced swept)) settled

/-- Whether the journal is open does not matter. -/
theorem Backed.opened (backed : l.Backed base) : (l.withStore l.store.openJournal).Backed base :=
  ⟨backed.tables, backed.faithful, backed.range, backed.frozen⟩

theorem Backed.committed (backed : l.Backed base) : (l.withStore l.store.commit).Backed base :=
  ⟨backed.tables, backed.faithful, backed.range, backed.frozen⟩

end Ledger

namespace Market

variable {m m' : Market}

/-- One step of a market while its base currency stays: a block begins or ends, a message is
delivered, funds come in from outside, or the other parameters or the tokens change. -/
inductive Step [Build] : Market → Market → Prop
  | beginBlock (m : Market) (header : Header) : Step m (m.beginBlock header)
  | deliver (m : Market) (msg : Message) : Step m (m.deliver msg).2
  | endBlock (m : Market) (header : Header) : Step m (m.endBlock header).2
  | deposit {m : Market} {accounts : Accounts} (x : Address) (coin : Coin) :
      m.ledger.clearing.accounts.deposit x coin = .ok accounts →
      Step m { m with ledger := m.ledger.withAccounts accounts }
  | params (m : Market) (params : Params) :
      params.baseCurrency = m.params.baseCurrency → Step m { m with params }
  | tokens (m : Market) (tokens : Tokens) : Step m { m with tokens }

/-- A market without markets and orders, in which nothing is frozen. -/
structure Fresh (m : Market) : Prop where
  store : m.ledger.store = {}
  watermark : m.ledger.clearing.watermark = none
  nextFill : m.ledger.nextFill = 0
  range : m.ledger.clearing.accounts.InRange
  unfrozen : ∀ x d, (m.ledger.clearing.accounts.holding x d).frozen = 0

inductive Reachable [Build] : Market → Prop
  | start {m : Market} : m.Fresh → Reachable m
  | step {m m' : Market} : Reachable m → Step m m' → Reachable m'

/-- The ledger is backed, and no journal is open. -/
structure Backed (m : Market) : Prop where
  ledger : m.ledger.Backed m.params.baseCurrency
  idle : m.ledger.store.journal = none

theorem Fresh.resting (fresh : m.Fresh) : m.ledger.store.resting = [] := by
  rw [fresh.store, Store.resting, Maps.values_eq]
  exact List.map_eq_nil_iff.2 (Std.ExtTreeMap.toList_eq_nil_iff.2 rfl)

theorem Fresh.backed (fresh : m.Fresh) : m.Backed := by
  refine ⟨⟨?_, ?_, fresh.range, fun x d => ?_⟩, ?_⟩
  · rw [fresh.store]
    exact Tables.wellFormed_empty
  · rw [fresh.store]
    exact fun q p found => by simp [Store.pair?] at found
  · rw [fresh.unfrozen, fresh.resting]
    rfl
  · rw [fresh.store]

theorem Backed.step [Build] (backed : m.Backed) (step : Step m m') : m'.Backed := by
  have wf := backed.ledger.tables
  have range := backed.ledger.range
  cases step with
  | beginBlock header =>
      exact ⟨⟨wf, backed.ledger.faithful, range, backed.ledger.frozen⟩, backed.idle⟩
  | deliver msg =>
      obtain ⟨_, -, ⟨-, same⟩ | ⟨-, run⟩⟩ | ⟨done, checked, -, run⟩ := m.deliver_cases msg
      · rw [same]
        exact backed
      · rw [apply_error wf backed.idle range run]
        exact backed
      · obtain ⟨l, acted, same⟩ := apply_ok run
        rw [same]
        exact ⟨(Ledger.execute_backed checked backed.ledger.opened acted).committed, rfl⟩
  | endBlock header =>
      obtain ⟨_, -, run⟩ | ⟨report, batch, -, run⟩ := m.endBlock_cases header
      · rw [closeBlock_error wf backed.idle range run]
        exact ⟨backed.ledger, backed.idle⟩
      · obtain ⟨l, acted, same⟩ := closeBlock_ok run
        rw [same]
        exact ⟨(Ledger.endBlock_backed backed.ledger.opened acted).committed, rfl⟩
  | deposit x coin credited =>
      refine ⟨⟨wf, backed.ledger.faithful, range.deposit credited, fun y d => ?_⟩, backed.idle⟩
      obtain ⟨-, rfl⟩ := Accounts.deposit_ok.1 credited
      have same : ((m.ledger.clearing.accounts.set x coin.denom
          { m.ledger.clearing.accounts.holding x coin.denom with
            available := (m.ledger.clearing.accounts.holding x coin.denom).available
              + coin.amount }).holding y d).frozen =
          (m.ledger.clearing.accounts.holding y d).frozen := by
        simp only [Accounts.holding_set]
        grind
      exact same.trans (backed.ledger.frozen y d)
  | params params same => exact ⟨same ▸ backed.ledger, backed.idle⟩
  | tokens tokens => exact ⟨backed.ledger, backed.idle⟩

theorem Reachable.backed [Build] (reachable : m.Reachable) : m.Backed := by
  induction reachable with
  | start fresh => exact fresh.backed
  | step _ step ih => exact ih.step step

theorem escrow_eq_ordersBy (m : Market) (base : Denom) (x : Address) (d : Denom) :
    Order.escrow m.ledger.store.resting base x d =
      ((m.ordersBy x).map fun o => o.held base d).sum := by
  rw [ordersBy, Tables.ordersBy, Accounts.sum_filter_map, Order.escrow, Store.resting]
  simp only [Order.heldFor, beq_iff_eq]

/-- At every point of every run, what an account has frozen of a denomination is what its resting
orders hold of it. -/
theorem frozen_backs_orders [Build] (reachable : m.Reachable) (x : Address) (d : Denom) :
    (m.ledger.clearing.accounts.holding x d).frozen = ((m.ordersBy x).map fun o =>
      (if o.principalDenom = d then o.frozenPrincipal else 0) +
        if m.params.baseCurrency = d then o.frozenFee else 0).sum := by
  have backed := reachable.backed.ledger.frozen x d
  rw [escrow_eq_ordersBy] at backed
  exact backed

section Listed

/-- A market in which `a` has issued `btc` and has funds. -/
def funded : Market :=
  let issued := (∅ : Std.ExtTreeMap String Token).insert "btc" { issuer := ⟨"a"⟩ }
  let funds := (({} : Accounts).set ⟨"a"⟩ "btc" ⟨9, 0⟩).set ⟨"a"⟩ "cet" ⟨1000003000000, 0⟩
  { ledger := { clearing := { accounts := funds } }
    tokens := ⟨issued.insert "cet" { issuer := ⟨"c"⟩ }⟩
    params := .default }

/-- `a` lists `btc` and offers 7 of it. -/
def offered [Build] : Market :=
  let listed := (funded.deliver (.createPair ⟨"btc", "cet", ⟨"a"⟩, 8⟩)).2
  let sell : PlaceOrder := ⟨⟨"a"⟩, 1, "btc/cet", .limit, 0, 6, 7, .sell, .goodTillExpire⟩
  (listed.deliver (.placeOrder sell)).2

theorem funded_fresh : funded.Fresh := by
  refine ⟨rfl, rfl, rfl, ?_, fun x d => ?_⟩
  · exact (Accounts.inRange_empty.set (by decide) (by decide)).set (by decide) (by decide)
  · simp only [funded, Accounts.holding_set]
    split
    · rfl
    · split <;> rfl

attribute [local instance] Build.checked

theorem offered_frozen : (offered.ordersBy ⟨"a"⟩).length = 1 ∧
    (offered.ledger.clearing.accounts.holding ⟨"a"⟩ "btc").frozen = 7 := by
  have reached : offered.Reachable :=
    .step (.step (.start funded_fresh) (.deliver _ _)) (.deliver _ _)
  refine ⟨by decide +kernel, (frozen_backs_orders reached ⟨"a"⟩ "btc").trans ?_⟩
  decide +kernel

end Listed

end Market

end Bourse
