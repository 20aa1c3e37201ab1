import Bourse.Proofs.Backing

/-!
# Runs of a market and what they record

A run starts from any accounts and makes any calls: messages are delivered, blocks begin and end at
any heights, and between them funds, parameters, tokens and market records may be replaced.

* `Event`: the order that a call admitted and the batch that it settled;
* `Call`: one call of a run, with its event;
* `History`, `Run`: what was admitted, traded and ended along a run;
* `Intact`: what holds of the market in every state of every run (`Run.intact`).
-/

namespace Bourse

namespace Market

/-- What a call did: the order that it admitted and what it settled. -/
structure Event where
  admitted : Option Order := none
  batch : Batch := {}

/-- The order that the gate makes of a message, if it lets it pass. -/
def gate (m : Market) : Message → Option Order
  | .placeOrder o => (do
      let pair ← m.ledger.store.lookup o.symbol
      let reference := m.ledger.store.referencePrice pair.stock m.params.baseCurrency
      o.pass m.params pair reference m.tokens m.ledger.clearing.accounts
        m.header.height : Except Fault Admission).toOption.map fun a => a.order
  | _ => none

/-- The event of a delivery; one that is refused does nothing. -/
def eventOf [Build] (m : Market) (msg : Message) : Event :=
  match msg.check, (m.apply msg).1 with
  | .ok (), .ok done => ⟨m.gate msg, done.batch⟩
  | _, _ => {}

/-- The event of a block end. -/
def eventAt [Build] (m : Market) (header : Header) : Event :=
  match (m.closeBlock header).1 with
  | .ok (_, batch) => ⟨none, batch⟩
  | .error _ => {}

/-- One call of a run. -/
inductive Call [Build] (m : Market) : Event → Market → Prop
  | beginBlock (header : Header) : Call m {} (m.beginBlock header)
  | deliver (msg : Message) : Call m (m.eventOf msg) (m.deliver msg).2
  | endBlock (header : Header) : Call m (m.eventAt header) (m.endBlock header).2
  | setPair (pair : Pair) : Call m {} (m.setPair pair)
  | accounts {accounts : Accounts} : accounts.InRange →
      Call m {} { m with ledger := m.ledger.withAccounts accounts }
  | params (params : Params) : Call m {} { m with params }
  | tokens (tokens : Tokens) : Call m {} { m with tokens }

/-- Whether an order of this id rests. -/
def rests (m : Market) (id : OrderId) : Prop := (m.order? id).isSome

instance (m : Market) (id : OrderId) : Decidable (m.rests id) :=
  inferInstanceAs (Decidable ((m.order? id).isSome = true))

/-- What happened along a run. -/
structure History where
  /-- Every order that was admitted, as the gate made it. -/
  admitted : List Order := []
  trades : List Trade := []
  /-- The admitted orders that ended, each for every call in which it did. -/
  ended : List Order := []

/-- The orders that ended in a call: they rested before or were admitted in it, and do not rest
after it. -/
def History.endedBy (h : History) (m : Market) (e : Event) (m' : Market) : List Order :=
  (h.admitted.filter (fun o => m.rests o.id) ++ e.admitted.toList).filter
    fun o => ¬m'.rests o.id

def History.next (h : History) (m : Market) (e : Event) (m' : Market) : History where
  admitted := h.admitted ++ e.admitted.toList
  trades := h.trades ++ e.batch.trades
  ended := h.ended ++ h.endedBy m e m'

/-- A run from a market without markets and orders, and its history. -/
inductive Run [Build] : History → Market → Prop
  | start {accounts : Accounts} (tokens : Tokens) (params : Params) : accounts.InRange →
      Run {} { ledger := { clearing := { accounts } }, tokens, params }
  | call {h : History} {m m' : Market} {e : Event} : Run h m → Call m e m' → Run (h.next m e m') m'

/-- The tables are well-formed, no journal is open, and amounts and counters are words. -/
structure Intact (m : Market) : Prop where
  tables : m.ledger.store.tables.WellFormed
  idle : m.ledger.store.journal = none
  range : m.ledger.clearing.accounts.InRange
  counted : m.ledger.clearing.settledTrades < Word.size

variable {m m' : Market} {e : Event} {h : History} {msg : Message} {header : Header}

theorem order?_eq (m : Market) (id : OrderId) : m.order? id = m.ledger.store.tables.orders[id]? :=
  rfl

section Events

variable [Build] {done : Executed} {fault : Fault} {report : Report} {batch : Batch}

theorem eventOf_ok (checked : msg.check = .ok ()) (run : m.apply msg = (.ok done, m')) :
    m.eventOf msg = ⟨m.gate msg, done.batch⟩ := by
  rw [eventOf, checked, run]

theorem eventOf_refused (refused : (m.deliver msg).1.success = false) : m.eventOf msg = {} := by
  obtain ⟨_, -, ⟨failed, -⟩ | ⟨checked, run⟩⟩ | ⟨done, -, accepted, -⟩ := m.deliver_cases msg
  · rw [eventOf, failed]
  · rw [eventOf, checked, run]
  · rw [accepted] at refused
    cases refused

theorem eventAt_ok (run : m.closeBlock header = (.ok (report, batch), m')) :
    m.eventAt header = ⟨none, batch⟩ := by
  rw [eventAt, run]

theorem eventAt_error (run : m.closeBlock header = (.error fault, m')) :
    m.eventAt header = {} := by
  rw [eventAt, run]

end Events

end Market

namespace Clearing

variable {c c' : Clearing} {b : Batch}

theorem settled_counted (run : c.settled b = .ok c') : c'.settledTrades < Word.size := by
  obtain ⟨_, _, -, -, rfl⟩ := settled_ok.1 run
  exact Nat.mod_lt _ (by decide : 0 < Word.size)

/-- Effects without trades only move funds. -/
theorem settled_effects (effects : List Effect) (counted : c.settledTrades < Word.size) :
    c.settled { effects } =
      (c.accounts.rehearsal effects).map fun accounts => { c with accounts } := by
  have noted : ∀ accounts, { c with accounts }.note c.watermark [] = { c with accounts } := by
    intro accounts
    have advanced : Replay.advance c.watermark c.watermark = c.watermark := by
      cases mark : c.watermark with
      | none => rfl
      | some last => simp [Replay.advance]
    have wrapped : Word.wrapAdd c.settledTrades 0 = c.settledTrades := Word.wrapAdd_of_lt counted
    rw [note, advanced]
    exact congrArg (fun n => ({ c with accounts, settledTrades := n } : Clearing)) wrapped
  rw [settled, Replay.check]
  cases rehearsed : c.accounts.rehearsal effects with
  | error fault => rfl
  | ok accounts => exact congrArg Except.ok (noted accounts)

end Clearing

namespace Ledger

variable {l l' : Ledger} {tokens : Tokens} {params : Params} {header : Header} {done : Executed}
  {out : Report × Batch} {msg : Message}

/-- A message leaves amounts and counters words. -/
theorem execute_counted [Build] (range : l.clearing.accounts.InRange)
    (counted : l.clearing.settledTrades < Word.size)
    (run : execute tokens params header msg l = .ok done l') :
    l'.clearing.accounts.InRange ∧ l'.clearing.settledTrades < Word.size := by
  cases msg with
  | createPair m =>
      obtain ⟨id, created, -⟩ := execute_create_ok run
      obtain ⟨s, funds, -, -, charged, rfl⟩ := create_ok created
      exact ⟨range.send charged, counted⟩
  | delistPair m =>
      obtain ⟨r, s, -, -, rfl⟩ := execute_delist_ok run
      exact ⟨range, counted⟩
  | raisePrecision m =>
      obtain ⟨out, s, -, -, rfl⟩ := execute_raise_ok run
      exact ⟨range, counted⟩
  | placeOrder m =>
      obtain ⟨pair, a, -, -, ⟨-, run⟩ | ⟨-, run⟩⟩ := placeOrder_ok run
      · obtain ⟨s, funds, -, frozen, -, rfl⟩ := rest_ok run
        exact ⟨(Accounts.freezeAll_ok range frozen).2, counted⟩
      · obtain ⟨_, _, _, _, funds, clearing, -, -, -, -, frozen, settled, -, rfl⟩ := takeOnce_ok run
        have range := (Accounts.freezeAll_ok range frozen).2
        exact ⟨Clearing.settled_inRange range settled, Clearing.settled_counted settled⟩
  | cancelOrder m =>
      obtain ⟨out, s, clearing, -, settled, -, rfl⟩ := cancelOrder_ok run
      exact ⟨Clearing.settled_inRange range settled, Clearing.settled_counted settled⟩

/-- And so does a block end. -/
theorem endBlock_counted [Build] (range : l.clearing.accounts.InRange)
    (run : endBlock params header l = .ok out l') :
    l'.clearing.accounts.InRange ∧ l'.clearing.settledTrades < Word.size := by
  obtain ⟨report, batch⟩ := out
  obtain ⟨_, _, _, _, _, _, clearing, -, -, -, settled, -, -, rfl⟩ := endBlock_ok.1 run
  exact ⟨Clearing.settled_inRange range settled, Clearing.settled_counted settled⟩

end Ledger

namespace Market

variable {m m' : Market} {e : Event} {h : History} {msg : Message} {header : Header}
  {done : Executed} {report : Report} {batch : Batch} {fault : Fault}

/-- An action starts from tables that are well-formed too. -/
theorem Intact.opened (intact : m.Intact) :
    (m.ledger.withStore m.ledger.store.openJournal).store.tables.WellFormed :=
  intact.tables

/-- A message that is refused changes nothing. -/
theorem Intact.apply_error [Build] (intact : m.Intact) (run : m.apply msg = (.error fault, m')) :
    m' = m :=
  Market.apply_error intact.tables intact.idle intact.range run

/-- So a refusal leaves the market as it was. -/
theorem Intact.refused [Build] (intact : m.Intact) (refused : (m.deliver msg).1.success = false) :
    (m.deliver msg).2 = m := by
  obtain ⟨_, -, ⟨-, same⟩ | ⟨-, run⟩⟩ | ⟨done, -, accepted, -⟩ := m.deliver_cases msg
  · exact same
  · exact intact.apply_error run
  · rw [accepted] at refused
    cases refused

/-- A delivery refuses a message and does nothing, or applies it. -/
theorem Intact.deliver_cases [Build] (intact : m.Intact) (msg : Message) :
    (m.deliver msg).1.success = false ∧ (m.deliver msg).2 = m ∧ m.eventOf msg = {} ∨
      ∃ done, msg.check = .ok () ∧ (m.deliver msg).1.success = true ∧
        m.apply msg = (.ok done, (m.deliver msg).2) := by
  cases outcome : (m.deliver msg).1.success with
  | false => exact .inl ⟨rfl, intact.refused outcome, eventOf_refused outcome⟩
  | true =>
      obtain ⟨done, checked, run⟩ := apply_of_accepted outcome
      exact .inr ⟨done, checked, rfl, run⟩

theorem Intact.closeBlock_error [Build] (intact : m.Intact)
    (run : m.closeBlock header = (.error fault, m')) : m' = { m with header } :=
  Market.closeBlock_error intact.tables intact.idle intact.range run

theorem Intact.apply_ok [Build] (intact : m.Intact) (run : m.apply msg = (.ok done, m')) :
    m'.Intact := by
  obtain ⟨l, acted, rfl⟩ := Market.apply_ok run
  have opened : (m.ledger.withStore m.ledger.store.openJournal).clearing = m.ledger.clearing := rfl
  have counted := Ledger.execute_counted (opened ▸ intact.range) (opened ▸ intact.counted) acted
  exact ⟨((Ledger.execute_atomic msg).store.ok acted intact.tables).1, rfl, counted.1, counted.2⟩

theorem Intact.closeBlock_ok [Build] (intact : m.Intact)
    (run : m.closeBlock header = (.ok (report, batch), m')) : m'.Intact := by
  obtain ⟨l, acted, rfl⟩ := Market.closeBlock_ok run
  have opened : (m.ledger.withStore m.ledger.store.openJournal).clearing = m.ledger.clearing := rfl
  have counted := Ledger.endBlock_counted (opened ▸ intact.range) acted
  exact ⟨(Ledger.endBlock_atomic.store.ok acted intact.tables).1, rfl, counted.1, counted.2⟩

theorem Intact.call [Build] (intact : m.Intact) (call : Call m e m') : m'.Intact := by
  cases call with
  | beginBlock header => exact ⟨intact.tables, intact.idle, intact.range, intact.counted⟩
  | deliver msg =>
      obtain ⟨-, same, -⟩ | ⟨done, -, -, run⟩ := intact.deliver_cases msg
      · rw [same]
        exact intact
      · exact intact.apply_ok run
  | endBlock header =>
      obtain ⟨_, -, run⟩ | ⟨report, batch, -, run⟩ := m.endBlock_cases header
      · rw [intact.closeBlock_error run]
        exact ⟨intact.tables, intact.idle, intact.range, intact.counted⟩
      · exact intact.closeBlock_ok run
  | setPair pair =>
      refine ⟨intact.tables.insertPair pair, ?_, intact.range, intact.counted⟩
      simp [setPair, Store.setPair, Store.write, intact.idle]
  | accounts range => exact ⟨intact.tables, intact.idle, range, intact.counted⟩
  | params params => exact ⟨intact.tables, intact.idle, intact.range, intact.counted⟩
  | tokens tokens => exact ⟨intact.tables, intact.idle, intact.range, intact.counted⟩

theorem Run.intact [Build] (run : Run h m) : m.Intact := by
  induction run with
  | start tokens params range =>
      exact ⟨Tables.wellFormed_empty, rfl, range, (by decide : 0 < Word.size)⟩
  | call _ call ih => exact ih.call call

section Quoted

/-- Two traders; `a` has issued `btc` and can pay to list it. -/
def traders : Market :=
  let issued := (∅ : Std.ExtTreeMap String Token).insert "btc" { issuer := ⟨"a"⟩ }
  let stocked := (({} : Accounts).set ⟨"a"⟩ "btc" ⟨9, 0⟩).set ⟨"a"⟩ "cet" ⟨1000003000000, 0⟩
  { ledger := { clearing := { accounts := stocked.set ⟨"b"⟩ "cet" ⟨3000000, 0⟩ } }
    tokens := ⟨issued.insert "cet" { issuer := ⟨"c"⟩ }⟩
    params := .default }

def listing : Message := .createPair ⟨"btc", "cet", ⟨"a"⟩, 8⟩

/-- `a` offers 7 of it. -/
def offer7 : Message :=
  .placeOrder ⟨⟨"a"⟩, 1, "btc/cet", .limit, 0, 6, 7, .sell, .goodTillExpire⟩

/-- `b` bids for 4 at the same price. -/
def bid4 : Message := .placeOrder ⟨⟨"b"⟩, 1, "btc/cet", .limit, 0, 6, 4, .buy, .goodTillExpire⟩

def listed [Build] : Market := (traders.deliver listing).2

def asked [Build] : Market := (listed.deliver offer7).2

/-- The two orders rest, and they cross. -/
def quoted [Build] : Market := (asked.deliver bid4).2

/-- What led there. -/
def quotedHistory [Build] : History :=
  ((({} : History).next traders (traders.eventOf listing) listed).next
    listed (listed.eventOf offer7) asked).next asked (asked.eventOf bid4) quoted

theorem traders_range : traders.ledger.clearing.accounts.InRange :=
  ((Accounts.inRange_empty.set (by decide) (by decide)).set (by decide) (by decide)).set
    (by decide) (by decide)

theorem quoted_run [Build] : Run quotedHistory quoted := by
  have start : Run {} traders := .start traders.tokens .default traders_range
  exact ((start.call (.deliver listing)).call (.deliver offer7)).call (.deliver bid4)

end Quoted

end Market

end Bourse
