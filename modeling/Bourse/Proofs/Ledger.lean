import Bourse.Market.Basic
import Bourse.Proofs.Matching
import Bourse.Proofs.Settlement

/-!
# How the actions on a ledger end

The parts of a ledger on which an action works (`onStore_ok`, `onAccounts_ok`, `settle_ok`), and
what the success of each message and of a block end is made of.
-/

namespace Bourse

theorem Clearing.settled_ok {b : Batch} {c c' : Clearing} : c.settled b = .ok c' ↔
    ∃ watermark accounts, Replay.check c.watermark b.trades = .ok watermark ∧
      c.accounts.rehearsal b.effects = .ok accounts ∧
      c' = { c with accounts }.note watermark b.trades := by
  rw [Clearing.settled, Check.bind_ok]
  apply exists_congr
  intro watermark
  simp only [Check.bind_ok, Check.pure_ok, eq_comm (a := c')]
  constructor
  · rintro ⟨guard, accounts, rehearsed, rfl⟩
    exact ⟨accounts, guard, rehearsed, rfl⟩
  · rintro ⟨accounts, guard, rehearsed, rfl⟩
    exact ⟨guard, accounts, rehearsed, rfl⟩

namespace Ledger

variable {α : Type} {l l' : Ledger} {x : Action Ledger α} {r : α} {fault : Fault}

section Parts

/-- The ledger with another store. -/
def withStore (l : Ledger) (store : Store) : Ledger := { l with store }

/-- The ledger with other accounts. -/
def withAccounts (l : Ledger) (accounts : Accounts) : Ledger :=
  { l with clearing := { l.clearing with accounts } }

@[simp] theorem withStore_store (s : Store) : (l.withStore s).store = s := rfl

@[simp] theorem withStore_clearing (s : Store) : (l.withStore s).clearing = l.clearing := rfl

@[simp] theorem withStore_nextFill (s : Store) : (l.withStore s).nextFill = l.nextFill := rfl

@[simp] theorem withAccounts_accounts (a : Accounts) : (l.withAccounts a).clearing.accounts = a :=
  rfl

@[simp] theorem withAccounts_store (a : Accounts) : (l.withAccounts a).store = l.store := rfl

theorem onStore_ok {y : Action Store α} :
    onStore y l = .ok r l' ↔ ∃ s, y l.store = .ok r s ∧ l' = l.withStore s := by
  rw [onStore, Action.within_ok]
  exact exists_congr fun s => and_congr_right fun _ => eq_comm

theorem onStore_error {y : Action Store α} :
    onStore y l = .error fault l' ↔ ∃ s, y l.store = .error fault s ∧ l' = l.withStore s := by
  rw [onStore, Action.within_error]
  exact exists_congr fun s => and_congr_right fun _ => eq_comm

theorem onStore_change_ok {f : Store → Except Fault Store} {u : Unit} :
    onStore (.change f) l = .ok u l' ↔ ∃ s, f l.store = .ok s ∧ l' = l.withStore s := by
  simp only [onStore_ok, Action.change_ok]

theorem onStore_take_ok {f : Store → Except Fault (α × Store)} :
    onStore (.take f) l = .ok r l' ↔ ∃ s, f l.store = .ok (r, s) ∧ l' = l.withStore s := by
  simp only [onStore_ok, Action.take_ok]

theorem onStore_ask_ok {f : Store → Except Fault α} :
    onStore (.ask f) l = .ok r l' ↔ f l.store = .ok r ∧ l = l' := by
  simp only [onStore_ok, Action.ask_ok]
  constructor
  · rintro ⟨s, ⟨answer, rfl⟩, rfl⟩
    exact ⟨answer, rfl⟩
  · rintro ⟨answer, rfl⟩
    exact ⟨_, ⟨answer, rfl⟩, rfl⟩

theorem onAccounts_ok {y : Action Accounts α} :
    onAccounts y l = .ok r l' ↔
      ∃ a, y l.clearing.accounts = .ok r a ∧ l' = l.withAccounts a := by
  rw [onAccounts, onClearing, Action.within_ok, Clearing.onAccounts]
  constructor
  · rintro ⟨c, inner, rfl⟩
    obtain ⟨a, acted, rfl⟩ := Action.within_ok.1 inner
    exact ⟨a, acted, rfl⟩
  · rintro ⟨a, acted, rfl⟩
    exact ⟨_, Action.within_ok.2 ⟨a, acted, rfl⟩, rfl⟩

theorem onAccounts_error {y : Action Accounts α} :
    onAccounts y l = .error fault l' ↔
      ∃ a, y l.clearing.accounts = .error fault a ∧ l' = l.withAccounts a := by
  rw [onAccounts, onClearing, Action.within_error, Clearing.onAccounts]
  constructor
  · rintro ⟨c, inner, rfl⟩
    obtain ⟨a, acted, rfl⟩ := Action.within_error.1 inner
    exact ⟨a, acted, rfl⟩
  · rintro ⟨a, acted, rfl⟩
    exact ⟨_, Action.within_error.2 ⟨a, acted, rfl⟩, rfl⟩

theorem settle_ok {b : Batch} {u : Unit} : settle b l = .ok u l' ↔
    ∃ c, l.clearing.settled b = .ok c ∧ l' = { l with clearing := c } := by
  rw [settle, Clearing.settle_eq_change, onClearing, Action.within_ok]
  apply exists_congr
  intro c
  rw [Action.change_ok, eq_comm (a := l')]

/-- A settlement that is refused leaves the ledger as it was. -/
theorem settle_error {b : Batch} : settle b l = .error fault l' ↔
    l.clearing.settled b = .error fault ∧ l' = l := by
  rw [settle, Clearing.settle_eq_change, onClearing, Action.within_error]
  simp only [Action.change_error]
  constructor
  · rintro ⟨c, ⟨refused, rfl⟩, rfl⟩
    exact ⟨refused, rfl⟩
  · rintro ⟨refused, rfl⟩
    exact ⟨_, ⟨refused, rfl⟩, rfl⟩

theorem atomically_ok : atomically x l = (.ok r, l') ↔
    ∃ t, x (l.withStore l.store.openJournal) = .ok r t ∧ l' = t.withStore t.store.commit := by
  rw [withStore]
  unfold atomically
  cases x { l with store := l.store.openJournal } with
  | ok r t => simp [withStore, and_assoc, eq_comm]
  | error e t => simp

theorem atomically_error : atomically x l = (.error fault, l') ↔
    ∃ t, x (l.withStore l.store.openJournal) = .error fault t ∧
      l' = t.withStore t.store.rollback := by
  rw [withStore]
  unfold atomically
  cases x { l with store := l.store.openJournal } with
  | ok r t => simp
  | error e t => simp [withStore, and_assoc, eq_comm]

end Parts

section Messages

variable {tokens : Tokens} {params : Params} {header : Header} {height : Nat} {done : Executed}

theorem rest_ok {a : Admission} (run : rest a l = .ok done l') :
    ∃ s funds, l.store.putOrder a.order = .ok s ∧
      Accounts.freezeAll a.order.sender a.holds l.clearing.accounts = .ok () funds ∧
      done.batch = {} ∧ l' = (l.withStore s).withAccounts funds := by
  obtain ⟨_, t, step, run⟩ := Action.bind_ok.1 run
  obtain ⟨s, stored, rfl⟩ := onStore_change_ok.1 step
  obtain ⟨_, t, step, run⟩ := Action.bind_ok.1 run
  obtain ⟨funds, frozen, rfl⟩ := onAccounts_ok.1 step
  obtain ⟨rfl, rfl⟩ := Action.pure_ok.1 run
  exact ⟨s, funds, stored, frozen, rfl, rfl⟩

/-- The venue of the fills at a height. -/
def venue (params : Params) (height : Nat) : Venue :=
  ⟨height, params.feeCollector, params.baseCurrency⟩

/-- An immediate order claims its id, is matched, has its funds frozen, and is settled. -/
theorem takeOnce_ok [Build] {a : Admission} (run : takeOnce a params height l = .ok done l') :
    ∃ s₁ book c s₂ funds clearing,
      l.store.claimId a.order.id = .ok s₁ ∧ s₁.loadBook a.order.pair = .ok book ∧
      (matchIncoming (venue params height) l.nextFill book a.order).1.outcome = .ok c ∧
      Store.writeBack a.order.pair c s₁ = .ok () s₂ ∧
      Accounts.freezeAll a.order.sender a.holds l.clearing.accounts = .ok () funds ∧
      { l.clearing with accounts := funds }.settled done.batch = .ok clearing ∧
      done.batch = (finishTaker c (matchIncoming (venue params height) l.nextFill book a.order).2
        params.baseCurrency).1 ∧
      l' = ⟨s₂, clearing,
        (matchIncoming (venue params height) l.nextFill book a.order).1.nextFill⟩ := by
  obtain ⟨_, t, step, run⟩ := Action.bind_ok.1 run
  obtain ⟨s₁, claimed, rfl⟩ := onStore_change_ok.1 step
  obtain ⟨book, t, step, run⟩ := Action.bind_ok.1 run
  obtain ⟨loaded, rfl⟩ := onStore_ask_ok.1 step
  obtain ⟨_, _, step, run⟩ := Action.bind_ok.1 run
  obtain ⟨rfl, rfl⟩ := Action.get_ok.1 step
  dsimp only [withStore_nextFill] at run
  rw [show (⟨height, params.feeCollector, params.baseCurrency⟩ : Venue) = venue params height
    from rfl] at run
  refine ⟨s₁, book, ?_⟩
  generalize matchIncoming (venue params height) l.nextFill book a.order = out at run ⊢
  obtain ⟨matched, taker⟩ := out
  obtain ⟨c, _, step, run⟩ := Action.bind_ok.1 run
  obtain ⟨ended, rfl⟩ := Action.ask_ok.1 step
  obtain ⟨_, _, step, run⟩ := Action.bind_ok.1 run
  obtain ⟨s₂, written, rfl⟩ := onStore_ok.1 step
  refine ⟨c, s₂, ?_⟩
  generalize finishTaker c taker params.baseCurrency = out at run ⊢
  obtain ⟨batch, taker'⟩ := out
  obtain ⟨_, _, step, run⟩ := Action.bind_ok.1 run
  obtain ⟨funds, frozen, rfl⟩ := onAccounts_ok.1 step
  obtain ⟨_, _, step, run⟩ := Action.bind_ok.1 run
  obtain ⟨clearing, settled, rfl⟩ := settle_ok.1 (Action.orUndo_ok.1 step)
  obtain ⟨_, _, step, run⟩ := Action.bind_ok.1 run
  obtain ⟨rfl, rfl⟩ := Action.pure_ok.1 run
  rw [← Action.modify_ok.1 step]
  exact ⟨funds, clearing, claimed, loaded, ended, written, frozen, settled, rfl, rfl⟩

theorem placeOrder_ok [Build] {m : PlaceOrder}
    (run : placeOrder m tokens params height l = .ok done l') :
    ∃ pair a, l.store.lookup m.symbol = .ok pair ∧
      m.pass params pair (l.store.referencePrice pair.stock params.baseCurrency) tokens
        l.clearing.accounts height = .ok a ∧
      (m.timeInForce = .goodTillExpire ∧ rest a l = .ok done l' ∨
        m.timeInForce = .immediateOrCancel ∧ takeOnce a params height l = .ok done l') := by
  obtain ⟨_, _, step, run⟩ := Action.bind_ok.1 run
  obtain ⟨rfl, rfl⟩ := Action.get_ok.1 step
  obtain ⟨pair, _, step, run⟩ := Action.bind_ok.1 run
  obtain ⟨found, rfl⟩ := Action.ask_ok.1 step
  obtain ⟨a, _, step, run⟩ := Action.bind_ok.1 run
  obtain ⟨passed, rfl⟩ := Action.ask_ok.1 step
  refine ⟨pair, a, found, passed, ?_⟩
  cases tif : m.timeInForce with
  | goodTillExpire =>
      simp only [tif] at run
      exact .inl ⟨rfl, run⟩
  | immediateOrCancel =>
      simp only [tif] at run
      exact .inr ⟨rfl, run⟩

theorem cancelOrder_ok {m : CancelOrder} (run : cancelOrder m params l = .ok done l') :
    ∃ out s clearing, l.store.cancel m.order .manual params.baseCurrency = .ok (out, s) ∧
      l.clearing.settled done.batch = .ok clearing ∧ done.batch = { effects := out.2 } ∧
      l' = ⟨s, clearing, l.nextFill⟩ := by
  obtain ⟨_, _, step, run⟩ := Action.bind_ok.1 run
  obtain ⟨rfl, rfl⟩ := Action.get_ok.1 step
  obtain ⟨-, run⟩ := Action.guard_ok.1 run
  obtain ⟨out, _, step, run⟩ := Action.bind_ok.1 run
  obtain ⟨s, cancelled, rfl⟩ := onStore_take_ok.1 step
  obtain ⟨_, _, step, run⟩ := Action.bind_ok.1 run
  obtain ⟨clearing, settled, rfl⟩ := settle_ok.1 step
  obtain ⟨rfl, rfl⟩ := Action.pure_ok.1 run
  exact ⟨out, s, clearing, cancelled, settled, rfl, rfl⟩

theorem create_ok {m : CreatePair} {id : PairId}
    (run : Listing.create m tokens params height l = .ok id l') :
    ∃ s funds, Listing.check m tokens params l = .ok () ∧
      l.store.insertPair (Listing.newPair m params height) = .ok s ∧
      l.clearing.accounts.send m.creator params.feeCollector
        ⟨params.baseCurrency, params.createMarketFee⟩ = .ok funds ∧
      l' = (l.withStore s).withAccounts funds := by
  obtain ⟨_, _, step, run⟩ := Action.bind_ok.1 run
  obtain ⟨checked, rfl⟩ := Action.ask_ok.1 step
  obtain ⟨_, _, step, run⟩ := Action.bind_ok.1 run
  obtain ⟨s, listed, rfl⟩ := onStore_change_ok.1 step
  obtain ⟨_, _, step, run⟩ := Action.bind_ok.1 run
  obtain ⟨funds, charged, rfl⟩ := onAccounts_ok.1 (Action.orUndo_ok.1 step)
  obtain ⟨rfl, rfl⟩ := Action.pure_ok.1 run
  exact ⟨s, funds, checked, listed, Action.change_ok.1 charged, rfl⟩

/-- What an accepted message did that is about a market: it settled nothing. -/
theorem execute_create_ok [Build] {m : CreatePair}
    (run : execute tokens params header (.createPair m) l = .ok done l') :
    ∃ id, Listing.create m tokens params header.height l = .ok id l' ∧ done.batch = {} := by
  obtain ⟨id, _, created, run⟩ := Action.bind_ok.1 run
  obtain ⟨rfl, rfl⟩ := Action.pure_ok.1 run
  exact ⟨id, created, rfl⟩

theorem execute_delist_ok [Build] {m : DelistPair}
    (run : execute tokens params header (.delistPair m) l = .ok done l') :
    ∃ r s, Store.scheduleDelist m params header.time l.store = .ok (r, s) ∧ done.batch = {} ∧
      l' = l.withStore s := by
  obtain ⟨r, _, step, run⟩ := Action.bind_ok.1 run
  obtain ⟨rfl, rfl⟩ := Action.pure_ok.1 run
  obtain ⟨s, scheduled, rfl⟩ := onStore_take_ok.1 step
  exact ⟨r, s, scheduled, rfl, rfl⟩

theorem execute_raise_ok [Build] {m : RaisePrecision}
    (run : execute tokens params header (.raisePrecision m) l = .ok done l') :
    ∃ out s, Listing.raisePrecision m params l.store = .ok (out, s) ∧ done.batch = {} ∧
      l' = l.withStore s := by
  obtain ⟨out, _, step, run⟩ := Action.bind_ok.1 run
  obtain ⟨rfl, rfl⟩ := Action.pure_ok.1 run
  obtain ⟨s, raised, rfl⟩ := onStore_take_ok.1 step
  exact ⟨out, s, raised, rfl, rfl⟩

theorem endBlock_ok [Build] {report : Report} {batch : Batch} :
    endBlock params header l = .ok (report, batch) l' ↔
      ∃ due matched nextFill s₁ sweep s₂ clearing,
        l.store.duePairs header.height l.store.tables.activePairs = .ok due ∧
        Store.matchPairs (venue params header.height) l.nextFill due l.store =
          .ok (matched, nextFill) s₁ ∧
        Store.sweepDue header.time params.baseCurrency s₁ = .ok sweep s₂ ∧
        l.clearing.settled batch = .ok clearing ∧
        batch = matched ++ { effects := sweep.effects } ∧
        report = Report.of header.height batch.trades sweep ∧ l' = ⟨s₂, clearing, nextFill⟩ := by
  constructor
  · intro run
    obtain ⟨due, _, step, run⟩ := Action.bind_ok.1 run
    obtain ⟨listed, rfl⟩ := onStore_ask_ok.1 step
    obtain ⟨_, _, step, run⟩ := Action.bind_ok.1 run
    obtain ⟨rfl, rfl⟩ := Action.get_ok.1 step
    obtain ⟨⟨matched, nextFill⟩, _, step, run⟩ := Action.bind_ok.1 run
    obtain ⟨s₁, passed, rfl⟩ := onStore_ok.1 step
    obtain ⟨sweep, _, step, run⟩ := Action.bind_ok.1 run
    obtain ⟨s₂, swept, rfl⟩ := onStore_ok.1 step
    obtain ⟨_, _, step, run⟩ := Action.bind_ok.1 run
    obtain ⟨clearing, settled, rfl⟩ := settle_ok.1 step
    obtain ⟨_, _, step, run⟩ := Action.bind_ok.1 run
    obtain ⟨out, rfl⟩ := Action.pure_ok.1 run
    obtain ⟨rfl, rfl⟩ := Prod.mk.inj out
    rw [← Action.modify_ok.1 step]
    exact ⟨due, matched, nextFill, s₁, sweep, s₂, clearing, listed, passed, swept, settled,
      rfl, rfl, rfl⟩
  · rintro ⟨due, matched, nextFill, s₁, sweep, s₂, clearing, listed, passed, swept, settled,
      rfl, rfl, rfl⟩
    refine Action.bind_ok.2 ⟨due, l, onStore_ask_ok.2 ⟨listed, rfl⟩, ?_⟩
    refine Action.bind_ok.2 ⟨l, l, Action.get_ok.2 ⟨rfl, rfl⟩, ?_⟩
    refine Action.bind_ok.2
      ⟨(matched, nextFill), l.withStore s₁, onStore_ok.2 ⟨s₁, passed, rfl⟩, ?_⟩
    refine Action.bind_ok.2 ⟨sweep, l.withStore s₂, onStore_ok.2 ⟨s₂, swept, rfl⟩, ?_⟩
    refine Action.bind_ok.2
      ⟨(), ⟨s₂, clearing, l.nextFill⟩, settle_ok.2 ⟨clearing, settled, rfl⟩, ?_⟩
    exact Action.bind_ok.2 ⟨(), ⟨s₂, clearing, nextFill⟩, Action.modify_ok.2 rfl,
      Action.pure_ok.2 ⟨rfl, rfl⟩⟩

end Messages

end Ledger

end Bourse
