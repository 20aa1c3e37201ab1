import Bourse.Proofs.Escrow
import Bourse.Proofs.Ledger
import Bourse.Proofs.Upkeep

/-!
# A failure changes nothing

Three mechanisms undo a failure: the journal of the store, the unwinding of an escrow, and the
rehearsal before a settlement.

* `Wrote`: what an action that works on the store alone does to a ledger;
* `Atomic`: every write to the store is journalled, and a failure leaves the funds as they were;
  `execute_atomic` and `endBlock_atomic`: messages and block ends are such;
* `failure_changes_nothing`: hence a message that is refused and a block end that fails leave the
  market as it was.
-/

namespace Bourse

open Bourse.Action (Keeps)

namespace Store

theorem scheduleDelist_extends {m : DelistPair} {params : Params} {now : Int} {s s' : Store}
    {r : DelistRequest} (run : scheduleDelist m params now s = .ok (r, s')) : Extends s s' := by
  simp only [scheduleDelist, Check.guard_ok, Check.bind_ok, Check.pure_ok, Prod.mk.injEq] at run
  obtain ⟨-, _, -, _, -, -, same⟩ := run
  exact same ▸ putDelist_extends s _

theorem raisePrecision_extends {m : RaisePrecision} {params : Params} {s s' : Store}
    {out : Nat × Nat} (run : Listing.raisePrecision m params s = .ok (out, s')) :
    Extends s s' := by
  simp only [Listing.raisePrecision, Check.bind_ok, Check.pure_ok, Prod.mk.injEq] at run
  obtain ⟨_, -, _, -, _, -, t, updated, -, rfl⟩ := run
  exact updatePair_extends updated

end Store

namespace Ledger

variable {α β : Type} {l l' : Ledger} {x : Action Ledger α} {fault : Fault}

/-- `l'` is `l` after writes to the store alone. -/
structure Wrote (l l' : Ledger) : Prop where
  store : l.store.Extends l'.store
  clearing : l'.clearing = l.clearing
  nextFill : l'.nextFill = l.nextFill

def Journalled (l l' : Ledger) : Prop := l.store.Extends l'.store

instance : Std.Refl Wrote := ⟨fun l => ⟨Std.Refl.refl l.store, rfl, rfl⟩⟩

instance : Std.Refl Journalled := ⟨fun l => Std.Refl.refl l.store⟩

instance : Trans Journalled Journalled Journalled := ⟨Store.Extends.trans⟩

theorem wrote_onStore {y : Action Store α} (keeps : Keeps Store.Extends y) :
    Keeps Wrote (onStore y) :=
  Action.keeps_within keeps fun _ _ writes => ⟨writes, rfl, rfl⟩

theorem journalled_onClearing (y : Action Clearing α) : Keeps Journalled (onClearing y) :=
  Action.keeps_within (Q := fun _ _ => True) (fun _ => trivial) fun l _ _ => Std.Refl.refl l.store

/-- Whatever the action wrote when it failed, it wrote to the store through its journal. -/
structure Atomic (x : Action Ledger α) : Prop where
  store : Keeps Journalled x
  funds : ∀ l fault l', l.clearing.accounts.InRange → x l = .error fault l' →
    l'.clearing = l.clearing ∧ l'.nextFill = l.nextFill

theorem journalled_of_wrote (wrote : Keeps Wrote x) : Keeps Journalled x := fun l => (wrote l).store

theorem Atomic.of_wrote (wrote : Keeps Wrote x) : Atomic x where
  store := journalled_of_wrote wrote
  funds _ _ _ _ run := ⟨(wrote.error run).clearing, (wrote.error run).nextFill⟩

/-- Writes to the store may come first. -/
theorem Atomic.after {f : α → Action Ledger β} (wrote : Keeps Wrote x)
    (next : ∀ a, Atomic (f a)) : Atomic (x >>= f) where
  store := (journalled_of_wrote wrote).bind fun a => (next a).store
  funds l fault l' range run := by
    obtain failed | ⟨a, t, first, run⟩ := Action.bind_error.1 run
    · exact ⟨(wrote.error failed).clearing, (wrote.error failed).nextFill⟩
    · have written := wrote.ok first
      have kept := (next a).funds t fault l' (by rw [written.clearing]; exact range) run
      exact ⟨kept.1.trans written.clearing, kept.2.trans written.nextFill⟩

/-- What cannot fail may come last. -/
theorem Atomic.before {f : α → Action Ledger β} (atomic : Atomic x)
    (store : ∀ a, Keeps Journalled (f a)) (total : ∀ a l fault l', f a l ≠ .error fault l') :
    Atomic (x >>= f) where
  store := atomic.store.bind store
  funds l fault l' range run := by
    obtain failed | ⟨a, t, -, run⟩ := Action.bind_error.1 run
    · exact atomic.funds l fault l' range failed
    · exact absurd run (total a t fault l')

theorem Atomic.before_pure (atomic : Atomic x) (f : α → β) :
    Atomic (x >>= fun a => pure (f a)) :=
  atomic.before (fun _ => Action.keeps_pure _) fun _ _ _ _ => Action.pure_error

theorem settle_atomic (b : Batch) : Atomic (settle b) where
  store := journalled_onClearing _
  funds _ _ _ _ run := by
    rw [(settle_error.1 run).2]
    exact ⟨rfl, rfl⟩

theorem freezeAll_atomic (owner : Address) (coins : List Coin) :
    Atomic (onAccounts (Accounts.freezeAll owner coins)) where
  store := journalled_onClearing _
  funds l fault l' range run := by
    obtain ⟨a, failed, rfl⟩ := onAccounts_error.1 run
    rw [Accounts.freezeAll_error range failed]
    exact ⟨rfl, rfl⟩

/-- A freeze whose settlement is refused is taken back. -/
theorem freezeAndSettle_atomic (owner : Address) (coins : List Coin) (b : Batch) :
    Atomic (do
      onAccounts (Accounts.freezeAll owner coins)
      (settle b).orUndo (onAccounts (Accounts.releaseAll owner coins))) where
  store := (freezeAll_atomic owner coins).store.bind fun _ =>
    (settle_atomic b).store.orUndo (journalled_onClearing _)
  funds l fault l' range run := by
    obtain failed | ⟨_, t, frozen, run⟩ := Action.bind_error.1 run
    · exact (freezeAll_atomic owner coins).funds l fault l' range failed
    · obtain ⟨a, moved, rfl⟩ := onAccounts_ok.1 frozen
      obtain ⟨e, t, refused, undo⟩ := Action.orUndo_error.1 run
      rw [(settle_error.1 refused).2] at undo
      have released := Accounts.releaseAll_of_freezeAll range moved
      obtain failed | ⟨undone, -⟩ := undo
      · obtain ⟨_, failed, -⟩ := onAccounts_error.1 failed
        rw [withAccounts_accounts, released] at failed
        cases failed
      · obtain ⟨b, restored, rfl⟩ := onAccounts_ok.1 undone
        rw [withAccounts_accounts, released] at restored
        cases restored
        exact ⟨rfl, rfl⟩

theorem settleTaker_atomic (owner : Address) (coins : List Coin) (b : Batch) (nextFill : Nat)
    (done : Executed) : Atomic (do
      onAccounts (Accounts.freezeAll owner coins)
      (settle b).orUndo (onAccounts (Accounts.releaseAll owner coins))
      modify fun l => { l with nextFill }
      return done) := by
  have ended : Atomic ((onAccounts (Accounts.freezeAll owner coins) >>= fun _ =>
      (settle b).orUndo (onAccounts (Accounts.releaseAll owner coins))) >>= fun _ =>
        modify (fun l => { l with nextFill }) >>= fun _ => pure done) := by
    refine (freezeAndSettle_atomic owner coins b).before (fun _ => ?_) fun _ _ _ _ run => ?_
    · exact (Action.keeps_modify fun l : Ledger => Std.Refl.refl l.store).bind fun _ =>
        Action.keeps_pure _
    · obtain failed | ⟨_, _, -, failed⟩ := Action.bind_error.1 run
      · exact Action.modify_error failed
      · exact Action.pure_error failed
  rwa [bind_assoc] at ended

section Messages

variable {tokens : Tokens} {params : Params} {header : Header} {height : Nat}

theorem keeps_unlist (id : PairId) :
    Keeps Store.Extends (discard (Action.take fun s => s.removePair id)) := by
  have removal : Keeps Store.Extends (Action.take fun s => s.removePair id) :=
    Action.keeps_take fun _ _ _ => Store.removePair_extends
  exact removal.bind fun _ => Action.keeps_pure _

theorem create_atomic (m : CreatePair) : Atomic (Listing.create m tokens params height) := by
  refine .after (Action.keeps_ask _) fun _ => ?_
  have insert : Keeps Store.Extends
      (.change fun s => s.insertPair (Listing.newPair m params height)) :=
    Action.keeps_change fun _ _ => Store.insertPair_extends
  refine .after (wrote_onStore insert) fun _ => ?_
  have undo := wrote_onStore (keeps_unlist (Listing.newPair m params height).id)
  refine .before_pure ⟨?_, fun l fault l' range run => ?_⟩ _
  · exact (journalled_onClearing _).orUndo (journalled_of_wrote undo)
  · obtain ⟨e, t, refused, undone⟩ := Action.orUndo_error.1 run
    obtain ⟨a, unsent, rfl⟩ := onAccounts_error.1 refused
    rw [← (Action.change_error.1 unsent).2] at undone
    have wrote : Wrote l l' := undone.elim undo.error fun undone => undo.ok undone.1
    exact ⟨wrote.clearing, wrote.nextFill⟩

theorem rest_atomic (a : Admission) : Atomic (rest a) :=
  .after (wrote_onStore (Action.keeps_change fun _ _ => Store.putOrder_extends)) fun _ =>
    (freezeAll_atomic _ _).before_pure _

theorem takeOnce_atomic [Build] (a : Admission) : Atomic (takeOnce a params height) := by
  refine .after (wrote_onStore (Action.keeps_change fun _ _ => Store.claimId_extends)) fun _ => ?_
  refine .after (wrote_onStore (Action.keeps_ask _)) fun book => .after Action.keeps_get fun l => ?_
  dsimp only
  generalize matchIncoming _ _ _ _ = out
  obtain ⟨matched, taker⟩ := out
  refine .after (Action.keeps_ask _) fun c => ?_
  refine .after (wrote_onStore (Store.upkeep_extends.writeBack _ c)) fun _ => ?_
  exact settleTaker_atomic _ _ _ _ _

theorem placeOrder_atomic [Build] (m : PlaceOrder) :
    Atomic (placeOrder m tokens params height) := by
  refine .after Action.keeps_get fun l => .after (Action.keeps_ask _) fun pair => ?_
  refine .after (Action.keeps_ask _) fun a => ?_
  split
  · exact rest_atomic a
  · exact takeOnce_atomic a

theorem cancelOrder_atomic (m : CancelOrder) : Atomic (cancelOrder m params) := by
  refine .after Action.keeps_get fun l => ?_
  have wrote : Keeps Wrote
      (onStore (.take fun s => s.cancel m.order .manual params.baseCurrency)) :=
    wrote_onStore (Action.keeps_take fun _ _ _ => Store.upkeep_extends.cancel)
  dsimp only
  split
  · exact .after (Action.keeps_throw _) fun _ => .after wrote fun out =>
      (settle_atomic _).before_pure _
  · exact .after wrote fun out => (settle_atomic _).before_pure _

/-- Every message is all or nothing. -/
theorem execute_atomic [Build] (msg : Message) : Atomic (execute tokens params header msg) := by
  cases msg with
  | createPair m => exact (create_atomic m).before_pure _
  | delistPair m =>
      exact (Atomic.of_wrote (wrote_onStore (Action.keeps_take fun _ _ _ =>
        Store.scheduleDelist_extends))).before_pure _
  | raisePrecision m =>
      exact (Atomic.of_wrote (wrote_onStore (Action.keeps_take fun _ _ _ =>
        Store.raisePrecision_extends))).before_pure _
  | placeOrder m => exact placeOrder_atomic m
  | cancelOrder m => exact cancelOrder_atomic m

/-- And so is every block end. -/
theorem endBlock_atomic [Build] : Atomic (endBlock params header) := by
  refine .after (wrote_onStore (Action.keeps_ask _)) fun due => .after Action.keeps_get fun l => ?_
  refine .after (wrote_onStore (Store.upkeep_extends.matchPairs _ _ _)) fun out => ?_
  refine .after (wrote_onStore (Store.upkeep_extends.sweepDue _)) fun sweep => ?_
  refine (settle_atomic _).before (fun _ => ?_) fun _ _ _ _ run => ?_
  · exact (Action.keeps_modify fun l : Ledger => Std.Refl.refl l.store).bind fun _ =>
      Action.keeps_pure _
  · obtain failed | ⟨_, _, -, failed⟩ := Action.bind_error.1 run
    · exact Action.modify_error failed
    · exact Action.pure_error failed

end Messages

section Transactions

/-- An atomic action inside a transaction on well-formed tables. -/
theorem Atomic.rolls_back (atomic : Atomic x) (wf : l.store.tables.WellFormed)
    (idle : l.store.journal = none) (range : l.clearing.accounts.InRange)
    (run : atomically x l = (.error fault, l')) : l' = l := by
  obtain ⟨t, failed, rfl⟩ := atomically_error.1 run
  obtain ⟨clearing, nextFill⟩ := atomic.funds _ fault t (by exact range) failed
  have store := Store.rollback_of_extends wf idle (atomic.store.error failed)
  cases l
  simp_all [withStore]

end Transactions

end Ledger

namespace Market

variable {m m' : Market} {msg : Message} {header : Header} {fault : Fault}

theorem apply_eq [Build] {result : Except Fault Executed} (run : m.apply msg = (result, m')) :
    ∃ l, Ledger.atomically (Ledger.execute m.tokens m.params m.header msg) m.ledger = (result, l) ∧
      m' = { m with ledger := l } := by
  rw [apply] at run
  obtain ⟨rfl, rfl⟩ := Prod.mk.inj run
  exact ⟨_, rfl, rfl⟩

theorem closeBlock_eq [Build] {result : Except Fault (Report × Batch)}
    (run : m.closeBlock header = (result, m')) :
    ∃ l, Ledger.atomically (Ledger.endBlock m.params header) m.ledger = (result, l) ∧
      m' = { m with header, ledger := l } := by
  rw [closeBlock] at run
  obtain ⟨rfl, rfl⟩ := Prod.mk.inj run
  exact ⟨_, rfl, rfl⟩

theorem apply_error [Build] (wf : m.ledger.store.tables.WellFormed)
    (idle : m.ledger.store.journal = none) (range : m.ledger.clearing.accounts.InRange)
    (run : m.apply msg = (.error fault, m')) : m' = m := by
  obtain ⟨l, ended, rfl⟩ := apply_eq run
  rw [(Ledger.execute_atomic msg).rolls_back wf idle range ended]

theorem closeBlock_error [Build] (wf : m.ledger.store.tables.WellFormed)
    (idle : m.ledger.store.journal = none) (range : m.ledger.clearing.accounts.InRange)
    (run : m.closeBlock header = (.error fault, m')) : m' = { m with header } := by
  obtain ⟨l, ended, rfl⟩ := closeBlock_eq run
  rw [Ledger.endBlock_atomic.rolls_back wf idle range ended]

theorem apply_failed [Build] (run : m.apply msg = (.error fault, m')) :
    ∃ l, Ledger.execute m.tokens m.params m.header msg
      (m.ledger.withStore m.ledger.store.openJournal) = .error fault l := by
  obtain ⟨l, ended, -⟩ := apply_eq run
  obtain ⟨t, failed, -⟩ := Ledger.atomically_error.1 ended
  exact ⟨t, failed⟩

theorem closeBlock_failed [Build] (run : m.closeBlock header = (.error fault, m')) :
    ∃ l, Ledger.endBlock m.params header
      (m.ledger.withStore m.ledger.store.openJournal) = .error fault l := by
  obtain ⟨l, ended, -⟩ := closeBlock_eq run
  obtain ⟨t, failed, -⟩ := Ledger.atomically_error.1 ended
  exact ⟨t, failed⟩

theorem apply_ok [Build] {done : Executed} (run : m.apply msg = (.ok done, m')) :
    ∃ l, Ledger.execute m.tokens m.params m.header msg
        (m.ledger.withStore m.ledger.store.openJournal) = .ok done l ∧
      m' = { m with ledger := l.withStore l.store.commit } := by
  obtain ⟨l, ended, rfl⟩ := apply_eq run
  obtain ⟨t, acted, rfl⟩ := Ledger.atomically_ok.1 ended
  exact ⟨t, acted, rfl⟩

theorem apply_of_ok [Build] {done : Executed} {l : Ledger}
    (acted : Ledger.execute m.tokens m.params m.header msg
      (m.ledger.withStore m.ledger.store.openJournal) = .ok done l) :
    m.apply msg = (.ok done, { m with ledger := l.withStore l.store.commit }) := by
  rw [apply, Ledger.atomically_ok.2 ⟨l, acted, rfl⟩]

theorem closeBlock_ok [Build] {out : Report × Batch} (run : m.closeBlock header = (.ok out, m')) :
    ∃ l, Ledger.endBlock m.params header
        (m.ledger.withStore m.ledger.store.openJournal) = .ok out l ∧
      m' = { m with header, ledger := l.withStore l.store.commit } := by
  obtain ⟨l, ended, rfl⟩ := closeBlock_eq run
  obtain ⟨t, acted, rfl⟩ := Ledger.atomically_ok.1 ended
  exact ⟨t, acted, rfl⟩

theorem apply_funds [Build] (range : m.ledger.clearing.accounts.InRange)
    (run : m.apply msg = (.error fault, m')) : m'.ledger.clearing = m.ledger.clearing := by
  obtain ⟨l, ended, rfl⟩ := apply_eq run
  obtain ⟨t, failed, rfl⟩ := Ledger.atomically_error.1 ended
  exact ((Ledger.execute_atomic msg).funds _ _ t (by exact range) failed).1

theorem closeBlock_funds [Build] (range : m.ledger.clearing.accounts.InRange)
    (run : m.closeBlock header = (.error fault, m')) :
    m'.ledger.clearing = m.ledger.clearing := by
  obtain ⟨l, ended, rfl⟩ := closeBlock_eq run
  obtain ⟨t, failed, rfl⟩ := Ledger.atomically_error.1 ended
  exact (Ledger.endBlock_atomic.funds _ _ t (by exact range) failed).1

/-- A delivery refuses a message, or applies it. -/
theorem deliver_cases [Build] (m : Market) (msg : Message) :
    (∃ fault, (m.deliver msg).1 = .refused fault ∧
      (msg.check = .error fault ∧ (m.deliver msg).2 = m ∨
        msg.check = .ok () ∧ m.apply msg = (.error fault, (m.deliver msg).2))) ∨
    ∃ done, msg.check = .ok () ∧ (m.deliver msg).1 = .accepted done.log ∧
      m.apply msg = (.ok done, (m.deliver msg).2) := by
  rw [deliver]
  cases checked : msg.check with
  | error fault => exact .inl ⟨fault, rfl, .inl ⟨rfl, rfl⟩⟩
  | ok _ =>
      cases run : m.apply msg with
      | mk result m' =>
          cases result with
          | error fault => exact .inl ⟨fault, rfl, .inr ⟨rfl, rfl⟩⟩
          | ok done => exact .inr ⟨done, rfl, rfl, rfl⟩

theorem apply_of_accepted [Build] (accepted : (m.deliver msg).1.success = true) :
    ∃ done, msg.check = .ok () ∧ m.apply msg = (.ok done, (m.deliver msg).2) := by
  obtain ⟨_, refused, -⟩ | ⟨done, checked, -, run⟩ := m.deliver_cases msg
  · rw [refused] at accepted
    cases accepted
  · exact ⟨done, checked, run⟩

/-- A delivery accepts what passes its check and is carried out. -/
theorem accepted_of_execute [Build] {done : Executed} {l : Ledger} (checked : msg.check = .ok ())
    (acted : Ledger.execute m.tokens m.params m.header msg
      (m.ledger.withStore m.ledger.store.openJournal) = .ok done l) :
    (m.deliver msg).1 = .accepted done.log ∧
      (m.deliver msg).2 = { m with ledger := l.withStore l.store.commit } := by
  rw [deliver, checked, apply_of_ok acted]
  exact ⟨rfl, rfl⟩

theorem endBlock_cases [Build] (m : Market) (header : Header) :
    (∃ fault, (m.endBlock header).1 = .error fault ∧
      m.closeBlock header = (.error fault, (m.endBlock header).2)) ∨
    ∃ report batch, (m.endBlock header).1 = .ok report ∧
      m.closeBlock header = (.ok (report, batch), (m.endBlock header).2) := by
  rw [endBlock]
  cases run : m.closeBlock header with
  | mk result m' =>
      cases result with
      | error fault => exact .inl ⟨fault, rfl, rfl⟩
      | ok out => exact .inr ⟨out.1, out.2, rfl, rfl⟩

/-- A message that is refused changes nothing, and a block end that fails takes over the header
alone. The balances may be anything: they need not back the orders. -/
theorem failure_changes_nothing [Build] (m : Market) (reachable : m.ledger.store.Reachable)
    (idle : m.ledger.store.journal = none) (range : m.ledger.clearing.accounts.InRange) :
    (∀ msg, (m.deliver msg).1.success = false → (m.deliver msg).2 = m) ∧
      ∀ header fault, (m.endBlock header).1 = .error fault →
        (m.endBlock header).2 = { m with header } := by
  have wf := reachable.sound.tables
  constructor
  · intro msg refused
    obtain ⟨fault, -, ⟨-, same⟩ | ⟨-, run⟩⟩ | ⟨done, -, accepted, -⟩ := m.deliver_cases msg
    · exact same
    · exact apply_error wf idle range run
    · simp [accepted, Receipt.accepted] at refused
  · intro header fault failed
    obtain ⟨_, -, run⟩ | ⟨report, batch, ended, -⟩ := m.endBlock_cases header
    · exact closeBlock_error wf idle range run
    · simp [ended] at failed

section Unbacked

attribute [local instance] Build.checked

/-- A sell of 7 that rests although its sender has nothing. -/
def strayOrder : Order where
  id := ⟨"a-1-0"⟩
  sender := ⟨"a"⟩
  sequence := 1
  pair := ⟨"btc/cet"⟩
  side := .sell
  kind := .limit
  timeInForce := .goodTillExpire
  price := 5
  precision := 0
  quantity := 7
  remaining := 7
  frozenFee := 0
  frozenPrincipal := 7
  dealStock := 0
  dealMoney := 0
  height := 1
  status := .opened

/-- A market whose balances do not back its only order, and in which the order's pair is missing. -/
def unbacked : Market :=
  let used : Tables := { usedIds := (∅ : Std.ExtTreeSet OrderId).insert strayOrder.id }
  { ledger := { store := { tables := used.insertOrder strayOrder } }, params := .default }

theorem unbacked_reachable : unbacked.ledger.store.Reachable :=
  .write .empty (.putOrder (o := strayOrder) rfl)

/-- The cancellation fails in settlement and the block end on the missing pair. -/
theorem unbacked_unchanged :
    (unbacked.deliver (.cancelOrder ⟨⟨"a"⟩, strayOrder.id⟩)).1.code = 900 ∧
      (unbacked.deliver (.cancelOrder ⟨⟨"a"⟩, strayOrder.id⟩)).2 = unbacked ∧
      (unbacked.endBlock ⟨2, 0⟩).2 = { unbacked with header := ⟨2, 0⟩ } := by
  have unchanged := failure_changes_nothing unbacked unbacked_reachable rfl
    Accounts.inRange_empty
  refine ⟨by decide +kernel, unchanged.1 _ (by decide +kernel), ?_⟩
  exact unchanged.2 ⟨2, 0⟩ (.corruption "resting orders on unknown pair btc/cet") (by rfl)

end Unbacked

end Market

end Bourse
