import Bourse.Proofs.Atomicity
import Bourse.Proofs.Balance

/-!
# Value moves only as recorded

* `Moved`: between two states of the accounts every total changed by what some trades say and by a
  listing fee, and no supply changed;
* `execute_moved`, `endBlock_moved`: a message and a block end that succeed move what they settled;
* `value_moves_as_recorded`: hence every delivery and every block end does, and one that fails moves
  nothing.
-/

namespace Bourse

/-- Every total changed by the trades' net and by `fee`, and no supply changed. -/
structure Moved (v : Venue) (trades : List Trade) (fee : Address → Denom → Int) (a a' : Accounts) :
    Prop where
  total : ∀ x d, ((a'.holding x d).total : Int) =
    (a.holding x d).total + Trade.netSum trades v.baseCurrency v.feeCollector x d + fee x d
  supply : ∀ d, a'.supply d = a.supply d

section Moved

variable {v : Venue} {a a' b : Accounts} {trades : List Trade} {x y : Address} {c : Coin}

theorem moved_nothing (v : Venue) (a : Accounts) : Moved v [] 0 a a :=
  ⟨by simp, fun _ => rfl⟩

theorem Accounts.Frozen.moved {amount : Denom → Nat} (frozen : Accounts.Frozen x amount a a')
    (v : Venue) : Moved v [] 0 a a' := by
  refine ⟨fun y d => ?_, frozen.supply⟩
  have available := frozen.available y d
  have frozen := frozen.frozen y d
  rw [Trade.netSum_nil, Pi.zero_apply, Pi.zero_apply, Holding.total, Holding.total]
  omega

theorem Moved.after (moved : Moved v [] 0 a b) (later : Moved v trades 0 b a') :
    Moved v trades 0 a a' := by
  refine ⟨fun x d => ?_, fun d => (later.supply d).trans (moved.supply d)⟩
  simp [later.total, moved.total]

/-- A batch moves what its trades say. -/
theorem Clearing.settled_moved {batch : Batch} {k k' : Clearing}
    (nets : Nets v batch.trades batch.effects) (run : k.settled batch = .ok k') :
    Moved v batch.trades 0 k.accounts k'.accounts := by
  obtain ⟨watermark, accounts, -, rehearsed, rfl⟩ := Clearing.settled_ok.1 run
  obtain ⟨frozen, available, supply⟩ := Accounts.rehearsal_moves rehearsed
  refine ⟨fun x d => ?_, supply⟩
  have frozen := frozen x d
  have available := available x d
  have nets := nets x d
  change ((accounts.holding x d).total : Int) = _
  rw [Holding.total, Holding.total, Pi.zero_apply, Pi.zero_apply]
  push_cast
  omega

/-- What a listing fee moves. -/
def listingFee (creator collector : Address) (fee : Coin) (x : Address) (d : Denom) : Int :=
  (if collector = x then Trade.amountIn d fee.denom fee.amount else 0)
    - if creator = x then Trade.amountIn d fee.denom fee.amount else 0

theorem Accounts.send_moved (run : a.send x y c = .ok a') (v : Venue) :
    Moved v [] (listingFee x y c) a a' := by
  constructor
  · intro z d
    have available := (Accounts.sent_of_send run).available z d
    have frozen := (Accounts.sent_of_send run).frozen z d
    simp only [Trade.netSum_nil, listingFee, Trade.amountIn, Holding.total]
    grind
  · intro d
    obtain ⟨enough, ⟨-, rfl⟩ | ⟨-, apart, -, rfl⟩⟩ := Accounts.send_ok.1 run
    · rfl
    · have debited := Accounts.supply_set (a := a) (x := x) (d := c.denom) (e := d)
        (h := { a.holding x c.denom with
          available := (a.holding x c.denom).available - c.amount })
      have same : (a.set x c.denom { a.holding x c.denom with
          available := (a.holding x c.denom).available - c.amount }).holding y c.denom =
          a.holding y c.denom := by
        simp [Accounts.holding_set, apart]
      generalize a.set x c.denom { a.holding x c.denom with
        available := (a.holding x c.denom).available - c.amount } = b at debited same ⊢
      have credited := Accounts.supply_set (a := b) (x := y) (d := c.denom) (e := d)
        (h := { a.holding y c.denom with
          available := (a.holding y c.denom).available + c.amount })
      rw [same] at credited
      dsimp only [Holding.total] at debited credited ⊢
      split at credited
      · next named =>
          rw [if_pos named, if_pos named] at debited
          omega
      · next other =>
          rw [if_neg other, if_neg other] at debited
          omega

end Moved

namespace Ledger

variable {l l' : Ledger} {tokens : Tokens} {params : Params} {header : Header} {height : Nat}
  {done : Executed} {fault : Fault}

/-- The listing fee that a message moves if it succeeds. -/
def feeOf (params : Params) : Message → Address → Denom → Int
  | .createPair m =>
      listingFee m.creator params.feeCollector ⟨params.baseCurrency, params.createMarketFee⟩
  | _ => 0

theorem takeOnce_nets [Build] {a : Admission} (run : takeOnce a params height l = .ok done l') :
    Nets (venue params height) done.batch.trades done.batch.effects := by
  obtain ⟨s₁, book, c, s₂, funds, clearing, -, loaded, ended, -, -, -, batch, -⟩ := takeOnce_ok run
  obtain ⟨sound, pair, -⟩ := Book.ofOrders_ok loaded
  have nets := (incoming_balanced sound (venue params height) l.nextFill pair.symm).net
  rw [batch, Pass.matchIncoming_outcome ended, finishTaker]
  split
  · exact nets
  · have both := nets.append (Store.nets_releases (venue params height)
      (matchIncoming (venue params height) l.nextFill book a.order).2)
    rw [List.append_nil] at both
    exact both

/-- A message that succeeds moves what it settled, and its listing fee. -/
theorem execute_moved [Build] (range : l.clearing.accounts.InRange) {msg : Message}
    (run : execute tokens params header msg l = .ok done l') :
    Moved (venue params header.height) done.batch.trades (feeOf params msg)
      l.clearing.accounts l'.clearing.accounts := by
  cases msg with
  | createPair m =>
      obtain ⟨id, created, batch⟩ := execute_create_ok run
      obtain ⟨s, funds, -, -, charged, rfl⟩ := create_ok created
      rw [batch]
      exact Accounts.send_moved charged (venue params header.height)
  | delistPair m =>
      obtain ⟨r, s, -, batch, rfl⟩ := execute_delist_ok run
      rw [batch]
      exact moved_nothing _ _
  | raisePrecision m =>
      obtain ⟨out, s, -, batch, rfl⟩ := execute_raise_ok run
      rw [batch]
      exact moved_nothing _ _
  | placeOrder m =>
      obtain ⟨pair, a, -, -, ⟨-, run⟩ | ⟨-, run⟩⟩ := placeOrder_ok run
      · obtain ⟨s, funds, -, frozen, batch, rfl⟩ := rest_ok run
        rw [batch]
        exact (Accounts.freezeAll_ok range frozen).1.moved _
      · have nets := takeOnce_nets run
        obtain ⟨s₁, book, c, s₂, funds, clearing, -, -, -, -, frozen, settled, -, rfl⟩ :=
          takeOnce_ok run
        exact ((Accounts.freezeAll_ok range frozen).1.moved _).after
          (Clearing.settled_moved nets settled)
  | cancelOrder m =>
      obtain ⟨out, s, clearing, cancelled, settled, batch, rfl⟩ := cancelOrder_ok run
      have nets : Nets (venue params header.height) done.batch.trades done.batch.effects := by
        rw [batch]
        exact (Store.cancel_balanced (v := venue params header.height) cancelled).net
      exact Clearing.settled_moved nets settled

/-- And so does a block end. -/
theorem endBlock_moved [Build] {report : Report} {batch : Batch}
    (run : endBlock params header l = .ok (report, batch) l') :
    Moved (venue params header.height) report.trades 0
      l.clearing.accounts l'.clearing.accounts := by
  obtain ⟨due, matched, nextFill, s₁, sweep, s₂, clearing, -, passed, swept, settled, rfl, rfl,
    rfl⟩ := endBlock_ok.1 run
  have passed := Store.matchPairs_nets passed
  have swept := (Store.sweepDue_balanced (v := venue params header.height) swept).net
  exact Clearing.settled_moved (passed.append swept) settled

end Ledger

namespace Market

variable {m m' : Market} {msg : Message} {header : Header}

/-- All that an account has of a denomination. -/
def total (m : Market) (x : Address) (d : Denom) : Nat :=
  (m.ledger.clearing.accounts.holding x d).total

def supply (m : Market) (d : Denom) : Nat := m.ledger.clearing.accounts.supply d

/-- The trades that a delivery settles. -/
def settledBy [Build] (m : Market) (msg : Message) : List Trade :=
  match msg.check, (m.apply msg).1 with
  | .ok (), .ok done => done.batch.trades
  | _, _ => []

/-- The trades that a block end settles. -/
def settledAt [Build] (m : Market) (header : Header) : List Trade :=
  match (m.endBlock header).1 with
  | .ok report => report.trades
  | .error _ => []

/-- The listing fee that a delivery moves. -/
def listingFeeOf [Build] (m : Market) (msg : Message) : Address → Denom → Int :=
  if (m.deliver msg).1.success then Ledger.feeOf m.params msg else 0

theorem deliver_refused [Build] (range : m.ledger.clearing.accounts.InRange) {fault : Fault}
    (refused : (m.deliver msg).1 = .refused fault) :
    (m.deliver msg).2.ledger.clearing = m.ledger.clearing ∧ m.settledBy msg = [] ∧
      m.listingFeeOf msg = 0 := by
  obtain ⟨fault, -, ended⟩ | ⟨done, -, accepted, -⟩ := m.deliver_cases msg
  · have fee : m.listingFeeOf msg = 0 := by simp [listingFeeOf, refused, Receipt.refused]
    obtain ⟨checked, same⟩ | ⟨checked, run⟩ := ended
    · exact ⟨by rw [same], by simp [settledBy, checked], fee⟩
    · refine ⟨apply_funds range run, ?_, fee⟩
      rw [settledBy, run]
      split
      · next acted => cases acted
      · rfl
  · simp [accepted, Receipt.accepted, Receipt.refused] at refused

theorem deliver_moved [Build] (range : m.ledger.clearing.accounts.InRange) (msg : Message) :
    Moved (Ledger.venue m.params m.header.height) (m.settledBy msg) (m.listingFeeOf msg)
      m.ledger.clearing.accounts (m.deliver msg).2.ledger.clearing.accounts := by
  obtain ⟨fault, refused, -⟩ | ⟨done, checked, accepted, run⟩ := m.deliver_cases msg
  · obtain ⟨same, trades, fee⟩ := deliver_refused range refused
    rw [same, trades, fee]
    exact moved_nothing _ _
  · have trades : m.settledBy msg = done.batch.trades := by simp only [settledBy, checked, run]
    have fee : m.listingFeeOf msg = Ledger.feeOf m.params msg := by
      simp [listingFeeOf, accepted, Receipt.accepted]
    obtain ⟨l, acted, same⟩ := apply_ok run
    rw [trades, fee, same]
    have moved := Ledger.execute_moved (l := m.ledger.withStore m.ledger.store.openJournal)
      range acted
    exact moved

theorem endBlock_moved [Build] (range : m.ledger.clearing.accounts.InRange) (header : Header) :
    Moved (Ledger.venue m.params header.height) (m.settledAt header) 0
      m.ledger.clearing.accounts (m.endBlock header).2.ledger.clearing.accounts := by
  obtain ⟨fault, failed, run⟩ | ⟨report, batch, ended, run⟩ := m.endBlock_cases header
  · rw [closeBlock_funds range run, settledAt, failed]
    exact moved_nothing _ _
  · obtain ⟨l, acted, same⟩ := closeBlock_ok run
    rw [settledAt, ended, same]
    have moved := Ledger.endBlock_moved acted
    exact moved

/-- Every delivery and every block end changes each total by exactly what the trades that it settles
say, and a listing by its fee; one that fails changes none, and no supply ever changes. -/
theorem value_moves_as_recorded [Build] (m : Market) (range : m.ledger.clearing.accounts.InRange) :
    (∀ msg x d, ((m.deliver msg).2.total x d : Int) = m.total x d
      + Trade.netSum (m.settledBy msg) m.params.baseCurrency m.params.feeCollector x d
      + m.listingFeeOf msg x d) ∧
    (∀ header x d, ((m.endBlock header).2.total x d : Int) = m.total x d
      + Trade.netSum (m.settledAt header) m.params.baseCurrency m.params.feeCollector x d) ∧
    (∀ msg, (m.deliver msg).1.success = false →
      ∀ x d, (m.deliver msg).2.total x d = m.total x d) ∧
    (∀ header fault, (m.endBlock header).1 = .error fault →
      ∀ x d, (m.endBlock header).2.total x d = m.total x d) ∧
    (∀ msg d, (m.deliver msg).2.supply d = m.supply d) ∧
    ∀ header d, (m.endBlock header).2.supply d = m.supply d := by
  refine ⟨fun msg => (deliver_moved range msg).total, fun header x d => ?_, ?_, ?_,
    fun msg => (deliver_moved range msg).supply, fun header => (endBlock_moved range header).supply⟩
  · have moved := (endBlock_moved range header).total x d
    rwa [Pi.zero_apply, Pi.zero_apply, Int.add_zero] at moved
  · intro msg refused x d
    obtain ⟨fault, refused, -⟩ | ⟨done, -, accepted, -⟩ := m.deliver_cases msg
    · rw [total, (deliver_refused range refused).1, total]
    · simp [accepted, Receipt.accepted] at refused
  · intro header fault failed x d
    obtain ⟨_, -, run⟩ | ⟨report, batch, ended, -⟩ := m.endBlock_cases header
    · rw [total, closeBlock_funds range run, total]
    · simp [ended] at failed

section Crossed

attribute [local instance] Build.checked

/-- A market in which an order of `a` to sell 7 rests, and `b` has money. -/
def crossed : Market :=
  let pair : Pair := ⟨"btc", "cet", ⟨"a"⟩, 8, .zero, 1, 0⟩
  let used : Tables := { usedIds := (∅ : Std.ExtTreeSet OrderId).insert strayOrder.id }
  let store : Store := { tables := (used.insertOrder strayOrder).insertPair pair }
  let funds := (({} : Accounts).set ⟨"a"⟩ "btc" ⟨0, 7⟩).set ⟨"b"⟩ "cet" ⟨2000000, 0⟩
  { ledger := { store, clearing := { accounts := funds } }, params := .default, header := ⟨3, 0⟩ }

/-- An order of `b` to buy 4 at once. -/
def crossedBuy : Message :=
  .placeOrder ⟨⟨"b"⟩, 1, "btc/cet", .limit, 0, 6, 4, .buy, .immediateOrCancel⟩

/-- The buy takes 4 of the 7, and every total moves as its trade says. -/
theorem crossedBuy_moves : (crossed.deliver crossedBuy).2.total ⟨"b"⟩ "btc" = 4 ∧
    ∀ x d, ((crossed.deliver crossedBuy).2.total x d : Int) = crossed.total x d
      + Trade.netSum (crossed.settledBy crossedBuy) "cet" ⟨"fee_collector"⟩ x d
      + crossed.listingFeeOf crossedBuy x d := by
  have range : crossed.ledger.clearing.accounts.InRange :=
    (Accounts.inRange_empty.set (by decide) (by decide)).set (by decide) (by decide)
  exact ⟨by decide +kernel, (value_moves_as_recorded crossed range).1 crossedBuy⟩

end Crossed

end Market

end Bourse
