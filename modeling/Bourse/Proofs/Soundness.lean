import Bourse.Proofs.Listing
import Bourse.Proofs.Refusal
import Bourse.Proofs.Totality

/-!
# Sound ledgers

* `Ledger.Sound`: what matching, settlement and delisting rely on;
* `execute_sound`: every message that succeeds keeps it;
* `execute_mild`: on a sound ledger no message fails for a corruption;
* `endBlock_total`: and no block end fails at all, where no counter stops it.
-/

namespace Bourse

/-- An order asks for a word of stock. -/
def Message.InRange : Message → Prop
  | placeOrder m => m.quantity < Word.size
  | _ => True

namespace Clearing

variable {c : Clearing} {b : Batch} {height seq : Nat}

/-- What is numbered in turn and covered by the frozen funds can be settled. -/
theorem settled_total (numbered : Trade.Numbered height seq b.trades)
    (below : Replay.Below c.watermark ⟨height, seq⟩)
    (enough : ∀ x d, Effect.debits b.effects x d ≤ (c.accounts.holding x d).frozen)
    (words : ∀ d, c.accounts.supply d < Word.size) : ∃ c', c.settled b = .ok c' ∧
      Replay.Below c'.watermark ⟨height, seq + b.trades.length⟩ := by
  obtain ⟨next, guarded, above⟩ := Replay.check_numbered numbered below
  obtain ⟨accounts, rehearsed⟩ := Accounts.rehearsal_total enough words
  refine ⟨_, settled_ok.2 ⟨next, accounts, guarded, rehearsed, rfl⟩, ?_⟩
  exact Replay.below_advance (below.mono (Nat.le_add_right _ _)) above

end Clearing

namespace Ledger

variable {l l' : Ledger} {base : Denom} {tokens : Tokens} {params : Params} {header : Header}
  {height : Nat} {done : Executed} {fault : Fault}

/-- The frozen funds are backed, the store is ready, there is a number left for every fill of the
block, and no fill from the next number on was settled. -/
structure Sound (base : Denom) (height : Nat) (l : Ledger) : Prop where
  backed : l.Backed base
  ready : l.store.Ready
  room : l.nextFill + l.store.resting.length ≤ l.store.tables.usedIds.size
  below : Replay.Below l.clearing.watermark ⟨height, l.nextFill⟩

/-- The supplies are words, and so is the number of the ids ever admitted: it is the size of a
set. -/
structure InRange (l : Ledger) : Prop where
  supply : ∀ d, l.clearing.accounts.supply d < Word.size
  ids : l.store.tables.usedIds.size < Word.size

section Listing

theorem ready_setPair {s : Store} (ready : s.Ready) (p : Pair) : (s.setPair p).Ready := by
  refine ⟨ready.tables.insertPair p, ready.unfilled, ready.covered, fun o mem => ?_⟩
  rw [Store.pair?_setPair]
  split
  · rfl
  · exact ready.listed o mem

theorem create_sound {m : CreatePair} {id : PairId}
    (checked : (Message.createPair m).check = .ok ()) (sound : l.Sound base height)
    (run : Listing.create m tokens params height l = .ok id l') : l'.Sound base height := by
  have backed := create_backed checked sound.backed run
  obtain ⟨s, funds, -, listed, -, rfl⟩ := create_ok run
  obtain ⟨-, rfl⟩ := Store.insertPair_ok.1 listed
  exact ⟨backed, ready_setPair sound.ready _, sound.room, sound.below⟩

theorem ready_anchored {s : Store} (ready : s.Ready) : s.Anchored := by
  refine ⟨ready.tables, fun k o found => ready.listed o ?_⟩
  rw [Store.mem_resting ready.tables, ready.tables.order_id k o found]
  exact found

theorem create_mild {m : CreatePair} (sound : l.Sound base height) :
    (Listing.create m tokens params height).MildAt l := by
  intro fault l' run
  obtain failed | ⟨-, failed⟩ := create_error (ready_anchored sound.ready) run
  · exact listing_mild params m tokens l fault failed
  · exact Accounts.send_mild _ _ _ _ fault failed

theorem delist_sound {m : DelistPair} {now : Int} {r : DelistRequest} {s : Store}
    (sound : l.Sound base height)
    (run : Store.scheduleDelist m params now l.store = .ok (r, s)) :
    (l.withStore s).Sound base height := by
  have backed := delist_backed sound.backed run
  obtain ⟨-, -, -, -, -, same⟩ := Store.scheduleDelist_ok run
  have resting : s.resting = l.store.resting := by rw [Store.resting, same, Store.resting]
  have ready : s.Ready := by
    refine sound.ready.of_subset backed.tables (fun o mem => resting ▸ mem) fun o mem => ?_
    rw [Store.pair?, same]
    exact sound.ready.listed o (resting ▸ mem)
  refine ⟨backed, ready, ?_, sound.below⟩
  rw [withStore_store, withStore_nextFill, resting, same]
  exact sound.room

theorem raise_sound {m : RaisePrecision} {out : Nat × Nat} {s : Store}
    (sound : l.Sound base height)
    (run : Listing.raisePrecision m params l.store = .ok (out, s)) :
    (l.withStore s).Sound base height := by
  have backed := raise_backed sound.backed run
  obtain ⟨pair, -, -, -, rfl⟩ := Store.raisePrecision_ok run
  exact ⟨backed, ready_setPair sound.ready _, sound.room, sound.below⟩

theorem raise_mild {m : RaisePrecision} (wf : l.store.tables.WellFormed) :
    Check.Mild (Listing.raisePrecision m params l.store) := by
  intro fault run
  obtain failed | ⟨pair, found, run⟩ := Check.bind_error.1 run
  · exact lookup_mild _ _ _ failed
  obtain failed | ⟨_, -, run⟩ := Check.bind_error.1 run
  · exact requireCreator_mild _ _ _ failed
  obtain failed | ⟨_, -, run⟩ := Check.bind_error.1 run
  · exact Fee.checkPrecisionChange_mild _ _ _ _ failed
  obtain failed | ⟨_, -, run⟩ := Check.bind_error.1 run
  · -- The market that was looked up is there.
    obtain ⟨q, -, stored⟩ := Store.lookup_ok found
    have known : l.store.hasPair pair.id = true := by
      rw [Store.hasPair_eq, wf.pair_id q pair stored, stored]
      rfl
    have same : ({ pair with precision := m.precision } : Pair).id = pair.id := rfl
    rw [Store.updatePair, same, if_pos known] at failed
    cases failed
  · exact absurd run Check.pure_error

end Listing

section Orders

variable {a : Admission}

/-- An order that admission lets through: open, covered, of a listed market, and with what is to be
frozen for it. -/
structure Admitted (base : Denom) (l : Ledger) (a : Admission) : Prop where
  unfilled : a.order.remaining ≠ 0
  covered : a.order.Covered
  listed : (l.store.pair? a.order.pair).isSome
  holds : ∀ d, Coin.amountOf a.holds d = a.order.held base d

theorem usedIds_size {t : Tables} {id : OrderId} (fresh : id ∉ t.usedIds) :
    (t.useId id).usedIds.size = t.usedIds.size + 1 := by
  have absent : t.usedIds.contains id = false := by
    rw [← Bool.not_eq_true, ← Std.ExtTreeSet.mem_iff_contains]
    exact fresh
  rw [Tables.useId, Std.ExtTreeSet.size_insert, absent]
  rfl

theorem rest_sound (admitted : Admitted params.baseCurrency l a)
    (sound : l.Sound params.baseCurrency height) (run : rest a l = .ok done l') :
    l'.Sound params.baseCurrency height := by
  have backed := rest_backed admitted.holds sound.backed run
  obtain ⟨s, funds, stored, -, -, rfl⟩ := rest_ok run
  have perm := Store.resting_putOrder stored
  obtain ⟨unused, -, rfl⟩ := Store.putOrder_ok.1 stored
  have origin : ∀ o ∈ (l.store.tables.orders.insert a.order.id a.order).values,
      o = a.order ∨ o ∈ l.store.resting := fun o mem => List.mem_cons.1 (perm.mem_iff.1 mem)
  refine ⟨backed, ⟨backed.tables, fun o mem => ?_, fun o mem => ?_, fun o mem => ?_⟩, ?_,
    sound.below⟩
  · exact (origin o mem).elim (fun same => same ▸ admitted.unfilled) (sound.ready.unfilled o)
  · exact (origin o mem).elim (fun same => same ▸ admitted.covered) (sound.ready.covered o)
  · exact (origin o mem).elim (fun same => same ▸ admitted.listed) (sound.ready.listed o)
  · have more : (l.store.tables.orders.insert a.order.id a.order).values.length =
        l.store.resting.length + 1 := perm.length_eq
    have used := usedIds_size unused
    have room := sound.room
    change l.nextFill + (l.store.tables.orders.insert a.order.id a.order).values.length ≤
      (l.store.tables.useId a.order.id).usedIds.size
    omega

theorem freeze_mild (range : l.clearing.accounts.InRange) (owner : Address) (coins : List Coin) :
    (onAccounts (Accounts.freezeAll owner coins)).MildAt l :=
  Action.mildAt_within (Action.mildAt_within (Accounts.freezeAll_mildAt owner range))

theorem rest_mild (range : l.clearing.accounts.InRange) : (rest a).MildAt l := by
  have store : (onStore (.change fun s => s.putOrder a.order)).MildAt l :=
    Action.mildAt_within (Action.mildAt_change (putOrder_mild l.store a.order))
  apply store.bind
  intro _ _ step
  obtain ⟨s, -, rfl⟩ := onStore_change_ok.1 step
  exact (freeze_mild (l := l.withStore s) range _ _).bind_pure

/-- Once its id is claimed, nothing about an immediate order can fail but its freeze. -/
theorem taken_total [Build] {s₁ : Store} (release : Build.isChecked = false)
    (admitted : Admitted params.baseCurrency l a) (sound : l.Sound params.baseCurrency height)
    (words : l.InRange) (claimed : l.store.claimId a.order.id = .ok s₁) : ∃ b₀ s₂,
      s₁.loadBook a.order.pair = .ok b₀ ∧
      (matchIncoming (venue params height) l.nextFill b₀ a.order).1.outcome =
        .ok (l.taken a params height b₀).1.finish ∧
      Store.writeBack a.order.pair (l.taken a params height b₀).1.finish s₁ = .ok () s₂ ∧
      s₂.Ready ∧
      (l.taken a params height b₀).1.nextFill + s₂.resting.length ≤ s₂.tables.usedIds.size ∧
      ∀ funds, Accounts.Frozen a.order.sender (Coin.amountOf a.holds) l.clearing.accounts funds →
        ∃ c, { l.clearing with accounts := funds }.settled (l.takenBatch a params height b₀) =
          .ok c ∧ Replay.Below c.watermark ⟨height, (l.taken a params height b₀).1.nextFill⟩ := by
  obtain ⟨unused, -, rfl⟩ := Store.claimId_ok.1 claimed
  have ready : (l.store.write (.idUsed a.order.id) (l.store.tables.useId a.order.id)).Ready :=
    sound.ready.of_subset (sound.ready.tables.useId _) (fun _ mem => mem) sound.ready.listed
  have used := usedIds_size unused
  have size := sound.room
  have few := words.ids
  have room : l.nextFill + (l.store.write (.idUsed a.order.id)
      (l.store.tables.useId a.order.id)).resting.length + 1 ≤ Word.size := by
    change l.nextFill + l.store.resting.length + 1 ≤ Word.size
    omega
  obtain ⟨b₀, s₂, load, total, written, still, numbered, next, left, usedIds⟩ :=
    Store.matchIncoming_total release ready admitted.covered admitted.listed (venue params height)
      room
  refine ⟨b₀, s₂, load, total, written, still, ?_, fun funds frozen => ?_⟩
  · rw [usedIds, taken]
    change _ ≤ l.nextFill + l.store.resting.length + 1 at left
    change _ ≤ (l.store.tables.useId a.order.id).usedIds.size
    omega
  · have trades : (l.takenBatch a params height b₀).trades =
        (l.taken a params height b₀).1.finish.trades := by
      rw [takenBatch, finishTaker]
      split <;> rfl
    have numbered' : Trade.Numbered height l.nextFill (l.takenBatch a params height b₀).trades :=
      trades ▸ numbered
    obtain ⟨c, settled, above⟩ := Clearing.settled_total
      (c := { l.clearing with accounts := funds }) numbered' sound.below
      (fun x d => by
        rw [← debits_taken admitted.holds admitted.unfilled sound.backed claimed load written
          frozen x d]
        exact Nat.le_add_right _ _)
      (fun d => by
        rw [frozen.supply d]
        exact words.supply d)
    refine ⟨c, settled, ?_⟩
    rw [taken, next]
    rwa [trades] at above

theorem takeOnce_sound [Build] (release : Build.isChecked = false)
    (admitted : Admitted params.baseCurrency l a) (sound : l.Sound params.baseCurrency height)
    (words : l.InRange) (run : takeOnce a params height l = .ok done l') :
    l'.Sound params.baseCurrency height := by
  have backed := takeOnce_backed admitted.holds admitted.unfilled sound.backed run
  obtain ⟨s₁, b₀, c, s₂, funds, clearing, claimed, loaded, ended, written, frozen, settled,
    batch, rfl⟩ := takeOnce_ok run
  obtain ⟨b, s, load, total, wrote, ready, room, settles⟩ :=
    taken_total release admitted sound words claimed
  obtain rfl := Except.ok.inj (loaded.symm.trans load)
  obtain rfl := Except.ok.inj (ended.symm.trans total)
  rw [written] at wrote
  obtain ⟨-, rfl⟩ := EStateM.Result.ok.inj wrote
  obtain ⟨c, settled', below⟩ := settles funds (Accounts.freezeAll_ok sound.backed.range frozen).1
  have same : done.batch = l.takenBatch a params height b₀ := batch
  rw [same, settled'] at settled
  obtain rfl := Except.ok.inj settled
  exact ⟨backed, ready, room, below⟩

theorem takeOnce_mild [Build] (release : Build.isChecked = false)
    (admitted : Admitted params.baseCurrency l a) (sound : l.Sound params.baseCurrency height)
    (words : l.InRange) :
    (takeOnce a params height).MildAt l := by
  have claim : (onStore (.change fun s => s.claimId a.order.id)).MildAt l :=
    Action.mildAt_within (Action.mildAt_change (claimId_mild l.store a.order.id))
  apply claim.bind
  intro _ _ step
  obtain ⟨s₁, claimed, rfl⟩ := onStore_change_ok.1 step
  obtain ⟨b₀, s₂, load, total, written, -, -, settles⟩ :=
    taken_total release admitted sound words claimed
  apply Action.mildAt_of_ok (onStore_ask_ok.2 ⟨load, rfl⟩)
  apply Action.mildAt_of_ok (Action.get_ok.2 ⟨rfl, rfl⟩)
  have batch : (finishTaker (l.taken a params height b₀).1.finish
    (matchIncoming (venue params height) l.nextFill b₀ a.order).2 params.baseCurrency).1 =
      l.takenBatch a params height b₀ := rfl
  dsimp only [withStore_nextFill]
  rw [show (⟨height, params.feeCollector, params.baseCurrency⟩ : Venue) = venue params height
    from rfl]
  generalize matchIncoming (venue params height) l.nextFill b₀ a.order = out at *
  obtain ⟨matched, taker⟩ := out
  refine Action.mildAt_of_ok (Action.ask_ok.2 ⟨total, rfl⟩) ?_
  apply Action.mildAt_of_ok (onStore_ok.2 ⟨s₂, written, rfl⟩)
  dsimp only at batch ⊢
  generalize finishTaker (l.taken a params height b₀).1.finish taker params.baseCurrency = out
    at batch ⊢
  obtain ⟨settling, taker'⟩ := out
  obtain rfl : settling = l.takenBatch a params height b₀ := batch
  apply (freeze_mild (l := l.withStore s₂) sound.backed.range _ _).bind
  intro _ _ step
  obtain ⟨funds, frozen, rfl⟩ := onAccounts_ok.1 step
  obtain ⟨c, settled, -⟩ := settles funds (Accounts.freezeAll_ok sound.backed.range frozen).1
  apply Action.mildAt_of_ok (a := ()) (Action.orUndo_ok.2 (settle_ok.2 ⟨c, settled, rfl⟩))
  exact Action.mildAt_of_ok (a := ⟨⟩) (Action.modify_ok.2 rfl) (Action.mildAt_pure _ _)

/-- Admission lets through what is covered. -/
theorem admitted_of_pass {m : PlaceOrder} {pair : Pair} {reference : Decimal}
    (checked : (Message.placeOrder m).check = .ok ()) (word : m.quantity < Word.size)
    (sound : l.Sound params.baseCurrency height) (found : l.store.lookup m.symbol = .ok pair)
    (passed : m.pass params pair reference tokens l.clearing.accounts height = .ok a) :
    Admitted params.baseCurrency l a := by
  have holds := pass_held (sound.backed.pair_faithful found) passed
  obtain ⟨principal, fee, -, put, -, -, order⟩ := pass_ok passed
  simp only [Message.check, Check.bind_ok, Check.guard_ok] at checked
  obtain ⟨-, -, -, -, -, -, positive, -⟩ := checked
  obtain ⟨q, -, stored⟩ := Store.lookup_ok found
  refine ⟨?_, ?_, ?_, holds⟩
  · rw [order]
    exact positive
  · rw [order]
    rw [PlaceOrder.principal] at put
    cases side : m.side with
    | buy =>
        simp only [side] at put
        obtain ⟨n, priced, made⟩ := Check.bind_ok.1 put
        obtain rfl := Check.pure_ok.1 made
        obtain ⟨small, covers⟩ := Fee.buyPrincipal_covers priced
        refine ⟨word, small, fun _ => covers, fun sells => ?_⟩
        have buys : m.side = .sell := sells
        rw [side] at buys
        cases buys
    | sell =>
        simp only [side, Except.ok.injEq] at put
        obtain rfl := put
        refine ⟨word, word, fun buys => ?_, fun _ => rfl⟩
        have sells : m.side = .buy := buys
        rw [side] at sells
        cases sells
  · have own : a.order.pair = q := by
      rw [order]
      exact sound.ready.tables.pair_id q pair stored
    rw [own, stored]
    rfl

end Orders

section Cancelling

variable {m : CancelOrder}

/-- What a cancellation releases is frozen. -/
theorem cancelled_total {id : OrderId} {reason : CancelReason} {out : Order × List Effect}
    {s : Store} (sound : l.Sound base height) (words : l.InRange)
    (run : l.store.cancel id reason base = .ok (out, s)) :
    ∃ c, l.clearing.settled { effects := out.2 } = .ok c ∧
      Replay.Below c.watermark ⟨height, l.nextFill⟩ := by
  have balanced := (Store.cancel_balanced (v := ⟨height, ⟨""⟩, base⟩) run).held
  refine Clearing.settled_total (b := { effects := out.2 }) (.nil l.nextFill) sound.below
    (fun x d => ?_) words.supply
  have before := sound.backed.frozen x d
  have released := balanced x d
  dsimp only at released ⊢
  omega

theorem cancel_sound (sound : l.Sound params.baseCurrency height) (words : l.InRange)
    (run : cancelOrder m params l = .ok done l') : l'.Sound params.baseCurrency height := by
  have backed := cancel_backed height sound.backed run
  obtain ⟨out, s, clearing, cancelled, settled, batch, rfl⟩ := cancelOrder_ok run
  obtain ⟨c, settled', below⟩ := cancelled_total sound words cancelled
  rw [batch, settled'] at settled
  obtain rfl := Except.ok.inj settled
  obtain ⟨o, found, -, rfl⟩ := Store.cancel_ok cancelled
  obtain ⟨ready, fewer, usedIds⟩ := Store.erase_shrunk sound.ready (.order m.order (some o)) m.order
  refine ⟨backed, ready, ?_, below⟩
  rw [usedIds]
  exact (Nat.add_le_add_left fewer _).trans sound.room

theorem cancel_mild (sound : l.Sound params.baseCurrency height) (words : l.InRange) :
    (cancelOrder m params).MildAt l := by
  apply Action.mildAt_of_ok (Action.get_ok.2 ⟨rfl, rfl⟩)
  intro fault l' run
  obtain ⟨-, rfl, -⟩ | ⟨-, run⟩ := Action.guard_error.1 run
  · rfl
  have remove : (onStore (.take fun s => s.cancel m.order .manual params.baseCurrency)).MildAt l :=
    Action.mildAt_within (Action.mildAt_take (removal_mild l.store m.order .manual _))
  refine (remove.bind fun out _ step => ?_) fault l' run
  obtain ⟨s, cancelled, rfl⟩ := onStore_take_ok.1 step
  obtain ⟨c, settled, -⟩ := cancelled_total sound words cancelled
  exact Action.mildAt_of_ok (a := ()) (settle_ok.2 ⟨c, settled, rfl⟩) (Action.mildAt_pure _ _)

end Cancelling

section Steps

variable [Build] {msg : Message}

/-- Every message that succeeds keeps a ledger sound. -/
theorem execute_sound (release : Build.isChecked = false) (checked : msg.check = .ok ())
    (range : msg.InRange) (sound : l.Sound params.baseCurrency header.height) (words : l.InRange)
    (run : execute tokens params header msg l = .ok done l') :
    l'.Sound params.baseCurrency header.height := by
  cases msg with
  | createPair m =>
      obtain ⟨id, created, -⟩ := execute_create_ok run
      exact create_sound checked sound created
  | delistPair m =>
      obtain ⟨r, s, scheduled, -, rfl⟩ := execute_delist_ok run
      exact delist_sound sound scheduled
  | raisePrecision m =>
      obtain ⟨out, s, raised, -, rfl⟩ := execute_raise_ok run
      exact raise_sound sound raised
  | placeOrder m =>
      obtain ⟨pair, a, found, passed, run⟩ := placeOrder_ok run
      have admitted := admitted_of_pass checked range sound found passed
      obtain ⟨-, run⟩ | ⟨-, run⟩ := run
      · exact rest_sound admitted sound run
      · exact takeOnce_sound release admitted sound words run
  | cancelOrder m => exact cancel_sound sound words run

/-- And none that fails does so for a corruption. -/
theorem execute_mild (release : Build.isChecked = false) (checked : msg.check = .ok ())
    (range : msg.InRange) (sound : l.Sound params.baseCurrency header.height) (words : l.InRange) :
    (execute tokens params header msg).MildAt l := by
  cases msg with
  | createPair m => exact (create_mild sound).bind_pure
  | delistPair m =>
      have schedule := scheduleDelist_mild l.store params m header.time
      exact (Action.mildAt_within (Action.mildAt_take schedule)).bind_pure
  | raisePrecision m =>
      have raise : Check.Mild (Listing.raisePrecision m params l.store) :=
        raise_mild sound.ready.tables
      exact (Action.mildAt_within (Action.mildAt_take raise)).bind_pure
  | placeOrder m =>
      apply Action.mildAt_of_ok (Action.get_ok.2 ⟨rfl, rfl⟩)
      have lookup : (Action.ask fun _ => l.store.lookup m.symbol).MildAt l :=
        Action.mildAt_ask (lookup_mild l.store m.symbol)
      apply lookup.bind
      intro pair _ step
      obtain ⟨found, rfl⟩ := Action.ask_ok.1 step
      have gate (reference : Decimal) : (Action.ask fun _ =>
          m.pass params pair reference tokens l.clearing.accounts header.height).MildAt l :=
        Action.mildAt_ask (pass_mild _ _ _ _ _ _ _)
      apply (gate _).bind
      intro a _ step
      obtain ⟨passed, rfl⟩ := Action.ask_ok.1 step
      have admitted := admitted_of_pass checked range sound found passed
      cases m.timeInForce with
      | goodTillExpire => exact rest_mild sound.backed.range
      | immediateOrCancel => exact takeOnce_mild release admitted sound words
  | cancelOrder m => exact cancel_mild sound words

/-- A block end cannot fail, and keeps a ledger sound. -/
theorem endBlock_total (release : Build.isChecked = false)
    (sound : l.Sound params.baseCurrency header.height) (words : l.InRange) :
    ∃ out l', endBlock params header l = .ok out l' ∧
      l'.Sound params.baseCurrency header.height := by
  obtain ⟨due, listed, known⟩ :=
    Store.duePairs_total (Store.activePairs_listed sound.ready) header.height
  have room : l.nextFill + l.store.resting.length ≤ Word.size :=
    sound.room.trans (Nat.le_of_lt words.ids)
  obtain ⟨batch, seq, s₁, passed, matched⟩ := Store.matchPairs_total release sound.ready
    (fun q mem => Store.activePairs_listed sound.ready q (known q mem))
    (venue params header.height) room
  obtain ⟨sweep, s₂, swept, shrunk⟩ :=
    Store.sweepDue_total matched.ready header.time params.baseCurrency
  have balanced := (Store.matchPairs_balanced sound.ready.tables passed).append
    (Store.sweepDue_balanced (v := venue params header.height) swept)
  have trades : (batch ++ { effects := sweep.effects }).trades = batch.trades :=
    List.append_nil _
  have numbered : Trade.Numbered header.height l.nextFill
      (batch ++ { effects := sweep.effects }).trades := trades ▸ matched.numbered
  have enough (x : Address) (d : Denom) :
      Effect.debits (batch ++ { effects := sweep.effects }).effects x d ≤
        (l.clearing.accounts.holding x d).frozen := by
    have before := sound.backed.frozen x d
    have released := balanced.held x d
    change Effect.debits (batch.effects ++ sweep.effects) x d ≤ _
    dsimp only [venue] at released
    omega
  obtain ⟨c, settled, below⟩ := Clearing.settled_total numbered sound.below enough words.supply
  have run : endBlock params header l = .ok
      (Report.of header.height (batch ++ { effects := sweep.effects }).trades sweep,
        batch ++ { effects := sweep.effects }) ⟨s₂, c, seq⟩ :=
    endBlock_ok.2 ⟨due, batch, seq, s₁, sweep, s₂, c, listed, passed, swept, settled, rfl, rfl, rfl⟩
  have backed := endBlock_backed sound.backed run
  refine ⟨_, _, run, backed, shrunk.ready, ?_, ?_⟩
  · rw [shrunk.usedIds, matched.usedIds]
    exact ((Nat.add_le_add_left shrunk.fewer _).trans matched.room).trans sound.room
  · rw [trades, ← matched.next] at below
    exact below

end Steps

end Ledger

end Bourse
