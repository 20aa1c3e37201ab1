import Bourse.Proofs.Replay
import Bourse.Proofs.Runs

/-!
# No fill settles twice

The number of the next fill is reset when a block begins, and heights may be repeated, so two fills
may well bear one key. The guard then refuses the later one.

* `Replay.check_ok`: the trades that the guard accepts rise from its watermark on;
* `Clearing.Settles`: what the clearing notes of the trades it settles; every call of a run settles
  the trades of its event (`Intact.settles`);
* `Recorded`: the trades settled so far rise, and the clearing knows their last key and their
  number; `Recorded.append`: more trades keep this;
* `fills_settle_once`: so along every run no fill is settled twice.
-/

namespace Bourse

namespace FillKey

variable {k l m : FillKey}

theorem lt_trans (first : k < l) (second : l < m) : k < m := by
  rw [lt_iff] at first second ⊢
  omega

theorem lt_irrefl (k : FillKey) : ¬k < k := by
  rw [lt_iff]
  omega

end FillKey

namespace Replay

variable {watermark next : Option FillKey} {key : FillKey} {trades : List Trade}

theorem below_of_not_settled (fresh : isSettled watermark key = false) : Below watermark key := by
  intro last mem
  rw [Option.mem_def.1 mem] at fresh
  simp only [isSettled, Option.any_some, decide_eq_false_iff_not] at fresh
  exact Decidable.not_not.1 fresh

/-- What the guard accepts bears the names of its fills and rises from the watermark on; the next
watermark is the last of it. -/
theorem check_ok (accepted : check watermark trades = .ok next) :
    (∀ t ∈ trades, t.id = .ofFill t.height t.fillSeq) ∧
    (trades.map Trade.key).Pairwise (· < ·) ∧ (∀ t ∈ trades, Below watermark t.key) ∧
    next = (trades.map Trade.key).getLast?.or watermark := by
  induction trades generalizing watermark with
  | nil =>
      obtain rfl := Except.ok.inj accepted
      simp
  | cons t rest ih =>
      rw [check] at accepted
      split at accepted
      · cases accepted
      · next named =>
          split at accepted
          · cases accepted
          · next fresh =>
              obtain ⟨names, rising, above, last⟩ := ih accepted
              have below := below_of_not_settled (Bool.not_eq_true _ ▸ fresh)
              have higher : ∀ t' ∈ rest, t.key < t'.key := fun t' mem => above t' mem t.key rfl
              refine ⟨?_, ?_, ?_, ?_⟩
              · exact List.forall_mem_cons.2 ⟨Decidable.not_not.1 named, names⟩
              · exact List.pairwise_cons.2 ⟨List.forall_mem_map.2 higher, rising⟩
              · refine List.forall_mem_cons.2 ⟨below, fun t' mem k known => ?_⟩
                exact FillKey.lt_trans (below k known) (higher t' mem)
              · rw [last, List.map_cons, List.getLast?_cons]
                cases (rest.map Trade.key).getLast? <;> rfl

/-- The guard refuses with a corruption only. -/
theorem check_error {fault : Fault} (refused : check watermark trades = .error fault) :
    ∃ reason, fault = .corruption reason := by
  induction trades generalizing watermark with
  | nil => cases refused
  | cons t rest ih =>
      rw [check] at refused
      split at refused
      · exact ⟨_, (Except.error.inj refused).symm⟩
      · split at refused
        · exact ⟨_, (Except.error.inj refused).symm⟩
        · exact ih refused

theorem advance_of_check (accepted : check watermark trades = .ok next) :
    advance watermark next = next := by
  obtain ⟨-, -, above, rfl⟩ := check_ok accepted
  cases known : watermark with
  | none => rfl
  | some last =>
      cases end? : (trades.map Trade.key).getLast? with
      | none => simp [advance]
      | some key =>
          obtain ⟨t, mem, rfl⟩ := List.mem_map.1 (List.mem_of_getLast? end?)
          rw [Option.some_or, advance, if_pos (above t mem last known)]

end Replay

namespace Clearing

variable {c c' : Clearing} {b : Batch} {trades more : List Trade}

/-- The guard accepts the trades, and they are noted and counted. -/
structure Settles (c : Clearing) (trades : List Trade) (c' : Clearing) : Prop where
  accepted : Replay.check c.watermark trades = .ok c'.watermark
  counted : c'.settledTrades = Word.wrapAdd c.settledTrades trades.length

theorem settles_nothing (counted : c.settledTrades < Word.size)
    (watermark : c'.watermark = c.watermark) (count : c'.settledTrades = c.settledTrades) :
    c.Settles [] c' :=
  ⟨by rw [watermark]; rfl, count.trans (Nat.mod_eq_of_lt counted).symm⟩

theorem settles_of_settled (run : c.settled b = .ok c') : c.Settles b.trades c' := by
  obtain ⟨watermark, accounts, accepted, -, rfl⟩ := settled_ok.1 run
  refine ⟨?_, rfl⟩
  rw [note, Replay.advance_of_check accepted]
  exact accepted

/-- Settled trades rise, bear the names of their fills, and the clearing knows the last key and the
number of them. -/
structure Recorded (trades : List Trade) (c : Clearing) : Prop where
  named : ∀ t ∈ trades, t.id = .ofFill t.height t.fillSeq
  rising : (trades.map Trade.key).Pairwise (· < ·)
  last : c.watermark = (trades.map Trade.key).getLast?
  counted : c.settledTrades = trades.length % Word.size

/-- What lies above the watermark lies above every settled fill. -/
theorem Recorded.lt_of_below (recorded : Recorded trades c) {key : FillKey}
    (below : Replay.Below c.watermark key) : ∀ k ∈ trades.map Trade.key, k < key := by
  intro k mem
  have full : trades.map Trade.key ≠ [] := List.ne_nil_of_mem mem
  have rising := recorded.rising
  have less := below _ (recorded.last.trans (List.getLast?_eq_some_getLast full))
  rw [← List.dropLast_append_getLast full] at rising mem
  obtain mem | mem := List.mem_append.1 mem
  · exact FillKey.lt_trans ((List.pairwise_append.1 rising).2.2 k mem _ List.mem_cons_self) less
  · rwa [List.mem_singleton.1 mem]

/-- Trades that are settled next continue the record. -/
theorem Recorded.append (recorded : Recorded trades c) (settles : c.Settles more c') :
    Recorded (trades ++ more) c' := by
  obtain ⟨names, rising, above, last⟩ := Replay.check_ok settles.accepted
  refine ⟨?_, ?_, ?_, ?_⟩
  · exact List.forall_mem_append.2 ⟨recorded.named, names⟩
  · rw [List.map_append, List.pairwise_append]
    refine ⟨recorded.rising, rising, fun k settled key new => ?_⟩
    obtain ⟨t, mem, rfl⟩ := List.mem_map.1 new
    exact recorded.lt_of_below (above t mem) k settled
  · rw [last, recorded.last, List.map_append, List.getLast?_append]
  · rw [settles.counted, recorded.counted, Word.wrapAdd, List.length_append, Nat.mod_add_mod]

/-- A batch with a fill that was settled is refused, and nothing changes. -/
theorem Recorded.refuses (recorded : Recorded trades c) {t : Trade} (mem : t ∈ b.trades)
    (settled : t.key ∈ trades.map Trade.key) :
    ∃ reason, settle b c = .error (.corruption reason) c := by
  rw [settle_eq_change]
  cases guard : Replay.check c.watermark b.trades with
  | ok watermark =>
      have above := (Replay.check_ok guard).2.2.1 t mem
      exact absurd (recorded.lt_of_below above _ settled) (FillKey.lt_irrefl t.key)
  | error fault =>
      obtain ⟨reason, rfl⟩ := Replay.check_error guard
      refine ⟨reason, Action.change_error.2 ⟨?_, rfl⟩⟩
      rw [Clearing.settled, guard]
      rfl

end Clearing

namespace Ledger

variable {l l' : Ledger} {tokens : Tokens} {params : Params} {header : Header} {done : Executed}
  {report : Report} {batch : Batch} {msg : Message}

/-- A message settles the trades of its batch. -/
theorem execute_settles [Build] (counted : l.clearing.settledTrades < Word.size)
    (run : execute tokens params header msg l = .ok done l') :
    l.clearing.Settles done.batch.trades l'.clearing := by
  have nothing : ∀ {l' : Ledger} {done : Executed}, done.batch = {} →
      l'.clearing.watermark = l.clearing.watermark →
      l'.clearing.settledTrades = l.clearing.settledTrades →
      l.clearing.Settles done.batch.trades l'.clearing := by
    intro l' done none watermark count
    rw [none]
    exact Clearing.settles_nothing counted watermark count
  cases msg with
  | createPair m =>
      obtain ⟨id, created, batch⟩ := execute_create_ok run
      obtain ⟨s, funds, -, -, -, rfl⟩ := create_ok created
      exact nothing batch rfl rfl
  | delistPair m =>
      obtain ⟨r, s, -, batch, rfl⟩ := execute_delist_ok run
      exact nothing batch rfl rfl
  | raisePrecision m =>
      obtain ⟨out, s, -, batch, rfl⟩ := execute_raise_ok run
      exact nothing batch rfl rfl
  | placeOrder m =>
      obtain ⟨pair, a, -, -, ⟨-, run⟩ | ⟨-, run⟩⟩ := placeOrder_ok run
      · obtain ⟨s, funds, -, -, none, rfl⟩ := rest_ok run
        exact nothing none rfl rfl
      · obtain ⟨_, _, _, _, funds, clearing, -, -, -, -, -, settled, -, rfl⟩ := takeOnce_ok run
        have settles := Clearing.settles_of_settled settled
        exact ⟨settles.accepted, settles.counted⟩
  | cancelOrder m =>
      obtain ⟨out, s, clearing, -, settled, -, rfl⟩ := cancelOrder_ok run
      exact Clearing.settles_of_settled settled

/-- And so does a block end. -/
theorem endBlock_settles [Build] (run : endBlock params header l = .ok (report, batch) l') :
    l.clearing.Settles batch.trades l'.clearing := by
  obtain ⟨_, _, _, _, _, _, clearing, -, -, -, settled, -, -, rfl⟩ := endBlock_ok.1 run
  exact Clearing.settles_of_settled settled

end Ledger

namespace Market

variable {m m' : Market} {e : Event} {h : History}

/-- Every call settles the trades of its event. -/
theorem Intact.settles [Build] (intact : m.Intact) (call : Call m e m') :
    m.ledger.clearing.Settles e.batch.trades m'.ledger.clearing := by
  have nothing : ∀ {m' : Market}, m'.ledger.clearing.watermark = m.ledger.clearing.watermark →
      m'.ledger.clearing.settledTrades = m.ledger.clearing.settledTrades →
      m.ledger.clearing.Settles [] m'.ledger.clearing :=
    Clearing.settles_nothing intact.counted
  cases call with
  | beginBlock | setPair | accounts | params | tokens => exact nothing rfl rfl
  | deliver msg =>
      obtain ⟨-, same, idle⟩ | ⟨done, checked, -, run⟩ := intact.deliver_cases msg
      · rw [idle, same]
        exact nothing rfl rfl
      · rw [eventOf_ok checked run]
        obtain ⟨l, acted, same⟩ := Market.apply_ok run
        have opened :
            (m.ledger.withStore m.ledger.store.openJournal).clearing = m.ledger.clearing := rfl
        have settles := Ledger.execute_settles (opened ▸ intact.counted) acted
        rw [same]
        exact ⟨settles.accepted, settles.counted⟩
  | endBlock header =>
      obtain ⟨_, -, run⟩ | ⟨report, batch, -, run⟩ := m.endBlock_cases header
      · rw [eventAt_error run, intact.closeBlock_error run]
        exact nothing rfl rfl
      · rw [eventAt_ok run]
        obtain ⟨l, acted, same⟩ := Market.closeBlock_ok run
        have settles := Ledger.endBlock_settles acted
        rw [same]
        exact ⟨settles.accepted, settles.counted⟩

theorem Run.recorded [Build] (run : Run h m) : m.ledger.clearing.Recorded h.trades := by
  induction run with
  | start tokens params range => exact ⟨by simp, .nil, rfl, rfl⟩
  | call run step ih => exact ih.append (run.intact.settles step)

/-- Along every run, whatever the heights of its blocks, the fills that were settled rise in their
order and bear the names of their places; the watermark is the last of them, and they are counted by
a word. A batch with a fill that was settled is never settled again. -/
theorem fills_settle_once [Build] (run : Run h m) :
    (h.trades.map Trade.key).Pairwise (· < ·) ∧
    (∀ t ∈ h.trades, t.id = .ofFill t.height t.fillSeq) ∧
    m.ledger.clearing.watermark = h.trades.getLast?.map Trade.key ∧
    m.ledger.clearing.settledTrades = h.trades.length % Word.size ∧
    ∀ b : Batch, (∃ t ∈ b.trades, t.key ∈ h.trades.map Trade.key) →
      ∃ reason, Clearing.settle b m.ledger.clearing =
        .error (.corruption reason) m.ledger.clearing := by
  have recorded := run.recorded
  refine ⟨recorded.rising, recorded.named, ?_, recorded.counted, ?_⟩
  · rw [recorded.last, List.getLast?_map]
  · rintro b ⟨t, mem, settled⟩
    exact recorded.refuses mem settled

section Checked

attribute [local instance] Build.checked

/-- The bid is filled against the offer. If the block began again at its height, the next fill would
get the number of this one; but this one is not settled again. -/
theorem quoted_settle_once :
    let fill := (quoted.eventAt ⟨1, 0⟩).batch
    let again := (quoted.endBlock ⟨1, 0⟩).2.beginBlock ⟨1, 0⟩
    fill.trades.map Trade.key = [⟨1, 0⟩] ∧ again.ledger.nextFill = 0 ∧
      again.ledger.clearing.watermark = some ⟨1, 0⟩ ∧ again.ledger.clearing.settledTrades = 1 ∧
      ∃ reason, Clearing.settle fill again.ledger.clearing =
        .error (.corruption reason) again.ledger.clearing := by
  have before : quotedHistory.trades = [] := by decide +kernel
  have keys : (quoted.eventAt ⟨1, 0⟩).batch.trades.map Trade.key = [⟨1, 0⟩] := by decide +kernel
  have ended : Run _ (quoted.endBlock ⟨1, 0⟩).2 := quoted_run.call (.endBlock ⟨1, 0⟩)
  obtain ⟨-, -, last, counted, refused⟩ := fills_settle_once (ended.call (.beginBlock ⟨1, 0⟩))
  simp only [History.next, before, List.nil_append, List.append_nil] at last counted refused
  rw [← List.getLast?_map, keys] at last
  rw [← List.length_map (f := Trade.key), keys] at counted
  obtain ⟨t, mem, key⟩ := List.mem_map.1 (keys ▸ List.mem_cons_self :
    (⟨1, 0⟩ : FillKey) ∈ (quoted.eventAt ⟨1, 0⟩).batch.trades.map Trade.key)
  exact ⟨keys, rfl, last, counted, refused _ ⟨t, mem, List.mem_map_of_mem mem⟩⟩

end Checked

end Market

end Bourse
