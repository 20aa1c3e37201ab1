import Bourse.Proofs.Runs

/-!
# Orders rest in listed markets

* `Store.Anchored`: the market of every resting order is listed;
* `upkeep_anchored`: matching and delisting keep this, as only a market without orders is removed;
* `execute_anchored`, `endBlock_anchored`: and so do all messages and block ends;
* `Run.anchored`: it holds in every state of every run, whatever markets are put in.
-/

namespace Bourse

namespace Store

structure Anchored (s : Store) : Prop where
  tables : s.tables.WellFormed
  market : ∀ (k : OrderId) (o : Order), s.order? k = some o → (s.pair? o.pair).isSome

/-- What was anchored stays so. -/
def StaysAnchored (s s' : Store) : Prop := s.Anchored → s'.Anchored

instance : Std.Refl StaysAnchored := ⟨fun _ => id⟩

instance : Trans StaysAnchored StaysAnchored StaysAnchored :=
  ⟨fun first second anchored => second (first anchored)⟩

variable {s s' : Store}

theorem Anchored.opened (anchored : s.Anchored) : s.openJournal.Anchored :=
  ⟨anchored.tables, anchored.market⟩

theorem Anchored.committed (anchored : s.Anchored) : s.commit.Anchored :=
  ⟨anchored.tables, anchored.market⟩

/-- No order comes or changes its market, and no market goes. -/
theorem Anchored.of_fewer (anchored : s.Anchored) (wf : s'.tables.WellFormed)
    (orders : ∀ (k : OrderId) (o : Order), s'.order? k = some o →
      ∃ before, s.order? k = some before ∧ before.pair = o.pair)
    (pairs : ∀ p, (s.pair? p).isSome → (s'.pair? p).isSome) : s'.Anchored := by
  refine ⟨wf, fun k o found => ?_⟩
  obtain ⟨before, stored, same⟩ := orders k o found
  rw [← same]
  exact pairs _ (anchored.market k before stored)

theorem Anchored.of_delists {delists : Std.ExtTreeSet DelistRequest} (anchored : s.Anchored)
    (same : s'.tables = { s.tables with delists }) : s'.Anchored := by
  have wf : s'.tables.WellFormed := same ▸ anchored.tables.withDelists delists
  refine anchored.of_fewer wf (fun k o found => ⟨o, ?_, rfl⟩) fun p known => ?_
  · rwa [order?, same] at found
  · rwa [pair?, same]

theorem Anchored.setPair (anchored : s.Anchored) (p : Pair) : (s.setPair p).Anchored := by
  have wf : (s.setPair p).tables.WellFormed := anchored.tables.insertPair p
  refine anchored.of_fewer wf (fun k o found => ⟨o, found, rfl⟩) fun q known => ?_
  rw [pair?_setPair]
  split
  · rfl
  · exact known

/-- Matching and delisting leave every order its market. -/
theorem upkeep_anchored : Upkeep StaysAnchored where
  removeOrder run anchored := by
    have wf := (removeOrder_extends run anchored.tables).1
    obtain ⟨-, rfl⟩ := removeOrder_ok.1 run
    refine anchored.of_fewer wf (fun k o found => ⟨o, ?_, rfl⟩) fun p known => ?_
    · rw [order?, write, Tables.eraseOrder_orders, Maps.getElem?_erase] at found
      split at found
      · cases found
      · exact found
    · rwa [pair?, write, Tables.eraseOrder_pairs]
  updateOrder run anchored := by
    have wf := (updateOrder_extends run anchored.tables).1
    obtain ⟨before, stored, same, rfl⟩ := updateOrder_ok.1 run
    refine anchored.of_fewer wf (fun k o' found => ?_) fun p known => known
    rw [order?, write, Tables.replaceOrder, Maps.getElem?_insert] at found
    split at found
    · next hit => exact ⟨before, hit ▸ stored, Option.some.inj found ▸ same⟩
    · exact ⟨o', found, rfl⟩
  setLastPrice run anchored := by
    obtain ⟨p, -, rfl⟩ := setLastPrice_ok run
    exact anchored.setPair _
  removePair {s id _ s'} run anchored := by
    have wf := (removePair_extends run anchored.tables).1
    obtain ⟨bare, orders, -, pairs⟩ := removePair_ok run
    refine ⟨wf, fun k o found => ?_⟩
    rw [order?, orders] at found
    -- No order of the market that goes is left.
    have apart : id ≠ o.pair := by
      intro here
      have indexed := (anchored.tables.mem_indexed id k).2 ⟨o, found, here.symm⟩
      rw [bare] at indexed
      exact Std.ExtTreeSet.not_mem_empty indexed
    rw [pair?, pairs, Maps.getElem?_erase, if_neg apart]
    exact anchored.market k o found
  removeDelist s r anchored := anchored.of_delists (removeDelist_tables s r)

theorem Anchored.claimId {id : OrderId} (anchored : s.Anchored) (run : s.claimId id = .ok s') :
    s'.Anchored := by
  obtain ⟨-, -, rfl⟩ := claimId_ok.1 run
  exact ⟨anchored.tables.useId id, anchored.market⟩

/-- An order of a listed market may be stored. -/
theorem Anchored.putOrder {o : Order} (anchored : s.Anchored) (listed : (s.pair? o.pair).isSome)
    (run : s.putOrder o = .ok s') : s'.Anchored := by
  have wf := (putOrder_extends run anchored.tables).1
  obtain ⟨-, -, rfl⟩ := putOrder_ok.1 run
  refine ⟨wf, fun k o' found => ?_⟩
  rw [order?, write, Tables.insertOrder_orders, Maps.getElem?_insert] at found
  split at found
  · rw [← Option.some.inj found]
    exact listed
  · exact anchored.market k o' found

/-- A market that was just listed can be taken back, since no order rests on it yet. -/
theorem Anchored.removePair_new (anchored : s.Anchored) {p : Pair} (absent : s.pair? p.id = none) :
    ∃ out s', (s.setPair p).removePair p.id = .ok (out, s') := by
  apply removePair_total
  apply Std.ExtTreeSet.eq_empty_iff_forall_not_mem.2
  intro k indexed
  obtain ⟨o, found, market⟩ := (anchored.tables.mem_indexed p.id k).1 indexed
  have known := anchored.market k o found
  rw [market, absent] at known
  cases known

end Store

namespace Ledger

variable {l l' : Ledger} {tokens : Tokens} {params : Params} {header : Header} {done : Executed}
  {msg : Message}

/-- Every message that is carried out leaves every order its market. -/
theorem execute_anchored [Build] (anchored : l.store.Anchored)
    (run : execute tokens params header msg l = .ok done l') : l'.store.Anchored := by
  cases msg with
  | createPair m =>
      obtain ⟨id, created, -⟩ := execute_create_ok run
      obtain ⟨s, funds, -, listed, -, rfl⟩ := create_ok created
      obtain ⟨-, rfl⟩ := Store.insertPair_ok.1 listed
      exact anchored.setPair _
  | delistPair m =>
      obtain ⟨r, s, scheduled, -, rfl⟩ := execute_delist_ok run
      obtain ⟨-, -, -, -, -, same⟩ := Store.scheduleDelist_ok scheduled
      exact anchored.of_delists same
  | raisePrecision m =>
      obtain ⟨out, s, raised, -, rfl⟩ := execute_raise_ok run
      obtain ⟨p, -, -, -, rfl⟩ := Store.raisePrecision_ok raised
      exact anchored.setPair _
  | placeOrder m =>
      obtain ⟨pair, a, found, passed, ⟨-, run⟩ | ⟨-, run⟩⟩ := placeOrder_ok run
      · obtain ⟨s, funds, stored, -, -, rfl⟩ := rest_ok run
        obtain ⟨q, -, here⟩ := Store.lookup_ok found
        obtain ⟨_, _, -, -, -, -, order⟩ := pass_ok passed
        have own : a.order.pair = q := by
          rw [order]
          exact anchored.tables.pair_id q pair here
        exact anchored.putOrder (by rw [own, here]; rfl) stored
      · obtain ⟨s₁, _, c, s₂, _, _, claimed, -, -, written, -, -, -, rfl⟩ := takeOnce_ok run
        exact (Store.upkeep_anchored.writeBack a.order.pair c).ok written (anchored.claimId claimed)
  | cancelOrder m =>
      obtain ⟨out, s, clearing, cancelled, -, -, rfl⟩ := cancelOrder_ok run
      exact Store.upkeep_anchored.cancel cancelled anchored

/-- And so does a block end. -/
theorem endBlock_anchored [Build] {out : Report × Batch} (anchored : l.store.Anchored)
    (run : endBlock params header l = .ok out l') : l'.store.Anchored := by
  obtain ⟨report, batch⟩ := out
  obtain ⟨due, _, _, s₁, _, s₂, _, -, passed, swept, -, -, -, rfl⟩ := endBlock_ok.1 run
  have matched := (Store.upkeep_anchored.matchPairs _ due _).ok passed anchored
  exact (Store.upkeep_anchored.sweepDue header.time).ok swept matched

end Ledger

namespace Market

variable {m m' : Market} {e : Event} {h : History}

theorem Call.anchored [Build] (call : Call m e m') (intact : m.Intact)
    (anchored : m.ledger.store.Anchored) : m'.ledger.store.Anchored := by
  cases call with
  | beginBlock header => exact anchored
  | deliver msg =>
      obtain ⟨-, same, -⟩ | ⟨done, -, -, run⟩ := intact.deliver_cases msg
      · rw [same]
        exact anchored
      · obtain ⟨l, acted, same⟩ := Market.apply_ok run
        rw [same]
        exact (Ledger.execute_anchored anchored.opened acted).committed
  | endBlock header =>
      obtain ⟨_, -, run⟩ | ⟨report, batch, -, run⟩ := m.endBlock_cases header
      · rw [intact.closeBlock_error run]
        exact anchored
      · obtain ⟨l, acted, same⟩ := Market.closeBlock_ok run
        rw [same]
        exact (Ledger.endBlock_anchored anchored.opened acted).committed
  | setPair pair => exact anchored.setPair pair
  | accounts _ => exact anchored
  | params _ => exact anchored
  | tokens _ => exact anchored

/-- Along every run, whatever is fed to it, no order rests without its market. -/
theorem Run.anchored [Build] (run : Run h m) : m.ledger.store.Anchored := by
  induction run with
  | start tokens params _ =>
      refine ⟨Tables.wellFormed_empty, fun k o found => ?_⟩
      have none : (∅ : Std.ExtTreeMap OrderId Order)[k]? = .none :=
        Std.ExtTreeMap.getElem?_empty
      exact absurd (none.symm.trans found) nofun
  | call run call ih => exact call.anchored run.intact ih

end Market

end Bourse
