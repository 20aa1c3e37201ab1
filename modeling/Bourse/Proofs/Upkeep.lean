import Bourse.Market.BlockEnd
import Bourse.Proofs.Action
import Bourse.Proofs.Journal

/-!
# What matching and delisting write

Matching and delisting work on the store by five writes. A relation that holds across each of them
(`Upkeep`) holds across a pass, across the matching of several markets and across a sweep, whether
or not these fail. What each removal of a sweep keeps of its account and the store (`Sweeping`), a
sweep that succeeds keeps.
-/

namespace Bourse.Store

open Bourse.Action (Keeps)

/-- The relation holds across every write that matching and delisting make. -/
structure Upkeep (R : Store → Store → Prop) : Prop where
  removeOrder : ∀ {s id o s'}, s.removeOrder id = .ok (o, s') → R s s'
  updateOrder : ∀ {s o s'}, s.updateOrder o = .ok s' → R s s'
  setLastPrice : ∀ {s id price s'}, s.setLastPrice id price = .ok s' → R s s'
  removePair : ∀ {s id p s'}, s.removePair id = .ok (p, s') → R s s'
  removeDelist : ∀ s r, R s (s.removeDelist r).2

namespace Upkeep

variable {R : Store → Store → Prop} [Std.Refl R] [Trans R R R] (upkeep : Upkeep R) {base : Denom}

include upkeep

omit [Std.Refl R] [Trans R R R] in
theorem removeFilled {s s' : Store} {o : Order} (run : s.removeFilled o = .ok s') : R s s' := by
  rw [Store.removeFilled] at run
  split at run
  · next removed =>
      rw [← Except.ok.inj run]
      exact upkeep.removeOrder removed
  · cases run

omit [Std.Refl R] [Trans R R R] in
theorem cancel {s s' : Store} {id : OrderId} {reason : CancelReason} {out : Order × List Effect}
    (run : s.cancel id reason base = .ok (out, s')) : R s s' := by
  obtain ⟨⟨o, t⟩, removed, run⟩ := Check.bind_ok.1 run
  have same := (Prod.mk.inj (Check.pure_ok.1 run)).2
  exact same ▸ upkeep.removeOrder removed

theorem writeBack (pair : PairId) (c : Crossing) : Keeps R (writeBack pair c) := by
  refine (Action.keeps_forM (fun o => ?_) c.filled).bind fun _ =>
    (Action.keeps_forM (fun o => ?_) c.updated).bind fun _ => ?_
  · exact Action.keeps_change fun _ _ => upkeep.removeFilled
  · exact Action.keeps_change fun _ _ => upkeep.updateOrder
  · split
    · exact Action.keeps_change fun _ _ => upkeep.setLastPrice
    · exact Action.keeps_pure _

theorem matchPair [Build] (v : Venue) (nextFill : Nat) (pair : PairId) :
    Keeps R (matchPair v nextFill pair) := by
  refine (Action.keeps_ask _).bind fun book => (Action.keeps_ask _).bind fun c => ?_
  split
  · exact (Action.keeps_pure _).bind fun _ => Action.keeps_pure _
  · exact (upkeep.writeBack pair c).bind fun _ => Action.keeps_pure _

theorem matchPairs [Build] (v : Venue) (pairs : List PairId) :
    ∀ nextFill, Keeps R (matchPairs v nextFill pairs) := by
  induction pairs with
  | nil => exact fun _ => Action.keeps_pure _
  | cons id rest ih =>
      exact fun nextFill => (upkeep.matchPair v nextFill id).bind fun out =>
        (ih out.2).bind fun _ => Action.keeps_pure _

theorem expireOrders (ids : List OrderId) :
    ∀ sweep, Keeps R (expireOrders base sweep ids) := by
  induction ids with
  | nil => exact fun _ => Action.keeps_pure _
  | cons id rest ih =>
      exact fun sweep => (Action.keeps_take fun _ _ _ => upkeep.cancel).bind fun _ => ih _

theorem delist (sweep : Sweep) (pair : PairId) : Keeps R (delist base sweep pair) :=
  Action.keeps_get.bind fun _ => (upkeep.expireOrders _ _).bind fun _ =>
    (Action.keeps_take fun _ _ _ => upkeep.removePair).bind fun _ => Action.keeps_pure _

theorem carryOut (requests : List DelistRequest) :
    ∀ sweep, Keeps R (carryOut base sweep requests) := by
  induction requests with
  | nil => exact fun _ => Action.keeps_pure _
  | cons r rest ih =>
      intro sweep
      refine Action.keeps_get.bind fun s => ?_
      have used : Keeps R (modify fun s => (s.removeDelist r).2 : Action Store PUnit) :=
        Action.keeps_modify fun s => upkeep.removeDelist s r
      split
      · exact (upkeep.delist sweep r.pair).bind fun _ => used.bind fun _ => ih _
      · exact (Action.keeps_pure _).bind fun _ => used.bind fun _ => ih _

theorem sweepDue (now : Int) : Keeps R (sweepDue now base) :=
  Action.keeps_get.bind fun _ => upkeep.carryOut _ _

end Upkeep

/-- The property holds on after each removal that a sweep makes. -/
structure Sweeping (base : Denom) (P : Sweep → Store → Prop) : Prop where
  cancel : ∀ {sweep s id out s'}, P sweep s → s.cancel id .delist base = .ok (out, s') →
    P { sweep with
        cancelled := sweep.cancelled ++ [out.1]
        effects := sweep.effects ++ out.2 } s'
  removePair : ∀ {sweep s p q s'}, P sweep s → s.removePair p = .ok (q, s') →
    P { sweep with delisted := sweep.delisted ++ [p] } s'
  removeDelist : ∀ {sweep s} r, P sweep s → P sweep (s.removeDelist r).2

namespace Sweeping

variable {base : Denom} {P : Sweep → Store → Prop} (sweeping : Sweeping base P) {s s' : Store}
  {sweep sweep' : Sweep}

include sweeping

theorem expireOrders {ids : List OrderId} (holds : P sweep s)
    (run : expireOrders base sweep ids s = .ok sweep' s') : P sweep' s' := by
  induction ids generalizing s sweep with
  | nil =>
      obtain ⟨rfl, rfl⟩ := Action.pure_ok.1 run
      exact holds
  | cons id rest ih =>
      obtain ⟨out, t, cancelled, run⟩ := Action.bind_ok.1 run
      exact ih (sweeping.cancel holds (Action.take_ok.1 cancelled)) run

theorem delist {p : PairId} (holds : P sweep s)
    (run : delist base sweep p s = .ok sweep' s') : P sweep' s' := by
  obtain ⟨_, _, read, run⟩ := Action.bind_ok.1 run
  obtain ⟨rfl, rfl⟩ := Action.get_ok.1 read
  obtain ⟨swept, t, expired, run⟩ := Action.bind_ok.1 run
  obtain ⟨_, t', removed, run⟩ := Action.bind_ok.1 run
  obtain ⟨rfl, rfl⟩ := Action.pure_ok.1 run
  exact sweeping.removePair (sweeping.expireOrders holds expired) (Action.take_ok.1 removed)

theorem carryOut {requests : List DelistRequest} (holds : P sweep s)
    (run : carryOut base sweep requests s = .ok sweep' s') : P sweep' s' := by
  induction requests generalizing s sweep with
  | nil =>
      obtain ⟨rfl, rfl⟩ := Action.pure_ok.1 run
      exact holds
  | cons r rest ih =>
      obtain ⟨_, _, read, run⟩ := Action.bind_ok.1 run
      obtain ⟨rfl, rfl⟩ := Action.get_ok.1 read
      dsimp only at run
      split at run
      · obtain ⟨sweep₁, t, delisted, run⟩ := Action.bind_ok.1 run
        obtain ⟨_, t', noted, run⟩ := Action.bind_ok.1 run
        rw [← Action.modify_ok.1 noted] at run
        exact ih (sweeping.removeDelist r (sweeping.delist holds delisted)) run
      · obtain ⟨sweep₁, t, idle, run⟩ := Action.bind_ok.1 run
        obtain ⟨rfl, rfl⟩ := Action.pure_ok.1 idle
        obtain ⟨_, t', noted, run⟩ := Action.bind_ok.1 run
        rw [← Action.modify_ok.1 noted] at run
        exact ih (sweeping.removeDelist r holds) run

theorem sweepDue {now : Int} (holds : P {} s) (run : sweepDue now base s = .ok sweep s') :
    P sweep s' := by
  obtain ⟨_, _, read, run⟩ := Action.bind_ok.1 run
  obtain ⟨rfl, rfl⟩ := Action.get_ok.1 read
  exact sweeping.carryOut holds run

end Sweeping

/-- Matching and delisting note how each of their writes is undone. -/
theorem upkeep_extends : Upkeep Extends where
  removeOrder := removeOrder_extends
  updateOrder := updateOrder_extends
  setLastPrice run := by
    rw [setLastPrice] at run
    split at run
    · exact updatePair_extends run
    · cases run
  removePair := removePair_extends
  removeDelist := removeDelist_extends

end Bourse.Store
