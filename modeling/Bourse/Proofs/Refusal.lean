import Bourse.Market.Basic
import Bourse.Proofs.Escrow
import Bourse.Proofs.Writes

/-!
# Refusals that are no corruption

Whatever the checks of messages, of admission and of listing refuse, and whatever accounts refuse to
a user, they refuse with a fault that is not fatal (`Check.Mild`). Of actions this is said state by
state (`Action.MildAt`), since many of their steps cannot fail where they are taken.
-/

namespace Bourse

namespace Check

variable {α β : Type} {x : Except Fault α} {f : α → Except Fault β} {e fault : Fault} {a : α}

/-- No fault of the check is fatal. -/
def Mild (x : Except Fault α) : Prop := ∀ fault, x = .error fault → fault.isFatal = false

theorem mild_ok (a : α) : Mild (.ok a : Except Fault α) := nofun

theorem mild_pure (a : α) : Mild (pure a : Except Fault α) := nofun

theorem mild_error (harmless : e.isFatal = false) : Mild (.error e : Except Fault α) := by
  intro fault same
  rwa [← Except.error.inj same]

theorem Mild.bind (first : Mild x) (next : ∀ a, Mild (f a)) : Mild (x >>= f) := by
  intro fault failed
  obtain failed | ⟨a, -, failed⟩ := bind_error.1 failed
  · exact first fault failed
  · exact next a fault failed

theorem mild_guard {p : Prop} [Decidable p] {next : PUnit → Except Fault β}
    (harmless : e.isFatal = false) (rest : Mild (next ⟨⟩)) :
    Mild (if p then throw e >>= next else next ⟨⟩) := by
  intro fault failed
  obtain ⟨-, rfl⟩ | ⟨-, failed⟩ := guard_error.1 failed
  · exact harmless
  · exact rest fault failed

theorem mild_throw_if {p : Prop} [Decidable p] (harmless : e.isFatal = false) :
    Mild (if p then throw e else pure ⟨⟩ : Except Fault PUnit) := by
  split
  · exact mild_error harmless
  · exact mild_pure _

theorem mild_foldlM {γ : Type} {g : β → γ → Except Fault β} (each : ∀ b c, Mild (g b c))
    (l : List γ) (b : β) : Mild (l.foldlM g b) := by
  induction l generalizing b with
  | nil => exact mild_pure b
  | cons c rest ih =>
      rw [List.foldlM_cons]
      exact (each b c).bind ih

end Check

namespace Action

variable {σ τ α β : Type} {s t : σ} {x : Action σ α} {f : α → Action σ β} {a : α}

/-- The action does not fail for a corruption in this state. -/
def MildAt (x : Action σ α) (s : σ) : Prop :=
  ∀ fault s', x s = .error fault s' → fault.isFatal = false

theorem mildAt_pure (a : α) (s : σ) : MildAt (pure a) s :=
  fun _ _ failed => absurd failed pure_error

theorem MildAt.bind (first : MildAt x s) (next : ∀ a t, x s = .ok a t → MildAt (f a) t) :
    MildAt (x >>= f) s := by
  intro fault s' failed
  obtain failed | ⟨a, t, step, failed⟩ := bind_error.1 failed
  · exact first fault s' failed
  · exact next a t step fault s' failed

theorem MildAt.bind_pure {g : α → β} (mild : MildAt x s) : MildAt (x >>= fun a => pure (g a)) s :=
  mild.bind fun _ t _ => mildAt_pure _ t

/-- A step that succeeds can be passed over. -/
theorem mildAt_of_ok (step : x s = .ok a t) (rest : MildAt (f a) t) : MildAt (x >>= f) s := by
  refine MildAt.bind (fun fault s' failed => ?_) fun b u other => ?_
  · rw [step] at failed
    cases failed
  · rw [step] at other
    obtain ⟨rfl, rfl⟩ := EStateM.Result.ok.inj other
    exact rest

theorem mildAt_ask {f : σ → Except Fault α} (mild : Check.Mild (f s)) : MildAt (ask f) s :=
  fun fault _ failed => mild fault (ask_error.1 failed).1

theorem mildAt_change {f : σ → Except Fault σ} (mild : Check.Mild (f s)) : MildAt (change f) s :=
  fun fault _ failed => mild fault (change_error.1 failed).1

theorem mildAt_take {f : σ → Except Fault (α × σ)} (mild : Check.Mild (f s)) : MildAt (take f) s :=
  fun fault _ failed => mild fault (take_error.1 failed).1

theorem mildAt_within {part : σ → τ} {replace : σ → τ → σ} {y : Action τ α}
    (mild : MildAt y (part s)) : MildAt (within part replace y) s := by
  intro fault s' failed
  obtain ⟨t, failed, -⟩ := within_error.1 failed
  exact mild fault t failed

end Action

open Check (Mild mild_ok mild_pure mild_error mild_guard mild_throw_if mild_foldlM)

theorem PairId.parse_mild (symbol : String) : Mild (PairId.parse symbol) := by
  unfold PairId.parse
  split
  · exact mild_ok _
  · exact mild_error rfl

namespace Message

theorem requireAddress_mild (x : Address) (field : String) : Mild (requireAddress x field) := by
  unfold requireAddress
  split
  · exact mild_error rfl
  · exact mild_ok _

theorem requirePrecision_mild (precision : Nat) : Mild (requirePrecision precision) := by
  unfold requirePrecision
  split
  · exact mild_error rfl
  · exact mild_ok _

/-- The checks without state. -/
theorem check_mild (msg : Message) : Mild msg.check := by
  cases msg with
  | createPair m =>
      refine (requireAddress_mild _ _).bind fun _ => mild_guard rfl ?_
      exact (PairId.parse_mild _).bind fun _ => requirePrecision_mild _
  | delistPair m =>
      refine (requireAddress_mild _ _).bind fun _ => (PairId.parse_mild _).bind fun _ => ?_
      exact mild_throw_if rfl
  | raisePrecision m =>
      exact (requireAddress_mild _ _).bind fun _ => (PairId.parse_mild _).bind fun _ =>
        requirePrecision_mild _
  | placeOrder m =>
      refine (requireAddress_mild _ _).bind fun _ => (PairId.parse_mild _).bind fun _ =>
        (requirePrecision_mild _).bind fun _ => mild_guard rfl (mild_throw_if rfl)
  | cancelOrder m => exact (requireAddress_mild _ _).bind fun _ => mild_throw_if rfl

end Message

namespace Fee

theorem toAmount_mild (x : Decimal) (what : String) : Mild (toAmount x what) := by
  unfold toAmount
  split
  · exact mild_ok _
  · exact mild_error rfl

theorem multiply_mild (x y : Decimal) (what : String) : Mild (multiply x y what) := by
  unfold multiply
  split
  · exact mild_ok _
  · exact mild_error rfl

theorem tradeFee_mild (params : Params) (stockIsBase : Bool) (reference : Decimal)
    (quantity : Nat) : Mild (tradeFee params stockIsBase reference quantity) := by
  simp only [tradeFee]
  split
  · exact (multiply_mild _ _ _).bind fun _ => toAmount_mild _ _
  · split
    · exact mild_pure _
    · exact (multiply_mild _ _ _).bind fun _ => (multiply_mild _ _ _).bind fun _ =>
        toAmount_mild _ _

theorem buyPrincipal_mild (price precision quantity : Nat) (mode : Rounding) :
    Mild (buyPrincipal price precision quantity mode) :=
  (multiply_mild _ _ _).bind fun _ => toAmount_mild _ _

theorem checkMarketPrecision_mild (params : Params) (moneyIsBase : Bool) (precision : Nat) :
    Mild (checkMarketPrecision params moneyIsBase precision) := by
  unfold checkMarketPrecision
  split
  · exact mild_error rfl
  · split
    · exact mild_error rfl
    · exact mild_ok _

theorem checkPrecisionChange_mild (old new most : Nat) :
    Mild (checkPrecisionChange old new most) := by
  unfold checkPrecisionChange
  split
  · exact mild_error rfl
  · split
    · exact mild_error rfl
    · exact mild_ok _

theorem checkListingFee_mild (available required : Nat) (denom : Denom) :
    Mild (checkListingFee available required denom) := by
  unfold checkListingFee
  split
  · exact mild_error rfl
  · exact mild_ok _

end Fee

section Escrow

theorem addHold_mild (coin : Coin) (held : List Coin) : Mild (addHold coin held) := by
  induction held with
  | nil => exact mild_ok _
  | cons h rest ih =>
      rw [addHold]
      split
      · split
        · exact mild_ok _
        · exact mild_error rfl
      · exact ih.bind fun _ => mild_pure _

theorem mergeHolds_mild (coins : List Coin) : Mild (mergeHolds coins) :=
  mild_foldlM (fun held coin => addHold_mild coin held) _ _

namespace Accounts

variable (a : Accounts) (x y : Address) (c : Coin)

theorem requireEach_mild (coins : List Coin) : Mild (a.requireEach x coins) := by
  induction coins with
  | nil => exact mild_ok _
  | cons hold rest ih =>
      rw [requireEach]
      split
      · exact ih
      · exact mild_error rfl

theorem checkSufficient_mild (coins : List Coin) : Mild (a.checkSufficient x coins) :=
  (mergeHolds_mild coins).bind fun _ => requireEach_mild a x _

theorem deposit_mild : Mild (a.deposit x c) := by
  simp only [deposit]
  split
  · exact mild_ok _
  · exact mild_error rfl

theorem freeze_mild : Mild (a.freeze x c) := by
  simp only [freeze]
  split
  · exact mild_error rfl
  · split
    · exact mild_ok _
    · split
      · exact mild_ok _
      · exact mild_error rfl

theorem send_mild : Mild (a.send x y c) := by
  simp only [send]
  split
  · exact mild_error rfl
  · split
    · exact mild_ok _
    · split
      · exact mild_error rfl
      · exact deposit_mild _ _ _

theorem freezeAll_mildAt {a : Accounts} {coins : List Coin} (range : a.InRange) :
    Action.MildAt (freezeAll x coins) a := by
  have checks : Mild (do
      let holds ← mergeHolds coins
      a.checkSufficient x holds
      holds.foldlM (fun a hold => a.freeze x hold) a) := by
    apply (mergeHolds_mild coins).bind
    intro holds
    exact (checkSufficient_mild a x holds).bind fun _ =>
      mild_foldlM (fun a hold => freeze_mild a x hold) holds a
  intro fault a' failed
  rw [freezeAll_eq_change range] at failed
  exact checks fault (Action.change_error.1 failed).1

end Accounts

end Escrow

section Market

variable (s : Store) (params : Params)

theorem lookup_mild (symbol : String) : Mild (s.lookup symbol) := by
  apply (PairId.parse_mild symbol).bind
  intro q
  split
  · exact mild_pure _
  · exact mild_error rfl

theorem requireCreator_mild (p : Pair) (sender : Address) : Mild (p.requireCreator sender) := by
  unfold Pair.requireCreator
  split
  · exact mild_error rfl
  · exact mild_ok _

theorem claimId_mild (id : OrderId) : Mild (s.claimId id) := by
  unfold Store.claimId
  split
  · exact mild_error rfl
  · exact mild_ok _

theorem putOrder_mild (o : Order) : Mild (s.putOrder o) :=
  (claimId_mild s o.id).bind fun _ => mild_pure _

theorem removal_mild (id : OrderId) (reason : CancelReason) (base : Denom) :
    Mild (s.cancel id reason base) := by
  have remove : Mild (s.removeOrder id) := by
    unfold Store.removeOrder
    split
    · exact mild_ok _
    · exact mild_error rfl
  exact remove.bind fun _ => mild_pure _

theorem scheduleDelist_mild (m : DelistPair) (now : Int) :
    Mild (Store.scheduleDelist m params now s) := by
  unfold Store.scheduleDelist
  apply mild_guard rfl
  exact (lookup_mild s _).bind fun _ => (requireCreator_mild _ _).bind fun _ => mild_pure _

theorem listing_mild (m : CreatePair) (tokens : Tokens) (l : Ledger) :
    Mild (Listing.check m tokens params l) := by
  unfold Listing.check
  apply mild_guard rfl
  apply mild_guard rfl
  apply mild_guard rfl
  refine (Fee.checkMarketPrecision_mild _ _ _).bind fun _ =>
    (Fee.checkListingFee_mild _ _ _).bind fun _ => ?_
  exact mild_guard rfl (mild_throw_if rfl)

theorem checkForbidden_mild (tokens : Tokens) (sender : Address) (pair : Pair) :
    Mild (tokens.checkForbidden sender pair) := by
  unfold Tokens.checkForbidden
  apply mild_guard rfl
  apply mild_guard rfl
  exact mild_guard rfl (mild_throw_if rfl)

/-- The gate for new orders. -/
theorem pass_mild (m : PlaceOrder) (pair : Pair) (reference : Decimal) (tokens : Tokens)
    (accounts : Accounts) (height : Nat) :
    Mild (m.pass params pair reference tokens accounts height) := by
  have principal : Mild (m.principal params pair) := by
    rw [PlaceOrder.principal]
    split
    · exact (Fee.buyPrincipal_mild _ _ _ _).bind fun _ => mild_pure _
    · exact mild_ok _
  unfold PlaceOrder.pass
  apply mild_guard rfl
  exact principal.bind fun _ => (Fee.tradeFee_mild _ _ _ _).bind fun _ =>
    (mergeHolds_mild _).bind fun _ => (Accounts.checkSufficient_mild _ _ _).bind fun _ =>
    (checkForbidden_mild _ _ _).bind fun _ => mild_pure _

end Market

end Bourse
