import Bourse.Proofs.OrderId
import Bourse.Proofs.Runs

/-!
# What the resting orders and cancellations of a sender read and write

* `Check.Alike`, `Action.Alike`: two runs end alike, with the same fault or with values or states
  that are related;
* `Ledger.SameFor`: two ledgers agree on all that belongs to one sender, and on what belongs to
  nobody;
* `rest_alike`, `cancelOrder_alike`: on such ledgers an order that is to rest, and a cancellation,
  end alike for that sender;
* `rest_aside`, `cancelOrder_aside`: and they leave what belongs to others as it was;
* `SameFor.ext`: ledgers that agree on what belongs to each sender are one.
-/

namespace Bourse

namespace Check

variable {α β : Type} {R : α → α → Prop} {S : β → β → Prop}

/-- Both fail with one fault, or both end with related values. -/
inductive Alike (R : α → α → Prop) : Except Fault α → Except Fault α → Prop
  | ok {a b : α} : R a b → Alike R (.ok a) (.ok b)
  | error (fault : Fault) : Alike R (.error fault) (.error fault)

theorem Alike.bind {x y : Except Fault α} {f g : α → Except Fault β} (first : Alike R x y)
    (next : ∀ a b, R a b → Alike S (f a) (g b)) : Alike S (x >>= f) (y >>= g) := by
  cases first with
  | ok related => exact next _ _ related
  | error fault => exact .error fault

theorem Alike.foldlM {f : α → β → Except Fault α} {l : List β} {a b : α} (start : R a b)
    (step : ∀ c ∈ l, ∀ a b, R a b → Alike R (f a c) (f b c)) :
    Alike R (l.foldlM f a) (l.foldlM f b) := by
  induction l generalizing a b with
  | nil => exact .ok start
  | cons c rest ih =>
      rw [List.forall_mem_cons] at step
      rw [List.foldlM_cons, List.foldlM_cons]
      exact (step.1 a b start).bind fun _ _ related => ih related step.2

theorem alike_of_eq {x y : Except Fault α} (same : x = y) : Alike Eq x y := by
  subst same
  cases x with
  | ok a => exact .ok rfl
  | error fault => exact .error fault

end Check

namespace Action

variable {σ τ α β : Type} {R : σ → σ → Prop} {S : τ → τ → Prop} {s t : σ}

/-- Both fail with one fault, or both end with one value in related states. -/
inductive Alike (R : σ → σ → Prop) : EStateM.Result Fault σ α → EStateM.Result Fault σ α → Prop
  | ok (a : α) {s t : σ} : R s t → Alike R (.ok a s) (.ok a t)
  | error (fault : Fault) {s t : σ} : Alike R (.error fault s) (.error fault t)

theorem Alike.bind {Q : σ → σ → Prop} {x y : Action σ α} {f g : α → Action σ β}
    (first : Alike Q (x s) (y t)) (next : ∀ a s t, Q s t → Alike R (f a s) (g a t)) :
    Alike R ((x >>= f) s) ((y >>= g) t) := by
  change Alike R (EStateM.bind x f s) (EStateM.bind y g t)
  simp only [EStateM.bind]
  generalize x s = r at first ⊢
  generalize y t = r' at first ⊢
  cases first with
  | ok a related => exact next a _ _ related
  | error fault => exact .error fault

theorem alike_get {f : σ → Action σ β} (next : Alike R (f s s) (f t t)) :
    Alike R ((get >>= f) s) ((get >>= f) t) :=
  next

/-- Once the first action of each has ended with one value. -/
theorem alike_after {x y : Action σ α} {f g : α → Action σ β} {a : α} {s' t' : σ}
    (run : x s = .ok a s') (run' : y t = .ok a t') (next : Alike R (f a s') (g a t')) :
    Alike R ((x >>= f) s) ((y >>= g) t) := by
  change Alike R (EStateM.bind x f s) (EStateM.bind y g t)
  simp only [EStateM.bind, run, run']
  exact next

theorem alike_pure (a : α) (related : R s t) :
    Alike R ((pure a : Action σ α) s) ((pure a : Action σ α) t) :=
  .ok a related

theorem alike_change {f g : σ → Except Fault σ} (alike : Check.Alike R (f s) (g t)) :
    Alike R (change f s) (change g t) := by
  simp only [change]
  generalize f s = r at alike ⊢
  generalize g t = r' at alike ⊢
  cases alike with
  | ok related => exact .ok () related
  | error fault => exact .error fault

/-- After a check that both run alike. -/
theorem alike_ask {x : Except Fault α} {f g : α → Action σ β}
    (next : ∀ a, x = .ok a → Alike R (f a s) (g a t)) :
    Alike R ((ask (fun _ => x) >>= f) s) ((ask (fun _ => x) >>= g) t) := by
  cases x with
  | ok a => exact next a rfl
  | error fault => exact .error fault

theorem alike_within {part : σ → τ} {replace : σ → τ → σ} {x y : Action τ α}
    (alike : Alike S (x (part s)) (y (part t)))
    (put : ∀ u v, S u v → R (replace s u) (replace t v)) :
    Alike R (within part replace x s) (within part replace y t) := by
  simp only [within]
  generalize x (part s) = r at alike ⊢
  generalize y (part t) = r' at alike ⊢
  cases alike with
  | ok a related => exact .ok a (put _ _ related)
  | error fault => exact .error fault

end Action

namespace OrderId

/-- The id is of nobody but this sender. -/
def Of (version : Int) (x : Address) (k : OrderId) : Prop :=
  ∀ y seq, k = assemble y seq version → y = x

theorem of_assemble (version : Int) (x : Address) (seq : Nat) :
    Of version x (assemble x seq version) := fun _ _ same => (assemble_inj.1 same).1.symm

end OrderId

namespace Accounts

variable {a b a' : Accounts} {x y : Address} {d : Denom} {c : Coin} {coins : List Coin}
  {h : Holding}

/-- The accounts agree on what an owner has. -/
def SameFor (x : Address) (a b : Accounts) : Prop :=
  ∀ d, a.holdings[(⟨x, d⟩ : Purse)]? = b.holdings[(⟨x, d⟩ : Purse)]?

theorem SameFor.holding (same : SameFor x a b) (d : Denom) : a.holding x d = b.holding x d := by
  rw [holding_eq, holding_eq, same d]

theorem SameFor.set (same : SameFor x a b) (d : Denom) (h : Holding) :
    SameFor x (a.set x d h) (b.set x d h) := by
  intro e
  rw [Accounts.set, Accounts.set, Maps.getElem?_insert, Maps.getElem?_insert, same e]

theorem sameFor_set (ne : y ≠ x) (d : Denom) (h : Holding) : SameFor y a (a.set x d h) := by
  intro e
  rw [Accounts.set, Maps.getElem?_insert, if_neg fun same => ne (purse_eq.1 same).1.symm]

section Escrow

theorem freeze_alike (same : SameFor x a b) (c : Coin) :
    Check.Alike (SameFor x) (a.freeze x c) (b.freeze x c) := by
  simp only [freeze, same.holding c.denom]
  split
  · exact .error _
  · split
    · exact .ok same
    · split
      · exact .ok (same.set _ _)
      · exact .error _

theorem requireEach_same (same : SameFor x a b) :
    a.requireEach x coins = b.requireEach x coins := by
  induction coins with
  | nil => rfl
  | cons c rest ih => rw [requireEach, requireEach, covers, covers, same.holding, ih]

theorem checkSufficient_same (same : SameFor x a b) :
    a.checkSufficient x coins = b.checkSufficient x coins := by
  simp only [checkSufficient, requireEach_same same]

theorem freezeAll_alike (same : SameFor x a b) (range : a.InRange) (range' : b.InRange)
    (coins : List Coin) :
    Action.Alike (SameFor x) (freezeAll x coins a) (freezeAll x coins b) := by
  rw [freezeAll_eq_change range, freezeAll_eq_change range']
  refine Action.alike_change ((Check.alike_of_eq rfl).bind ?_)
  rintro holds _ rfl
  refine (Check.alike_of_eq (checkSufficient_same same)).bind fun _ _ _ => ?_
  exact .foldlM same fun c _ a b same => freeze_alike same c

/-- A freeze leaves the other owners as they were. -/
theorem freezeAll_aside {u : Unit} (ne : y ≠ x) (range : a.InRange)
    (run : freezeAll x coins a = .ok u a') : SameFor y a a' := by
  obtain ⟨moved, -⟩ := freezeAll_ok range run
  intro d
  have available := moved.available y d
  have frozen := moved.frozen y d
  rw [if_neg ne.symm, Nat.add_zero] at available frozen
  have entry := moved.entries ⟨y, d⟩
  rw [Std.ExtTreeMap.mem_iff_isSome_getElem?, Std.ExtTreeMap.mem_iff_isSome_getElem?] at entry
  have same : a.holding y d = a'.holding y d := by
    cases before : a.holding y d
    cases after : a'.holding y d
    simp_all
  rw [holding_eq, holding_eq] at same
  cases before : a.holdings[(⟨y, d⟩ : Purse)]? <;>
    cases after : a'.holdings[(⟨y, d⟩ : Purse)]? <;> simp_all

end Escrow

section Rehearsal

variable {e : Effect} {effects : List Effect}

theorem rehearse_alike (debited : e.debited = x) (credited : e.credited = x)
    (same : SameFor x a b) : Check.Alike (SameFor x) (a.rehearse e) (b.rehearse e) := by
  simp only [rehearse, debited, credited, same.holding e.coin.denom, holding_set_self]
  split
  · exact .error _
  · split
    · exact .ok ((same.set _ _).set _ _)
    · exact .error _

theorem rehearse_aside (debited : e.debited = x) (credited : e.credited = x) (ne : y ≠ x)
    (run : a.rehearse e = .ok a') : SameFor y a a' := by
  obtain ⟨-, -, rfl⟩ := rehearse_ok.1 run
  intro d
  rw [after, debited, credited]
  exact (sameFor_set ne _ _ d).trans (sameFor_set ne _ _ d)

/-- All that moves belongs to this account and stays there. -/
def Own (x : Address) (effects : List Effect) : Prop :=
  ∀ e ∈ effects, e.debited = x ∧ e.credited = x

theorem Own.moving (own : Own x effects) : Own x (Effect.moving effects) :=
  fun e mem => own e (List.mem_of_mem_filter mem)

theorem own_releases (o : Order) (base : Denom) : Own o.sender (o.releases base) := by
  intro e mem
  have mem := List.mem_of_mem_filter mem
  simp only [List.mem_cons, List.not_mem_nil, or_false] at mem
  obtain rfl | rfl := mem
  · exact ⟨rfl, rfl⟩
  · exact ⟨rfl, rfl⟩

theorem rehearsal_alike (own : Own x effects) (same : SameFor x a b) :
    Check.Alike (SameFor x) (a.rehearsal effects) (b.rehearsal effects) :=
  .foldlM same fun e mem _ _ same => rehearse_alike (own.moving e mem).1 (own.moving e mem).2 same

theorem rehearsal_aside (own : Own x effects) (ne : y ≠ x) (run : a.rehearsal effects = .ok a') :
    SameFor y a a' := by
  have own := own.moving
  rw [rehearsal] at run
  generalize Effect.moving effects = moved at own run
  induction moved generalizing a with
  | nil =>
      rw [List.foldlM_nil, Check.pure_ok] at run
      exact run ▸ fun _ => rfl
  | cons e rest ih =>
      rw [List.foldlM_cons, Check.bind_ok] at run
      obtain ⟨b, first, run⟩ := run
      obtain ⟨⟨debited, credited⟩, others⟩ := List.forall_mem_cons.1 own
      exact fun d => (rehearse_aside debited credited ne first d).trans (ih others run d)

end Rehearsal

end Accounts

/-- The tables agree on the orders of a sender, on the ids that are of nobody else, and on what
belongs to nobody. -/
structure Tables.SameFor (version : Int) (x : Address) (t t' : Tables) : Prop where
  pairs : t.pairs = t'.pairs
  delists : t.delists = t'.delists
  orders : ∀ (k : OrderId) (o : Order), o.sender = x →
    (t.orders[k]? = some o ↔ t'.orders[k]? = some o)
  ids : ∀ k, OrderId.Of version x k → (k ∈ t.usedIds ↔ k ∈ t'.usedIds)

namespace Tables.SameFor

variable {version : Int} {t t' t'' : Tables} {x y : Address} {o : Order} {k : OrderId} {seq : Nat}

theorem symm (same : SameFor version x t t') : SameFor version x t' t :=
  ⟨same.pairs.symm, same.delists.symm, fun k o own => (same.orders k o own).symm,
    fun k of => (same.ids k of).symm⟩

theorem trans (first : SameFor version x t t') (second : SameFor version x t' t'') :
    SameFor version x t t'' :=
  ⟨first.pairs.trans second.pairs, first.delists.trans second.delists,
    fun k o own => (first.orders k o own).trans (second.orders k o own),
    fun k of => (first.ids k of).trans (second.ids k of)⟩

theorem insert (same : SameFor version x t t') (o : Order) :
    SameFor version x ((t.useId o.id).insertOrder o) ((t'.useId o.id).insertOrder o) := by
  refine ⟨same.pairs, same.delists, fun k o' own => ?_, fun k of => ?_⟩
  · rw [insertOrder_orders, insertOrder_orders, Maps.getElem?_insert, Maps.getElem?_insert]
    split
    · rfl
    · exact same.orders k o' own
  · change k ∈ t.usedIds.insert o.id ↔ k ∈ t'.usedIds.insert o.id
    rw [Std.ExtTreeSet.mem_insert, Std.ExtTreeSet.mem_insert, same.ids k of]

theorem erase (same : SameFor version x t t') (k : OrderId) :
    SameFor version x (t.eraseOrder k) (t'.eraseOrder k) := by
  refine ⟨?_, ?_, fun l o own => ?_, fun l of => ?_⟩
  · rw [eraseOrder_pairs, eraseOrder_pairs, same.pairs]
  · rw [eraseOrder_delists, eraseOrder_delists, same.delists]
  · rw [eraseOrder_orders, eraseOrder_orders, Maps.getElem?_erase, Maps.getElem?_erase]
    split
    · rfl
    · exact same.orders l o own
  · rw [eraseOrder_usedIds, eraseOrder_usedIds, same.ids l of]

/-- A new order is not of other senders, and neither is its id. -/
theorem insert_aside (ne : y ≠ o.sender) (id : o.id = .assemble o.sender seq version)
    (fresh : o.id ∉ t.orders) : SameFor version y t ((t.useId o.id).insertOrder o) := by
  refine ⟨rfl, rfl, fun k o' own => ?_, fun k of => ?_⟩
  · rw [insertOrder_orders, Maps.getElem?_insert]
    split
    · next here =>
        rw [← here, Std.ExtTreeMap.getElem?_eq_none fresh]
        refine ⟨nofun, fun same => absurd ?_ ne⟩
        rw [← own, Option.some.inj same]
    · exact Iff.rfl
  · change _ ↔ k ∈ t.usedIds.insert o.id
    rw [Std.ExtTreeSet.mem_insert, Std.LawfulEqCmp.compare_eq_iff_eq]
    refine ⟨.inr, fun mem => mem.resolve_left fun here => ?_⟩
    exact ne (of o.sender seq (here.symm.trans id)).symm

theorem erase_aside (ne : y ≠ o.sender) (found : t.orders[k]? = some o) :
    SameFor version y t (t.eraseOrder k) := by
  refine ⟨eraseOrder_pairs.symm, eraseOrder_delists.symm, fun l o' own => ?_, fun l _ => ?_⟩
  · rw [eraseOrder_orders, Maps.getElem?_erase]
    split
    · next here =>
        rw [← here, found]
        refine ⟨fun same => absurd ?_ ne, nofun⟩
        rw [← own, Option.some.inj same]
    · exact Iff.rfl
  · rw [eraseOrder_usedIds]

/-- Tables that agree on what belongs to each sender are one. -/
theorem ext (wf : t.WellFormed) (wf' : t'.WellFormed) (same : ∀ x, SameFor version x t t') :
    t = t' := by
  refine wf.ext wf' (same ⟨""⟩).pairs ?_ (same ⟨""⟩).delists ?_
  · apply Std.ExtTreeMap.ext_getElem?
    intro k
    cases found : t.orders[k]? with
    | some o => exact (((same o.sender).orders k o rfl).1 found).symm
    | none =>
        cases found' : t'.orders[k]? with
        | none => rfl
        | some o => rw [((same o.sender).orders k o rfl).2 found'] at found; cases found
  · apply Std.ExtTreeSet.ext_mem
    intro k
    by_cases named : ∃ y seq, k = .assemble y seq version
    · obtain ⟨y, seq, rfl⟩ := named
      exact (same y).ids _ (OrderId.of_assemble version y seq)
    · exact (same ⟨""⟩).ids k fun y seq own => absurd ⟨y, seq, own⟩ named

end Tables.SameFor

namespace Clearing

variable {c c' c'' : Clearing} {x y : Address} {effects : List Effect}

/-- They agree on what an owner has, and on what was settled. -/
structure SameFor (x : Address) (c c' : Clearing) : Prop where
  accounts : c.accounts.SameFor x c'.accounts
  watermark : c.watermark = c'.watermark
  settledTrades : c.settledTrades = c'.settledTrades

theorem SameFor.symm (same : SameFor x c c') : SameFor x c' c :=
  ⟨fun d => (same.accounts d).symm, same.watermark.symm, same.settledTrades.symm⟩

theorem SameFor.trans (first : SameFor x c c') (second : SameFor x c' c'') : SameFor x c c'' :=
  ⟨fun d => (first.accounts d).trans (second.accounts d), first.watermark.trans second.watermark,
    first.settledTrades.trans second.settledTrades⟩

theorem settled_alike (own : Accounts.Own x effects) (same : SameFor x c c')
    (counted : c.settledTrades < Word.size) :
    Check.Alike (SameFor x) (c.settled { effects }) (c'.settled { effects }) := by
  rw [settled_effects effects counted, settled_effects effects (same.settledTrades ▸ counted)]
  have alike := Accounts.rehearsal_alike own same.accounts
  generalize c.accounts.rehearsal effects = r at alike ⊢
  generalize c'.accounts.rehearsal effects = r' at alike ⊢
  cases alike with
  | ok held => exact .ok ⟨held, same.watermark, same.settledTrades⟩
  | error fault => exact .error fault

theorem settled_aside (own : Accounts.Own x effects) (ne : y ≠ x)
    (counted : c.settledTrades < Word.size) (run : c.settled { effects } = .ok c') :
    SameFor y c c' := by
  rw [settled_effects effects counted] at run
  cases rehearsed : c.accounts.rehearsal effects with
  | error fault => simp [rehearsed, Except.map] at run
  | ok accounts =>
      rw [rehearsed] at run
      obtain rfl := Except.ok.inj run
      exact ⟨Accounts.rehearsal_aside own ne rehearsed, rfl, rfl⟩

end Clearing

namespace Ledger

variable {l l' l'' t : Ledger} {version : Int} {x y : Address} {a : Admission} {seq : Nat}
  {params : Params} {m : CancelOrder} {done : Executed}

/-- The ledgers agree on what belongs to a sender, and on what belongs to nobody. -/
structure SameFor (version : Int) (x : Address) (l l' : Ledger) : Prop where
  tables : l.store.tables.SameFor version x l'.store.tables
  clearing : l.clearing.SameFor x l'.clearing
  nextFill : l.nextFill = l'.nextFill

theorem SameFor.refl (version : Int) (x : Address) (l : Ledger) : SameFor version x l l :=
  ⟨⟨rfl, rfl, fun _ _ _ => .rfl, fun _ _ => .rfl⟩, ⟨fun _ => rfl, rfl, rfl⟩, rfl⟩

theorem SameFor.symm (same : SameFor version x l l') : SameFor version x l' l :=
  ⟨same.tables.symm, same.clearing.symm, same.nextFill.symm⟩

theorem SameFor.trans (first : SameFor version x l l') (second : SameFor version x l' l'') :
    SameFor version x l l'' :=
  ⟨first.tables.trans second.tables, first.clearing.trans second.clearing,
    first.nextFill.trans second.nextFill⟩

/-- Ledgers that agree on what belongs to each sender are one, but for an open journal. -/
theorem SameFor.ext (wf : l.store.tables.WellFormed) (wf' : l'.store.tables.WellFormed)
    (idle : l.store.journal = l'.store.journal) (same : ∀ x, SameFor version x l l') : l = l' := by
  have tables := Tables.SameFor.ext wf wf' fun x => (same x).tables
  have accounts : l.clearing.accounts = l'.clearing.accounts := by
    refine congrArg Accounts.mk (Std.ExtTreeMap.ext_getElem? fun {p} => ?_)
    exact (same p.owner).clearing.accounts p.denom
  obtain ⟨-, ⟨-, watermark, settledTrades⟩, nextFill⟩ := same ⟨""⟩
  obtain ⟨⟨_, _⟩, ⟨_, _, _⟩, _⟩ := l
  obtain ⟨⟨_, _⟩, ⟨_, _, _⟩, _⟩ := l'
  simp_all

section Rest

theorem putOrder_alike {s s' : Store} (wf : s.tables.WellFormed) (wf' : s'.tables.WellFormed)
    (same : s.tables.SameFor version x s'.tables) {o : Order} (id : OrderId.Of version x o.id) :
    Check.Alike (fun s s' => s.tables.SameFor version x s'.tables) (s.putOrder o)
      (s'.putOrder o) := by
  have used : ∀ {t : Tables}, t.WellFormed → (t.isIdUsed o.id = true ↔ o.id ∈ t.usedIds) := by
    intro t wf
    rw [Tables.isIdUsed, Bool.or_eq_true, ← Std.ExtTreeSet.mem_iff_contains,
      ← Std.ExtTreeMap.mem_iff_contains, or_iff_left_of_imp (wf.claimed o.id)]
  have both : s.tables.isIdUsed o.id = s'.tables.isIdUsed o.id := by
    rw [Bool.eq_iff_iff, used wf, used wf', same.ids o.id id]
  rw [Store.putOrder, Store.putOrder, Store.claimId, Store.claimId, both]
  split
  · exact .error _
  · exact .ok (same.insert o)

/-- An order that is to rest ends alike on ledgers that agree on what its sender has. -/
theorem rest_alike (same : SameFor version a.order.sender l l')
    (id : OrderId.Of version a.order.sender a.order.id) (wf : l.store.tables.WellFormed)
    (wf' : l'.store.tables.WellFormed) (range : l.clearing.accounts.InRange)
    (range' : l'.clearing.accounts.InRange) :
    Action.Alike (SameFor version a.order.sender) (rest a l) (rest a l') := by
  refine Action.Alike.bind (Q := fun t t' => SameFor version a.order.sender t t' ∧
    t.clearing.accounts.InRange ∧ t'.clearing.accounts.InRange) ?_ ?_
  · refine Action.alike_within (Action.alike_change (putOrder_alike wf wf' same.tables id)) ?_
    exact fun s s' tables => ⟨⟨tables, same.clearing, same.nextFill⟩, range, range'⟩
  · rintro - t t' ⟨same, range, range'⟩
    refine Action.Alike.bind (Q := SameFor version a.order.sender) ?_
      fun _ _ _ same => Action.alike_pure _ same
    rw [onAccounts, onClearing, Clearing.onAccounts]
    refine Action.alike_within (S := Clearing.SameFor a.order.sender) (Action.alike_within
      (Accounts.freezeAll_alike same.clearing.accounts range range' a.holds) ?_) ?_
    · exact fun _ _ held => ⟨held, same.clearing.watermark, same.clearing.settledTrades⟩
    · exact fun _ _ both => ⟨same.tables, both, same.nextFill⟩

/-- It leaves the other senders as they were. -/
theorem rest_aside (ne : y ≠ a.order.sender)
    (id : a.order.id = .assemble a.order.sender seq version)
    (range : l.clearing.accounts.InRange) (run : rest a l = .ok done l') :
    SameFor version y l l' := by
  obtain ⟨s, funds, stored, frozen, -, rfl⟩ := rest_ok run
  obtain ⟨-, fresh, rfl⟩ := Store.putOrder_ok.1 stored
  exact ⟨Tables.SameFor.insert_aside ne id fresh,
    ⟨Accounts.freezeAll_aside ne range frozen, rfl, rfl⟩, rfl⟩

end Rest

section Cancel

/-- Whether the order that a cancellation names is its sender's. -/
theorem cancel_owned (same : SameFor version m.sender l l') :
    (l.store.order? m.order).any (fun o => o.sender == m.sender) =
      (l'.store.order? m.order).any fun o => o.sender == m.sender := by
  rw [Bool.eq_iff_iff]
  simp only [Option.any_eq_true, beq_iff_eq]
  refine exists_congr fun o => ?_
  rw [and_comm, and_comm (b := o.sender = m.sender)]
  exact and_congr_right fun own => same.tables.orders m.order o own

/-- A cancellation ends alike on ledgers that agree on what its sender has. -/
theorem cancelOrder_alike (same : SameFor version m.sender l l')
    (counted : l.clearing.settledTrades < Word.size) :
    Action.Alike (SameFor version m.sender) (cancelOrder m params l) (cancelOrder m params l') := by
  refine Action.alike_get ?_
  dsimp only
  rw [cancel_owned same]
  cases owned : (l'.store.order? m.order).any fun o => o.sender == m.sender with
  | false => exact .error _
  | true =>
      obtain ⟨o, found', own⟩ := (Option.any_eq_true _ _).1 owned
      have own : o.sender = m.sender := by simpa using own
      have found := (same.tables.orders m.order o own).2 found'
      have cancels : ∀ {s : Store}, s.tables.orders[m.order]? = some o →
          s.cancel m.order .manual params.baseCurrency =
            .ok (({ o.released with status := CancelReason.manual.status },
              o.releases params.baseCurrency),
              s.write (.order m.order (some o)) (s.tables.eraseOrder m.order)) := fun found =>
        Check.bind_ok.2 ⟨_, Store.removeOrder_ok.2 ⟨found, rfl⟩, rfl⟩
      refine Action.alike_after (onStore_take_ok.2 ⟨_, cancels found, rfl⟩)
        (onStore_take_ok.2 ⟨_, cancels found', rfl⟩) ?_
      refine Action.Alike.bind (Q := SameFor version m.sender) ?_
        fun _ _ _ same => Action.alike_pure _ same
      rw [settle, Clearing.settle_eq_change, onClearing]
      refine Action.alike_within (Action.alike_change (Clearing.settled_alike
        (own ▸ Accounts.own_releases o params.baseCurrency) same.clearing counted)) ?_
      exact fun _ _ both => ⟨same.tables.erase m.order, both, same.nextFill⟩

/-- It leaves the other senders as they were. -/
theorem cancelOrder_aside (ne : y ≠ m.sender) (counted : l.clearing.settledTrades < Word.size)
    (run : cancelOrder m params l = .ok done l') : SameFor version y l l' := by
  obtain ⟨_, _, step, guarded⟩ := Action.bind_ok.1 run
  obtain ⟨rfl, rfl⟩ := Action.get_ok.1 step
  obtain ⟨owned, -⟩ := Action.guard_ok.1 guarded
  obtain ⟨out, s, clearing, cancelled, settled, batch, rfl⟩ := cancelOrder_ok run
  obtain ⟨o, found, rfl, rfl⟩ := Store.cancel_ok cancelled
  have own : o.sender = m.sender := by simpa [found] using owned
  rw [batch] at settled
  exact ⟨Tables.SameFor.erase_aside (own ▸ ne) found,
    Clearing.settled_aside (own ▸ Accounts.own_releases o params.baseCurrency) ne counted settled,
    rfl⟩

end Cancel

end Ledger

end Bourse
