import Bourse.Proofs.Counters
import Bourse.Proofs.Integrity

/-!
# Whatever rests can be cancelled

* `cancelOrder_total`: a backed ledger cancels an order for its sender, who gets back what the order
  holds;
* `feeDenom`: the base currency when an order was admitted, in which its fee was frozen;
* `Governed`: the runs in which only valid sets replace the parameters, and such as are allowed;
  `KeepsFees`: the base currency stays unless no resting order holds a fee;
* `Kept`: then every fee stays in the base currency in force; each input keeps this (`Kept.next`);
* `cancellation_returns`: so whatever rests can be cancelled by its sender, in every such run. Where
  the base currency may change at any time it cannot (`rebased_strands`).
-/

namespace Bourse

namespace Order

variable {o : Order} {orders : List Order} {base : Denom} {x : Address} {d : Denom}

theorem heldFor_le_escrow (mem : o ∈ orders) : o.heldFor base x d ≤ escrow orders base x d :=
  List.le_sum_of_mem (List.mem_map_of_mem mem)

/-- An order that holds no fee holds the same under any base currency. -/
theorem heldFor_of_free (free : o.frozenFee = 0) (base base' : Denom) (x : Address) (d : Denom) :
    o.heldFor base x d = o.heldFor base' x d := by
  simp only [heldFor, held, free, ite_self]

end Order

/-- A valid set of parameters, whose version is a signed word. -/
structure Params.Valid (p : Params) : Prop where
  checked : p.check = .ok p
  version : p.chainIdVersion < 2 ^ (63 : Nat)

theorem Params.Valid.version_nonneg {p : Params} (valid : p.Valid) : 0 ≤ p.chainIdVersion := by
  have sane := (check_ok.1 valid.checked).1
  rw [defect?] at sane
  grind

namespace Message

theorem named_of_check {p : PlaceOrder} (checked : (placeOrder p).check = .ok ()) :
    ¬p.sender.isEmpty := by
  obtain ⟨_, named, -⟩ := Check.bind_ok.1 checked
  rw [requireAddress] at named
  split at named
  · cases named
  · assumption

theorem check_cancelOrder {c : CancelOrder} {parts : Address × Nat × Int}
    (named : ¬c.sender.isEmpty) (parsed : c.order.parts? = some parts) :
    (cancelOrder c).check = .ok () := by
  simp [check, requireAddress, named, parsed]

end Message

namespace Ledger

variable {l l' : Ledger} {params : Params} {o : Order} {k : OrderId} {done : Executed}

/-- An order that rests can be cancelled by its sender. -/
theorem cancelOrder_total (backed : l.Backed params.baseCurrency)
    (words : ∀ d, l.clearing.accounts.supply d < Word.size) (found : l.store.order? k = some o) :
    ∃ done l', cancelOrder ⟨o.sender, k⟩ params l = .ok done l' := by
  have enough : ∀ x d, Effect.debits (o.releases params.baseCurrency) x d ≤
      (l.clearing.accounts.holding x d).frozen := by
    intro x d
    obtain rfl := backed.tables.order_id k o found
    rw [Order.debits_releases, backed.frozen]
    exact Order.heldFor_le_escrow ((Store.mem_resting backed.tables).2 found)
  obtain ⟨accounts, rehearsed⟩ := Accounts.rehearsal_total enough words
  have owned : ¬(!(l.store.order? k).any fun o' => o'.sender == o.sender) = true := by
    simp [found]
  have settled : l.clearing.settled { effects := o.releases params.baseCurrency } =
      .ok { l.clearing.note l.clearing.watermark [] with accounts } :=
    Clearing.settled_ok.2 ⟨l.clearing.watermark, accounts, rfl, rehearsed, rfl⟩
  have cancelled := Store.cancel_of_found found .manual params.baseCurrency
  exact ⟨_, _, Action.bind_ok.2 ⟨_, _, Action.get_ok.2 ⟨rfl, rfl⟩, Action.guard_ok.2 ⟨owned,
    Action.bind_ok.2 ⟨_, _, onStore_take_ok.2 ⟨_, cancelled, rfl⟩,
      Action.bind_ok.2 ⟨(), _, settle_ok.2 ⟨_, settled, rfl⟩, Action.pure_ok.2 ⟨rfl, rfl⟩⟩⟩⟩⟩⟩

/-- What it held moves from the frozen to the available funds, and it alone leaves. -/
theorem cancelOrder_moves {c : CancelOrder} (found : l.store.order? c.order = some o)
    (run : cancelOrder c params l = .ok done l') :
    (∀ j, l'.store.order? j = if c.order = j then none else l.store.order? j) ∧
      ∀ x d,
        (l'.clearing.accounts.holding x d).available =
          (l.clearing.accounts.holding x d).available + o.heldFor params.baseCurrency x d ∧
        (l'.clearing.accounts.holding x d).frozen + o.heldFor params.baseCurrency x d =
          (l.clearing.accounts.holding x d).frozen := by
  obtain ⟨out, s, clearing, cancelled, settled, batch, rfl⟩ := cancelOrder_ok run
  obtain ⟨o', found', rfl, rfl⟩ := Store.cancel_ok cancelled
  obtain rfl := Option.some.inj (found.symm.trans found')
  rw [batch] at settled
  obtain ⟨next, accounts, -, rehearsed, rfl⟩ := Clearing.settled_ok.1 settled
  obtain ⟨frozen, available, -⟩ := Accounts.rehearsal_moves rehearsed
  refine ⟨fun j => ?_, fun x d => ⟨?_, ?_⟩⟩
  · rw [Store.order?, Store.write, Tables.eraseOrder_orders, Maps.getElem?_erase, Store.order?]
  · rw [← Order.credits_releases]
    exact available x d
  · rw [← Order.debits_releases]
    exact frozen x d

end Ledger

namespace Market

variable {past : List Moment} {m : Market} {i : Input} {x : Moment} {o : Order} {k : OrderId}
  {allowed : Market → Params → Prop}

theorem params_after [Build] (m : Market) (i : Input) :
    (m.after i).params = match i with | .params params => params | _ => m.params := by
  cases i with
  | beginBlock | setPair | accounts | params | tokens => rfl
  | deliver msg =>
      obtain ⟨fault, -, ⟨-, same⟩ | ⟨-, run⟩⟩ | ⟨done, -, -, run⟩ := m.deliver_cases msg
      · exact (congrArg Market.params same :)
      · obtain ⟨l, -, same⟩ := apply_eq run
        exact (congrArg Market.params same :)
      · obtain ⟨l, -, same⟩ := apply_ok run
        exact (congrArg Market.params same :)
  | endBlock header => rfl

/-- The base currency when the order of this id was admitted. -/
def feeDenom [Build] (past : List Moment) (k : OrderId) : Denom :=
  (past.find? fun x => x.assigned? = some k).elim "" fun x => x.market.params.baseCurrency

theorem feeDenom_append [Build] (assigned : ∃ y ∈ past, y.assigned? = some k) :
    feeDenom (past ++ [x]) k = feeDenom past k := by
  rw [feeDenom, List.find?_append]
  cases found : past.find? fun x => x.assigned? = some k with
  | none =>
      obtain ⟨y, mem, named⟩ := assigned
      simpa [named] using List.find?_eq_none.1 found y mem
  | some y => rw [feeDenom, found]; rfl

theorem feeDenom_new [Build] (fresh : ∀ y ∈ past, y.assigned? ≠ some k)
    (named : x.assigned? = some k) :
    feeDenom (past ++ [x]) k = x.market.params.baseCurrency := by
  have none : (past.find? fun x => x.assigned? = some k) = none :=
    List.find?_eq_none.2 fun y mem same => fresh y mem (of_decide_eq_true same)
  rw [feeDenom, List.find?_append, none]
  simp [named]

/-- What a run is fed whose parameters are replaced by valid sets, and where that is allowed: other
funds are deposited, and other markets bear the id of their denominations. -/
def Moment.Lawful (allowed : Market → Params → Prop) (x : Moment) : Prop :=
  match x.input with
  | .beginBlock _ | .endBlock _ | .tokens _ => True
  | .deliver msg => msg.InRange ∧ ∀ p, msg = .placeOrder p → p.sequence < Word.size
  | .setPair pair => pair.Faithful
  | .accounts funds =>
      ∃ owner coin, x.market.ledger.clearing.accounts.deposit owner coin = .ok funds
  | .params params => Params.Valid params ∧ allowed x.market params

/-- The runs that start with nothing frozen and are fed such inputs only. -/
inductive Governed [Build] (allowed : Market → Params → Prop) : List Moment → Market → Prop
  | start {accounts : Accounts} {params : Params} (tokens : Tokens) : accounts.InRange →
      (∀ x d, (accounts.holding x d).frozen = 0) → Params.Valid params →
      Governed allowed [] { ledger := { clearing := { accounts } }, tokens, params }
  | next {past : List Moment} {m : Market} (i : Input) : Governed allowed past m →
      Moment.Lawful allowed ⟨m, i⟩ → Governed allowed (past ++ [⟨m, i⟩]) (m.after i)

/-- The base currency stays, or no resting order holds a fee. -/
def KeepsFees (m : Market) (params : Params) : Prop :=
  params.baseCurrency = m.params.baseCurrency ∨ ∀ o ∈ m.ledger.store.resting, o.frozenFee = 0

theorem base_after [Build] (lawful : Moment.Lawful KeepsFees ⟨m, i⟩) :
    (m.after i).params.baseCurrency = m.params.baseCurrency ∨
      ∀ o ∈ m.ledger.store.resting, o.frozenFee = 0 := by
  rw [params_after]
  cases i with
  | params params => exact lawful.2
  | beginBlock | deliver | endBlock | setPair | accounts | tokens => exact .inl rfl

theorem Moment.Lawful.fits (lawful : Moment.Lawful allowed ⟨m, i⟩)
    (range : m.ledger.clearing.accounts.InRange) : i.Fits := by
  cases i with
  | beginBlock | deliver | endBlock | setPair | params | tokens => trivial
  | accounts funds =>
      obtain ⟨owner, coin, credited⟩ := lawful
      exact range.deposit credited

theorem Governed.trace [Build] (run : Governed allowed past m) : Trace past m := by
  induction run with
  | start tokens range unfrozen valid => exact .start tokens _ range
  | next i _ lawful ih => exact ih.next i (lawful.fits ih.intact.range)

theorem Governed.lawful [Build] (run : Governed allowed past m) :
    ∀ x ∈ past, x.Lawful allowed ∧ Params.Valid x.market.params := by
  have valid : ∀ {past m}, Governed allowed past m → Params.Valid m.params := by
    intro past m run
    induction run with
    | start _ _ _ valid => exact valid
    | @next past m i _ lawful ih =>
        rw [params_after]
        cases i with
        | params params => exact lawful.1
        | beginBlock | deliver | endBlock | setPair | accounts | tokens => exact ih
  induction run with
  | start => exact List.forall_mem_nil _
  | next i run lawful ih =>
      exact List.forall_mem_append.2 ⟨ih, List.forall_mem_singleton.2 ⟨lawful, valid run⟩⟩

theorem Governed.typed [Build] (run : Governed allowed past m) : ∀ x ∈ past, x.input.InRange := by
  rintro ⟨m', i⟩ mem
  have lawful := (run.lawful _ mem).1
  cases i with
  | deliver msg => exact lawful.1
  | beginBlock | endBlock | setPair | accounts | params | tokens => trivial

/-- What rests bears an id that can be taken apart, under any sender. -/
theorem Governed.cancellable [Build] (run : Governed allowed past m)
    (rests : o ∈ m.ledger.store.resting) :
    (Message.cancelOrder ⟨o.sender, o.id⟩).check = .ok () := by
  obtain ⟨o₀, rfl, -, -, -, -, -, ⟨m', i⟩, mem, admitted⟩ :=
    (run.trace.tallied run.typed).origin o rests
  obtain ⟨p, pair, a, rfl, -, checked, -, passed, rfl⟩ := admitted_cases admitted
  obtain ⟨⟨-, sequence⟩, valid⟩ := run.lawful _ mem
  obtain ⟨_, _, -, -, -, -, order⟩ := pass_ok passed
  have named := Message.named_of_check checked
  have parts := OrderId.parts?_assemble (x := p.sender) (by simpa [Address.isEmpty] using named)
    (sequence p rfl) valid.version_nonneg valid.version
  rw [Order.id_after, Order.sender_of_terms Order.terms_after, order]
  exact Message.check_cancelOrder named parts

/-- What is frozen is what the resting orders hold, and their fees are in the base currency in
force. -/
structure Kept [Build] (past : List Moment) (m : Market) : Prop where
  backed : m.Backed
  fees : ∀ o ∈ m.ledger.store.resting, o.frozenFee = 0 ∨ feeDenom past o.id = m.params.baseCurrency

theorem Kept.heldFor [Build] (kept : Kept past m) (rests : o ∈ m.ledger.store.resting) (x : Address)
    (d : Denom) : o.heldFor (feeDenom past o.id) x d = o.heldFor m.params.baseCurrency x d := by
  obtain free | same := kept.fees o rests
  · exact Order.heldFor_of_free free _ _ x d
  · rw [same]

theorem Backed.next [Build] (backed : m.Backed) (lawful : Moment.Lawful KeepsFees ⟨m, i⟩) :
    (m.after i).Backed := by
  cases i with
  | beginBlock header => exact backed.step (.beginBlock m header)
  | deliver msg => exact backed.step (.deliver m msg)
  | endBlock header => exact backed.step (.endBlock m header)
  | tokens tokens => exact backed.step (.tokens m tokens)
  | accounts funds =>
      obtain ⟨owner, coin, credited⟩ := lawful
      exact backed.step (.deposit owner coin credited)
  | setPair pair =>
      have ledger := backed.ledger
      refine ⟨⟨ledger.tables.insertPair pair, ?_, ledger.range, ledger.frozen⟩, ?_⟩
      · exact Store.faithful_setPair ledger.faithful lawful
      · simp [after, setPair, Store.setPair, Store.write, backed.idle]
  | params params =>
      obtain ⟨-, same | free⟩ := lawful
      · exact backed.step (.params m params same)
      · have ledger := backed.ledger
        refine ⟨⟨ledger.tables, ledger.faithful, ledger.range, fun x d => ?_⟩, backed.idle⟩
        refine (ledger.frozen x d).trans (congrArg List.sum (List.map_congr_left fun o mem => ?_))
        exact Order.heldFor_of_free (free o mem) _ _ x d

/-- An input keeps this. -/
theorem Kept.next [Build] (kept : Kept past m) (run : Governed KeepsFees past m)
    (lawful : Moment.Lawful KeepsFees ⟨m, i⟩) : Kept (past ++ [⟨m, i⟩]) (m.after i) := by
  refine ⟨kept.backed.next lawful, fun o' mem => ?_⟩
  have trace := run.trace
  have typed := (run.next i lawful).typed
  have intact := trace.intact
  have assigned := trace.assigned
  have spends := intact.spends (m.call_after (lawful.fits intact.range))
  have accounted := intact.accounted (trace.tallied run.typed).open
    (typed _ (List.mem_append_right _ List.mem_cons_self))
  obtain ⟨-, o, start, rfl⟩ := accounted.kept o' mem
  rw [Order.id_after]
  obtain rests | admitted := List.mem_append.1 start
  · have used := Store.used_of_resting intact.tables rests
    rw [feeDenom_append (List.mem_filterMap.1 ((assigned.used o.id).1 used))]
    have fees : o.frozenFee = 0 ∨
        feeDenom past o.id = (m.after i).params.baseCurrency := by
      obtain free | same := kept.fees o rests
      · exact .inl free
      · exact (base_after lawful).symm.imp (· o rests) (same.trans ·.symm)
    exact fees.imp_left fun free => by rw [Order.fee_after, free, Nat.zero_sub]
  · have admitted := Option.mem_toList.1 admitted
    have named : Moment.assigned? ⟨m, i⟩ = some o.id := by rw [Moment.assigned?, admitted]; rfl
    have fresh : ∀ y ∈ past, y.assigned? ≠ some o.id := fun y mem same =>
      spends.fresh o admitted ((assigned.used o.id).2 (List.mem_filterMap.2 ⟨y, mem, same⟩))
    obtain ⟨p, _, _, rfl, -⟩ := admitted_cases admitted
    rw [feeDenom_new fresh named, params_after]
    exact .inr rfl

theorem Governed.kept [Build] (run : Governed KeepsFees past m) : Kept past m := by
  induction run with
  | @start accounts params tokens range unfrozen _ =>
      have fresh : Fresh { ledger := { clearing := { accounts } }, tokens, params } :=
        ⟨rfl, rfl, rfl, range, unfrozen⟩
      exact ⟨fresh.backed, fun o mem => by rw [fresh.resting] at mem; cases mem⟩
  | next i run lawful ih => exact ih.next run lawful

/-- Whatever rests can be cancelled by its sender, as long as the supplies are words, in every run
that starts with nothing frozen and whose parameters are replaced by valid sets: the base currency
only while no resting order holds a fee. The sender gets back what the order holds, the fee in the
denomination in which it was frozen. No other order leaves, and what is frozen is still what they
hold. -/
theorem cancellation_returns [Build] (run : Governed KeepsFees past m)
    (words : ∀ d, m.supply d < Word.size) (found : m.order? k = some o) :
    let cancel : Message := .cancelOrder ⟨o.sender, k⟩
    let m' := (m.deliver cancel).2
    (m.deliver cancel).1.success = true ∧
      (∀ j, m'.order? j = if k = j then none else m.order? j) ∧
      (∀ x d,
        (m'.ledger.clearing.accounts.holding x d).available =
          (m.ledger.clearing.accounts.holding x d).available + o.heldFor (feeDenom past k) x d ∧
        (m'.ledger.clearing.accounts.holding x d).frozen + o.heldFor (feeDenom past k) x d =
          (m.ledger.clearing.accounts.holding x d).frozen) ∧
      ∀ x d, (m'.ledger.clearing.accounts.holding x d).frozen =
        (m'.ledger.store.resting.map fun o' => o'.heldFor (feeDenom past o'.id) x d).sum := by
  intro cancel m'
  have kept := run.kept
  have ledger := kept.backed.ledger
  obtain rfl := ledger.tables.order_id k o found
  have rests := (Store.mem_resting ledger.tables).2 found
  have checked : cancel.check = .ok () := run.cancellable rests
  obtain ⟨done, l, acted⟩ := Ledger.cancelOrder_total ledger.opened words found
  obtain ⟨accepted, same⟩ := accepted_of_execute checked acted
  obtain ⟨orders, moves⟩ := Ledger.cancelOrder_moves (c := ⟨o.sender, o.id⟩)
    (l := m.ledger.withStore m.ledger.store.openJournal) found acted
  have later : m'.Backed := kept.backed.step (.deliver m cancel)
  have same : m' = { m with ledger := l.withStore l.store.commit } := same
  have orders : ∀ j, m'.order? j = if o.id = j then none else m.order? j := same ▸ orders
  have base : m'.params = m.params := m.params_after (.deliver cancel)
  refine ⟨by rw [accepted]; rfl, orders, fun x d => ?_, fun x d => ?_⟩
  · rw [kept.heldFor rests]
    exact same ▸ moves x d
  · rw [later.ledger.frozen, base]
    refine congrArg List.sum (List.map_congr_left fun o' mem => (kept.heldFor ?_ x d).symm)
    have stored := (Store.mem_resting later.ledger.tables).1 mem
    have stored := (orders o'.id).symm.trans stored
    split at stored
    · cases stored
    · exact (Store.mem_resting ledger.tables).2 stored

section Renewed

attribute [local instance] Build.checked

def offeredPast : List Moment := [
  ⟨funded, .deliver listing⟩, ⟨funded.after (.deliver listing), .deliver offer7⟩]

theorem offered_governed (allowed : Market → Params → Prop) :
    Governed allowed offeredPast offered := by
  have start : Governed allowed [] funded :=
    .start funded.tokens funded_fresh.range funded_fresh.unfrozen ⟨rfl, by decide⟩
  have listed := start.next (.deliver listing) ⟨trivial, nofun⟩
  refine listed.next (.deliver offer7) ⟨(by decide : 7 < Word.size), fun p same => ?_⟩
  obtain rfl := Message.placeOrder.inj same
  exact (by decide : 1 < Word.size)

theorem offered_words : ∀ d, offered.supply d < Word.size := by
  have start : Trace [] funded := .start funded.tokens funded.params funded_fresh.range
  exact (start.next (.deliver listing) trivial).words offer7
    (start.words listing funded_inRange.supply)

/-- The chain restarts under a higher fee while the offer of 7 rests. -/
def renewal : Params := { Params.default with chainIdVersion := 1, fixedTradeFee := 2000000 }

def renewed : Market := offered.after (.params renewal)

/-- `a` gets back the 7 and the fee that it paid. -/
theorem renewed_returns :
    let cancel : Message := .cancelOrder ⟨⟨"a"⟩, ⟨"a-1-0"⟩⟩
    let funds := renewed.ledger.clearing.accounts
    let after := (renewed.deliver cancel).2.ledger.clearing.accounts
    (renewed.deliver cancel).1.success = true ∧
      (after.holding ⟨"a"⟩ "btc").available = (funds.holding ⟨"a"⟩ "btc").available + 7 ∧
      (after.holding ⟨"a"⟩ "cet").available = (funds.holding ⟨"a"⟩ "cet").available + 1000000 := by
  have run : Governed KeepsFees (offeredPast ++ [⟨offered, .params renewal⟩]) renewed :=
    (offered_governed KeepsFees).next (.params renewal) ⟨⟨rfl, by decide⟩, .inl rfl⟩
  have holds : (renewed.order? ⟨"a-1-0"⟩).map (fun o => (o.sender,
      o.heldFor (feeDenom (offeredPast ++ [⟨offered, .params renewal⟩]) ⟨"a-1-0"⟩) ⟨"a"⟩ "btc",
      o.heldFor (feeDenom (offeredPast ++ [⟨offered, .params renewal⟩]) ⟨"a-1-0"⟩) ⟨"a"⟩ "cet")) =
      some (⟨"a"⟩, 7, 1000000) := by
    decide +kernel
  obtain ⟨o, found, amounts⟩ := Option.map_eq_some_iff.1 holds
  obtain ⟨sender, stock, fee⟩ := by simpa only [Prod.mk.injEq] using amounts
  obtain ⟨accepted, -, moves, -⟩ := cancellation_returns run offered_words found
  rw [sender] at accepted moves
  refine ⟨accepted, ?_, ?_⟩
  · rw [← stock]
    exact (moves ⟨"a"⟩ "btc").1
  · rw [← fee]
    exact (moves ⟨"a"⟩ "cet").1

/-- Another base currency while it rests. -/
def rebase : Params := { Params.default with baseCurrency := "usd" }

/-- If the parameters may be replaced by any valid set, a resting order may be stranded: its fee
cannot be returned in the new base currency. -/
theorem rebased_strands : ¬∀ past m k o, Governed (fun _ _ => True) past m →
    (∀ d, m.supply d < Word.size) → m.order? k = some o →
    (m.deliver (.cancelOrder ⟨o.sender, k⟩)).1.success = true := by
  intro returns
  have run : Governed (fun _ _ => True) (offeredPast ++ [⟨offered, .params rebase⟩])
      (offered.after (.params rebase)) :=
    (offered_governed _).next (.params rebase) ⟨⟨rfl, by decide⟩, trivial⟩
  have stored : ((offered.after (.params rebase)).order? ⟨"a-1-0"⟩).map Order.sender =
      some ⟨"a"⟩ := by
    decide +kernel
  obtain ⟨o, found, sender⟩ := Option.map_eq_some_iff.1 stored
  have accepted := returns _ _ _ o run offered_words found
  rw [sender] at accepted
  have refused : ((offered.after (.params rebase)).deliver
      (.cancelOrder ⟨⟨"a"⟩, ⟨"a-1-0"⟩⟩)).1.success = false := by
    decide +kernel
  rw [refused] at accepted
  cases accepted

end Renewed

end Market

end Bourse
