import Bourse.Proofs.Locality

/-!
# Resting orders and cancellations of different senders commute

* `Market.SameFor`: two markets agree on all that belongs to one sender;
* `deliver_alike`, `deliver_aside`: a delivery reads and writes only what belongs to its signer;
* `deliver_comm`: so two deliveries for different signers commute;
* `delivery_order_irrelevant`: and the order of any number of them does not matter.
-/

namespace Bourse

namespace Message

/-- An order that is to rest, or a cancellation. -/
def Calm : Message → Prop
  | placeOrder m => m.timeInForce = .goodTillExpire
  | cancelOrder _ => True
  | createPair _ | delistPair _ | raisePrecision _ => False

instance : DecidablePred Calm := fun msg => by
  cases msg <;> rw [Calm] <;> infer_instance

end Message

namespace Ledger

variable {l l' : Ledger} {x : Address} {tokens : Tokens} {params : Params} {header : Header}
  {msg : Message} {done : Executed}

theorem lookup_same {s s' : Store} (pairs : s.tables.pairs = s'.tables.pairs) (symbol : String) :
    s.lookup symbol = s'.lookup symbol := by
  simp only [Store.lookup, Store.pair?, pairs]

theorem referencePrice_same {s s' : Store} (pairs : s.tables.pairs = s'.tables.pairs)
    (stock base : Denom) : s.referencePrice stock base = s'.referencePrice stock base := by
  simp only [Store.referencePrice, Store.pair?, pairs]

theorem pass_same {m : PlaceOrder} {accounts accounts' : Accounts}
    (same : accounts.SameFor m.sender accounts') (params : Params) (pair : Pair)
    (reference : Decimal) (tokens : Tokens) (height : Nat) :
    m.pass params pair reference tokens accounts height =
      m.pass params pair reference tokens accounts' height := by
  simp only [PlaceOrder.pass, Accounts.checkSufficient_same same]

/-- The id and the sender of an order that passed. -/
theorem pass_names {m : PlaceOrder} {pair : Pair} {reference : Decimal} {accounts : Accounts}
    {height : Nat} {a : Admission}
    (passed : m.pass params pair reference tokens accounts height = .ok a) :
    a.order.sender = m.sender ∧
      a.order.id = .assemble m.sender m.sequence params.chainIdVersion := by
  obtain ⟨principal, fee, -, -, -, -, order⟩ := pass_ok passed
  rw [order]
  exact ⟨rfl, rfl⟩

/-- A calm message ends alike on ledgers that agree on what its signer has. -/
theorem execute_alike [Build] (calm : msg.Calm)
    (same : SameFor params.chainIdVersion msg.signer l l')
    (wf : l.store.tables.WellFormed) (wf' : l'.store.tables.WellFormed)
    (range : l.clearing.accounts.InRange) (range' : l'.clearing.accounts.InRange)
    (counted : l.clearing.settledTrades < Word.size) :
    Action.Alike (SameFor params.chainIdVersion msg.signer)
      (execute tokens params header msg l) (execute tokens params header msg l') := by
  cases msg with
  | createPair | delistPair | raisePrecision => exact absurd calm id
  | cancelOrder m => exact cancelOrder_alike same counted
  | placeOrder m =>
      refine Action.alike_get ?_
      rw [lookup_same same.tables.pairs]
      refine Action.alike_ask fun pair _ => ?_
      rw [referencePrice_same same.tables.pairs, pass_same same.clearing.accounts]
      refine Action.alike_ask fun a passed => ?_
      rw [show m.timeInForce = .goodTillExpire from calm]
      obtain ⟨sender, id⟩ := pass_names passed
      have same : SameFor params.chainIdVersion a.order.sender l l' := sender ▸ same
      have own := OrderId.of_assemble params.chainIdVersion m.sender m.sequence
      rw [← id, ← sender] at own
      have alike := rest_alike same own wf wf' range range'
      rwa [sender] at alike

/-- It leaves the other senders as they were. -/
theorem execute_aside [Build] (calm : msg.Calm) (ne : x ≠ msg.signer)
    (range : l.clearing.accounts.InRange) (counted : l.clearing.settledTrades < Word.size)
    (run : execute tokens params header msg l = .ok done l') :
    SameFor params.chainIdVersion x l l' := by
  cases msg with
  | createPair | delistPair | raisePrecision => exact absurd calm id
  | cancelOrder m => exact cancelOrder_aside ne counted run
  | placeOrder m =>
      obtain ⟨pair, a, -, passed, ⟨-, run⟩ | ⟨atOnce, -⟩⟩ := placeOrder_ok run
      · obtain ⟨sender, id⟩ := pass_names passed
        rw [← sender] at id
        exact rest_aside (sender ▸ ne) id range run
      · rw [show m.timeInForce = .goodTillExpire from calm] at atOnce
        cases atOnce

end Ledger

namespace Market

variable {m n : Market} {x : Address} {h : History} {msg a b : Message} {l l' : List Message}

/-- The markets agree on what belongs to a sender, and on what belongs to nobody. -/
structure SameFor (x : Address) (m n : Market) : Prop where
  ledger : m.ledger.SameFor m.params.chainIdVersion x n.ledger
  params : m.params = n.params
  tokens : m.tokens = n.tokens
  header : m.header = n.header

theorem SameFor.symm (same : SameFor x m n) : SameFor x n m :=
  ⟨same.params ▸ same.ledger.symm, same.params.symm, same.tokens.symm, same.header.symm⟩

theorem SameFor.trans {o : Market} (first : SameFor x m n) (second : SameFor x n o) :
    SameFor x m o :=
  ⟨first.ledger.trans (first.params ▸ second.ledger), first.params.trans second.params,
    first.tokens.trans second.tokens, first.header.trans second.header⟩

theorem sameFor_refl (x : Address) (m : Market) : SameFor x m m :=
  ⟨.refl _ x m.ledger, rfl, rfl, rfl⟩

/-- Markets that agree on what belongs to each sender are one. -/
theorem SameFor.ext (intact : m.Intact) (intact' : n.Intact) (same : ∀ x, SameFor x m n) :
    m = n := by
  have ledger : m.ledger = n.ledger :=
    Ledger.SameFor.ext intact.tables intact'.tables (intact.idle.trans intact'.idle.symm)
      fun x => (same x).ledger
  obtain ⟨-, params, tokens, header⟩ := same ⟨""⟩
  obtain ⟨_, _, _, _⟩ := m
  obtain ⟨_, _, _, _⟩ := n
  simp_all

theorem Intact.deliver [Build] (intact : m.Intact) (msg : Message) : (m.deliver msg).2.Intact :=
  intact.call (.deliver msg)

theorem Intact.apply_of_error [Build] {fault : Fault} {l : Ledger} (intact : m.Intact)
    (failed : Ledger.execute m.tokens m.params m.header msg
      (m.ledger.withStore m.ledger.store.openJournal) = .error fault l) :
    m.apply msg = (.error fault, m) := by
  have run : m.apply msg = (.error fault, (m.apply msg).2) := by
    rw [apply, Ledger.atomically_error.2 ⟨l, failed, rfl⟩]
  exact run.trans (congrArg _ (intact.apply_error run))

/-- A delivery of a calm message ends alike on markets that agree on what its signer has. -/
theorem deliver_alike [Build] (intact : m.Intact) (intact' : n.Intact) (calm : msg.Calm)
    (same : SameFor msg.signer m n) :
    (m.deliver msg).1 = (n.deliver msg).1 ∧
      SameFor msg.signer (m.deliver msg).2 (n.deliver msg).2 := by
  have alike : Action.Alike (Ledger.SameFor m.params.chainIdVersion msg.signer)
      (Ledger.execute m.tokens m.params m.header msg
        (m.ledger.withStore m.ledger.store.openJournal))
      (Ledger.execute n.tokens n.params n.header msg
        (n.ledger.withStore n.ledger.store.openJournal)) := by
    rw [← same.params, ← same.tokens, ← same.header]
    exact Ledger.execute_alike calm
      ⟨same.ledger.tables, same.ledger.clearing, same.ledger.nextFill⟩ intact.tables intact'.tables
      intact.range intact'.range intact.counted
  rw [Market.deliver, Market.deliver]
  cases msg.check with
  | error fault => exact ⟨rfl, same⟩
  | ok _ =>
      generalize first : Ledger.execute m.tokens m.params m.header msg _ = r at alike
      generalize second : Ledger.execute n.tokens n.params n.header msg _ = r' at alike
      cases alike with
      | error fault =>
          rw [intact.apply_of_error first, intact'.apply_of_error second]
          exact ⟨rfl, same⟩
      | ok done related =>
          rw [apply_of_ok first, apply_of_ok second]
          exact ⟨rfl, ⟨related.tables, related.clearing, related.nextFill⟩, same.params,
            same.tokens, same.header⟩

/-- It leaves the other senders as they were. -/
theorem deliver_aside [Build] (intact : m.Intact) (calm : msg.Calm) (ne : x ≠ msg.signer) :
    SameFor x m (m.deliver msg).2 := by
  obtain ⟨-, same, -⟩ | ⟨done, -, -, run⟩ := intact.deliver_cases msg
  · rw [same]
    exact sameFor_refl x m
  · obtain ⟨l, acted, same⟩ := Market.apply_ok run
    have aside := Ledger.execute_aside calm ne
      (show (m.ledger.withStore m.ledger.store.openJournal).clearing.accounts.InRange from
        intact.range) intact.counted acted
    rw [same]
    exact ⟨⟨aside.tables, aside.clearing, aside.nextFill⟩, rfl, rfl, rfl⟩

section Pairs

variable (intact : m.Intact) (calmA : a.Calm) (calmB : b.Calm) (ne : a.signer ≠ b.signer)

include intact calmA calmB ne

/-- A delivery ends as it does before one for another signer. -/
theorem deliver_later [Build] : (m.deliver a).1 = ((m.deliver b).2.deliver a).1 ∧
    SameFor a.signer (m.deliver a).2 ((m.deliver b).2.deliver a).2 :=
  deliver_alike intact (intact.deliver b) calmA (deliver_aside intact calmB ne)

/-- Calm messages of different signers commute. -/
theorem deliver_comm [Build] :
    ((m.deliver a).2.deliver b).2 = ((m.deliver b).2.deliver a).2 := by
  have intactA := intact.deliver a
  have intactB := intact.deliver b
  refine SameFor.ext (intactA.deliver b) (intactB.deliver a) fun z => ?_
  by_cases first : z = a.signer
  · subst first
    exact (deliver_aside intactA calmB ne).symm.trans (deliver_later intact calmA calmB ne).2
  · have asideA := deliver_aside intactB calmA first
    by_cases second : z = b.signer
    · subst second
      exact (deliver_later intact calmB calmA ne.symm).2.symm.trans asideA
    · have left := (deliver_aside intact calmA first).trans (deliver_aside intactA calmB second)
      exact left.symm.trans ((deliver_aside intact calmB second).trans asideA)

end Pairs

/-- Delivers messages one after the other; answers each with its receipt. -/
def deliverAll [Build] : List Message → Market → List (Message × Receipt) × Market
  | [], m => ([], m)
  | msg :: rest, m =>
      let (receipts, final) := deliverAll rest (m.deliver msg).2
      ((msg, (m.deliver msg).1) :: receipts, final)

/-- Deliveries of calm messages of different signers end the same in any order. -/
theorem deliverAll_perm [Build] (perm : l.Perm l') (intact : m.Intact) (calm : ∀ msg ∈ l, msg.Calm)
    (distinct : (l.map Message.signer).Nodup) :
    (deliverAll l m).1.Perm (deliverAll l' m).1 ∧ (deliverAll l m).2 = (deliverAll l' m).2 := by
  induction perm generalizing m with
  | nil => exact ⟨.refl _, rfl⟩
  | cons msg _ ih =>
      obtain ⟨receipts, final⟩ := ih (intact.deliver msg) (List.forall_mem_cons.1 calm).2
        (List.nodup_cons.1 distinct).2
      exact ⟨receipts.cons _, final⟩
  | swap a b rest =>
      obtain ⟨calmB, calmA, -⟩ := by simpa only [List.forall_mem_cons] using calm
      have ne : a.signer ≠ b.signer := fun same =>
        (List.nodup_cons.1 distinct).1 (same ▸ List.mem_cons_self)
      have afterB := (deliver_later intact calmA calmB ne).1
      have afterA := (deliver_later intact calmB calmA ne.symm).1
      simp only [deliverAll]
      rw [← afterA, ← afterB, deliver_comm intact calmA calmB ne]
      exact ⟨.swap _ _ _, rfl⟩
  | trans first _ ih ih' =>
      obtain ⟨receipts, final⟩ := ih intact calm distinct
      obtain ⟨receipts', final'⟩ := ih' intact (fun msg mem => calm msg (first.mem_iff.2 mem))
        ((first.map _).nodup_iff.1 distinct)
      exact ⟨receipts.trans receipts', final.trans final'⟩

/-- At any point of any run the order in which resting orders and cancellations of different senders
are delivered does not matter: each gets the same receipt, the market ends the same, and so does the
block after them. -/
theorem delivery_order_irrelevant [Build] (run : Run h m) (perm : l.Perm l')
    (calm : ∀ msg ∈ l, msg.Calm) (distinct : (l.map Message.signer).Nodup) :
    (deliverAll l m).1.Perm (deliverAll l' m).1 ∧ (deliverAll l m).2 = (deliverAll l' m).2 ∧
      ∀ header, ((deliverAll l m).2.endBlock header).1 =
        ((deliverAll l' m).2.endBlock header).1 := by
  obtain ⟨receipts, final⟩ := deliverAll_perm perm run.intact calm distinct
  exact ⟨receipts, final, fun header => by rw [final]⟩

/-- `a` takes its offer back. -/
def takeBack : Message := .cancelOrder ⟨⟨"a"⟩, ⟨"a-1-0"⟩⟩

/-- `b` bids for 3 more. -/
def bid3 : Message := .placeOrder ⟨⟨"b"⟩, 2, "btc/cet", .limit, 0, 6, 3, .buy, .goodTillExpire⟩

section Checked

attribute [local instance] Build.checked

/-- Both succeed, and the market ends the same in either order. -/
theorem quoted_order_irrelevant :
    (deliverAll [takeBack, bid3] quoted).1.map (·.2.success) = [true, true] ∧
      (deliverAll [takeBack, bid3] quoted).1.Perm (deliverAll [bid3, takeBack] quoted).1 ∧
      (deliverAll [takeBack, bid3] quoted).2 = (deliverAll [bid3, takeBack] quoted).2 := by
  have calm : ∀ msg ∈ [takeBack, bid3], msg.Calm := by decide
  have distinct : ([takeBack, bid3].map Message.signer).Nodup := by decide
  obtain ⟨receipts, final, -⟩ :=
    delivery_order_irrelevant quoted_run (.swap bid3 takeBack []) calm distinct
  exact ⟨by decide +kernel, receipts, final⟩

end Checked

end Market

end Bourse
