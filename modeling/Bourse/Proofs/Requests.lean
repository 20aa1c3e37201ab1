import Bourse.Proofs.BlockEnd
import Bourse.Proofs.Trace

/-!
# A market leaves at its creator's request

* `Moment.listing?`, `Moment.request?`: what a moment lists, and what removal it asks for;
* `Moment.Turns`: what an input does to the listings and the stored requests (`Intact.turns`);
* `Warranted`: every market was listed at some moment and not since, and every stored request was
  made since then, by the creator and in time; each input keeps this (`Warranted.next`);
* `removed_on_request`: hence no market is ever removed without such a request.
-/

namespace Bourse

namespace Tables

/-- Who listed the market. -/
def creator? (t : Tables) (p : PairId) : Option Address := (t.pairs[p]?).map (·.creator)

/-- The same markets are listed, by the same creators, and the same requests stored. -/
structure SameListings (t t' : Tables) : Prop where
  creators : ∀ p, t'.creator? p = t.creator? p
  delists : t'.delists = t.delists

variable {t t' : Tables} {p q : PairId} {a : Address}

theorem creator?_insertPair (t : Tables) (pair : Pair) (p : PairId) :
    (t.insertPair pair).creator? p = if pair.id = p then some pair.creator else t.creator? p := by
  rw [creator?, insertPair, filePair, Maps.getElem?_insert, creator?]
  split <;> rfl

theorem creator?_of_listing {s s' : Store}
    (same : (s'.pair? p).map Pair.listing = (s.pair? p).map Pair.listing) :
    s'.tables.creator? p = s.tables.creator? p := by
  have same := congrArg (Option.map Pair.creator) same
  rwa [Option.map_map, Option.map_map] at same

theorem Aside.sameListings (aside : t.Aside t') : SameListings t t' :=
  ⟨fun p => by rw [creator?, aside.pairs, creator?], aside.delists⟩

end Tables

namespace Ledger

variable {l l' : Ledger} {tokens : Tokens} {params : Params} {header : Header} {done : Executed}
  {height : Nat}

theorem placeOrder_listings [Build] {m : PlaceOrder} (wf : l.store.tables.WellFormed)
    (run : placeOrder m tokens params height l = .ok done l') :
    (∀ p, (l'.store.pair? p).map Pair.listing = (l.store.pair? p).map Pair.listing) ∧
      l'.store.tables.delists = l.store.tables.delists := by
  obtain ⟨pair, a, -, -, ⟨-, run⟩ | ⟨-, run⟩⟩ := placeOrder_ok run
  · obtain ⟨s, funds, stored, -, -, rfl⟩ := rest_ok run
    obtain ⟨-, -, rfl⟩ := Store.putOrder_ok.1 stored
    exact ⟨fun _ => rfl, rfl⟩
  · obtain ⟨s₁, book, c, s₂, funds, clearing, claimed, -, -, written, -, -, -, rfl⟩ :=
      takeOnce_ok run
    obtain ⟨-, -, rfl⟩ := Store.claimId_ok.1 claimed
    exact ⟨(Store.writeBack_listings (wf.useId a.order.id) written :),
      (Store.writeBack_delists written :)⟩

theorem place_listings [Build] {m : PlaceOrder} (wf : l.store.tables.WellFormed)
    (run : placeOrder m tokens params height l = .ok done l') :
    l.store.tables.SameListings l'.store.tables := by
  obtain ⟨listings, delists⟩ := placeOrder_listings wf run
  exact ⟨fun p => Tables.creator?_of_listing (listings p), delists⟩

theorem cancel_listings {m : CancelOrder} (run : cancelOrder m params l = .ok done l') :
    l.store.tables.SameListings l'.store.tables := by
  obtain ⟨out, s, clearing, cancelled, -, -, rfl⟩ := cancelOrder_ok run
  obtain ⟨o, -, -, rfl⟩ := Store.cancel_ok cancelled
  exact (Tables.aside_eraseOrder l.store.tables m.order).sameListings

theorem raise_listings {m : RaisePrecision} {out : Nat × Nat} {s s' : Store}
    (wf : s.tables.WellFormed) (run : Listing.raisePrecision m params s = .ok (out, s')) :
    s.tables.SameListings s'.tables := by
  obtain ⟨pair, found, -, -, rfl⟩ := Store.raisePrecision_ok run
  obtain ⟨q, -, stored⟩ := Store.lookup_ok found
  obtain rfl := wf.pair_id q pair stored
  refine ⟨fun p => ?_, rfl⟩
  rw [Store.setPair, Store.write, Tables.creator?_insertPair]
  split
  · next same =>
      have same : pair.id = p := same
      have stored : s.tables.pairs[pair.id]? = some pair := stored
      rw [← same, Tables.creator?, stored]
      rfl
  · rfl

end Ledger

namespace Market

/-- The market that a moment lists, and who lists it. -/
def Moment.listing? [Build] (x : Moment) : Option (PairId × Address) :=
  match x.input with
  | .setPair pair => some (pair.id, pair.creator)
  | .deliver (.createPair c) =>
      if (x.market.deliver (.createPair c)).1.success then some (.join c.stock c.money, c.creator)
      else none
  | _ => none

/-- The removal that a moment asks for, and who asks for it. -/
def Moment.request? [Build] (x : Moment) : Option (DelistRequest × Address) :=
  match x.input with
  | .deliver (.delistPair d) =>
      if (x.market.deliver (.delistPair d)).1.success then
        some (⟨d.effectiveTime, ⟨d.symbol⟩⟩, d.sender)
      else none
  | _ => none

def Moment.Lists [Build] (x : Moment) (p : PairId) : Prop := ∃ a, x.listing? = some (p, a)

/-- `a` asks for the removal, at a time that is not too early for the parameters in force. -/
def Moment.Asks [Build] (x : Moment) (r : DelistRequest) (a : Address) : Prop :=
  x.request? = some (r, a) ∧
    Clock.add x.market.header.time x.market.params.minDelistDelay ≤ r.effectiveTime

variable {past : List Moment} {m : Market} {x : Moment} {t t' : Tables} {p : PairId} {a : Address}
  {r : DelistRequest} {msg : Message}

/-- What an input does to the listings and the requests. -/
structure Moment.Turns [Build] (x : Moment) (t t' : Tables) : Prop where
  listed : ∀ p a, t'.creator? p = some a →
    x.listing? = some (p, a) ∨ ¬x.Lists p ∧ t.creator? p = some a
  left : ∀ p, (t.creator? p).isSome → t'.creator? p = none →
    ∃ header, x.input = .endBlock header ∧
      ∃ r ∈ t.delists, r.pair = p ∧ r.effectiveTime ≤ header.time
  requested : ∀ r ∈ t'.delists,
    r ∈ t.delists ∨ ∃ a, t.creator? r.pair = some a ∧ x.Asks r a
  kept : (∀ pair, x.input ≠ .setPair pair) → ∀ r ∈ t'.delists, ∀ a,
    t.creator? r.pair = some a → t'.creator? r.pair = some a ∧ ¬x.Lists r.pair

theorem not_lists [Build] (idle : x.listing? = none) (p : PairId) : ¬x.Lists p := by
  rintro ⟨a, lists⟩
  simp [idle] at lists

/-- The listings stay, and what requests are new were asked for. -/
theorem turns_of_creators [Build] (idle : x.listing? = none)
    (creators : ∀ p, t'.creator? p = t.creator? p)
    (requested : ∀ r ∈ t'.delists, r ∈ t.delists ∨ ∃ a, t.creator? r.pair = some a ∧ x.Asks r a) :
    x.Turns t t' := by
  refine ⟨fun p a found => .inr ⟨not_lists idle p, creators p ▸ found⟩, fun p known gone => ?_,
    requested, fun _ r _ a found => ⟨(creators r.pair).trans found, not_lists idle r.pair⟩⟩
  rw [creators] at gone
  simp [gone] at known

theorem turns_of_same [Build] (same : t.SameListings t') (idle : x.listing? = none) :
    x.Turns t t' :=
  turns_of_creators idle same.creators fun _ mem => .inl (same.delists ▸ mem)

/-- A market is listed, which is new unless it is put in. -/
theorem turns_of_insertPair [Build] {pair : Pair}
    (lists : x.listing? = some (pair.id, pair.creator))
    (new : (∀ q, x.input ≠ .setPair q) → t.creator? pair.id = none) :
    x.Turns t (t.insertPair pair) := by
  have only : ∀ p, x.Lists p → pair.id = p := by
    rintro p ⟨a, same⟩
    exact congrArg Prod.fst (Option.some.inj (lists.symm.trans same))
  refine ⟨fun p a found => ?_, fun p known gone => ?_, fun r mem => .inl mem,
    fun calm r mem a found => ?_⟩
  · rw [Tables.creator?_insertPair] at found
    split at found
    · next same =>
        obtain rfl := Option.some.inj found
        exact .inl (same ▸ lists)
    · next other => exact .inr ⟨fun lists => other (only p lists), found⟩
  · rw [Tables.creator?_insertPair] at gone
    split at gone
    · cases gone
    · simp [gone] at known
  · have other : pair.id ≠ r.pair := fun same => by
      rw [← same, new calm] at found
      cases found
    refine ⟨?_, fun lists => other (only _ lists)⟩
    rw [Tables.creator?_insertPair, if_neg other, found]

/-- A request is stored: the creator's, and made in time. -/
theorem turns_of_schedule [Build] {d : DelistPair} {s s' : Store} (wf : s.tables.WellFormed)
    (idle : x.listing? = none)
    (asks : x.request? = some (⟨d.effectiveTime, ⟨d.symbol⟩⟩, d.sender))
    (run : s.scheduleDelist d x.market.params x.market.header.time = .ok (r, s')) :
    x.Turns s.tables s'.tables := by
  obtain ⟨pair, found, owned, rfl, timely, tables⟩ := Store.scheduleDelist_ok run
  obtain ⟨q, parsed, stored⟩ := Store.lookup_ok found
  obtain rfl := wf.pair_id q pair stored
  refine turns_of_creators idle (fun p => by rw [tables, Tables.creator?, Tables.creator?])
    fun r mem => ?_
  rw [tables, Std.ExtTreeSet.mem_insert, Std.LawfulEqCmp.compare_eq_iff_eq] at mem
  refine mem.symm.imp_right ?_
  rintro rfl
  have stored : s.tables.pairs[pair.id]? = some pair := stored
  refine ⟨d.sender, ?_, ?_, timely⟩
  · rw [Tables.creator?, stored, Option.map_some, owned]
  · rw [asks, PairId.parse_ok parsed]

/-- What an accepted message does, on the ledger. -/
theorem execute_turns [Build] {l l' : Ledger} {done : Executed} (wf : l.store.tables.WellFormed)
    (here : x.input = .deliver msg) (accepted : (x.market.deliver msg).1.success = true)
    (run : Ledger.execute x.market.tokens x.market.params x.market.header msg l = .ok done l') :
    x.Turns l.store.tables l'.store.tables := by
  cases msg with
  | createPair c =>
      obtain ⟨id, created, -⟩ := Ledger.execute_create_ok run
      obtain ⟨s, funds, -, inserted, -, rfl⟩ := Ledger.create_ok created
      obtain ⟨absent, rfl⟩ := Store.insertPair_ok.1 inserted
      refine turns_of_insertPair ?_ fun _ => ?_
      · rw [Moment.listing?, here]
        exact if_pos accepted
      · exact Option.map_eq_none_iff.2 absent
  | delistPair d =>
      obtain ⟨r, s, scheduled, -, rfl⟩ := Ledger.execute_delist_ok run
      refine turns_of_schedule wf ?_ ?_ scheduled
      · rw [Moment.listing?, here]
      · rw [Moment.request?, here]
        exact if_pos accepted
  | raisePrecision d =>
      obtain ⟨out, s, raised, -, rfl⟩ := Ledger.execute_raise_ok run
      exact turns_of_same (Ledger.raise_listings wf raised) (by rw [Moment.listing?, here])
  | placeOrder d =>
      exact turns_of_same (Ledger.place_listings wf run) (by rw [Moment.listing?, here])
  | cancelOrder d =>
      exact turns_of_same (Ledger.cancel_listings run) (by rw [Moment.listing?, here])

/-- What a block end does that succeeds, on the ledger. -/
theorem endBlock_turns [Build] {l l' : Ledger} {params : Params} {header : Header} {report : Report}
    {batch : Batch} (wf : l.store.tables.WellFormed) (here : x.input = .endBlock header)
    (run : Ledger.endBlock params header l = .ok (report, batch) l') :
    x.Turns l.store.tables l'.store.tables := by
  obtain ⟨due, s₁, -, matching, cleared, delisted, -, -⟩ := Ledger.endBlock_swept wf run
  have idle : x.listing? = none := by rw [Moment.listing?, here]
  have matched : ∀ p, s₁.tables.creator? p = l.store.tables.creator? p := fun p =>
    Tables.creator?_of_listing (matching.listings p)
  have creators : ∀ p, l'.store.tables.creator? p =
      if p ∈ report.delisted then none else l.store.tables.creator? p := fun p => by
    rw [← matched p]
    have pairs := congrArg (Option.map (·.creator)) (cleared.pair?_eq (p := p))
    split
    · next left => rwa [if_pos left] at pairs
    · next stays => rwa [if_neg stays] at pairs
  refine ⟨fun p a found => ?_, fun p known gone => ?_, fun r mem => ?_, fun _ r mem a found => ?_⟩
  · rw [creators] at found
    split at found
    · cases found
    · exact .inr ⟨not_lists idle p, found⟩
  · rw [creators] at gone
    split at gone
    · next left =>
        obtain ⟨-, r, mem, same, due⟩ := (delisted p).1 left
        exact ⟨header, here, r, matching.delists ▸ mem, same, due⟩
    · simp [gone] at known
  · exact .inl (matching.delists ▸ ((cleared.requests r).1 mem).1)
  · refine ⟨?_, not_lists idle r.pair⟩
    rw [creators, if_neg ((cleared.requests r).1 mem).2.2, found]

/-- What an input does, in a market whose failures are undone. -/
theorem Intact.turns [Build] (intact : m.Intact) (i : Input) :
    Moment.Turns ⟨m, i⟩ m.ledger.store.tables (m.after i).ledger.store.tables := by
  cases i with
  | beginBlock | accounts | params | tokens => exact turns_of_same ⟨fun _ => rfl, rfl⟩ rfl
  | setPair pair => exact turns_of_insertPair rfl fun calm => absurd rfl (calm pair)
  | deliver msg =>
      obtain ⟨refused, same, -⟩ | ⟨done, l, -, accepted, acted, same, -⟩ :=
        intact.after_deliver msg
      · rw [same]
        refine turns_of_same ⟨fun _ => rfl, rfl⟩ ?_
        cases msg <;> simp [Moment.listing?, refused]
      · rw [same]
        exact (execute_turns (x := ⟨m, .deliver msg⟩) intact.opened rfl accepted acted :)
  | endBlock header =>
      obtain ⟨fault, -, same, -⟩ | ⟨report, batch, l, -, acted, same, -⟩ :=
        intact.after_endBlock header
      · rw [same]
        exact turns_of_same ⟨fun _ => rfl, rfl⟩ rfl
      · rw [same]
        exact (endBlock_turns (x := ⟨m, .endBlock header⟩) intact.opened rfl acted :)

/-- The market was listed by `a`, and not since. -/
def ListedBy [Build] (past : List Moment) (p : PairId) (a : Address) : Prop :=
  ∃ before x after, past = before ++ x :: after ∧ x.listing? = some (p, a) ∧
    ∀ y ∈ after, ¬y.Lists p

/-- The market's creator asked for its removal after it was last listed. -/
def AskedBy [Build] (past : List Moment) (r : DelistRequest) (a : Address) : Prop :=
  ∃ before x after, past = before ++ x :: after ∧ ListedBy before r.pair a ∧ x.Asks r a ∧
    ∀ y ∈ after, ¬y.Lists r.pair

theorem ListedBy.append [Build] (listed : ListedBy past p a) (quiet : ¬x.Lists p) :
    ListedBy (past ++ [x]) p a := by
  obtain ⟨before, y, after, rfl, lists, since⟩ := listed
  refine ⟨before, y, after ++ [x], by simp, lists, ?_⟩
  simpa [or_imp, forall_and] using ⟨since, quiet⟩

theorem AskedBy.append [Build] (asked : AskedBy past r a) (quiet : ¬x.Lists r.pair) :
    AskedBy (past ++ [x]) r a := by
  obtain ⟨before, y, after, rfl, listed, asks, since⟩ := asked
  refine ⟨before, y, after ++ [x], by simp, listed, asks, ?_⟩
  simpa [or_imp, forall_and] using ⟨since, quiet⟩

/-- Every market was listed at some moment and not since, and every stored request made since. -/
structure Warranted [Build] (past : List Moment) (t : Tables) : Prop where
  listed : ∀ p a, t.creator? p = some a → ListedBy past p a
  asked : ∀ r ∈ t.delists, ∃ a, t.creator? r.pair = some a ∧ AskedBy past r a

/-- An input keeps this, unless it puts in a market while requests are stored. -/
theorem Warranted.next [Build] (warranted : Warranted past t) (turns : x.Turns t t')
    (put : ∀ pair, x.input = .setPair pair → ∀ r, r ∉ t.delists) :
    Warranted (past ++ [x]) t' := by
  constructor
  · intro p a found
    obtain lists | ⟨quiet, before⟩ := turns.listed p a found
    · exact ⟨past, x, [], rfl, lists, by simp⟩
    · exact (warranted.listed p a before).append quiet
  · intro r mem
    have calm : ∀ pair, x.input ≠ .setPair pair := by
      intro pair same
      obtain old | ⟨a, -, asks, -⟩ := turns.requested r mem
      · exact put pair same r old
      · rw [Moment.request?, same] at asks
        cases asks
    obtain old | ⟨a, known, asks⟩ := turns.requested r mem
    · obtain ⟨a, known, asked⟩ := warranted.asked r old
      obtain ⟨still, quiet⟩ := turns.kept calm r mem a known
      exact ⟨a, still, asked.append quiet⟩
    · obtain ⟨still, -⟩ := turns.kept calm r mem a known
      exact ⟨a, still, past, x, [], rfl, warranted.listed r.pair a known, asks, by simp⟩

/-- Markets are put in before the first message only. -/
def PutFirst (past : List Moment) : Prop :=
  past.Pairwise fun x y => (∃ msg, x.input = .deliver msg) → ∀ pair, y.input ≠ .setPair pair

theorem Trace.warranted [Build] (trace : Trace past m) (first : PutFirst past) :
    Warranted past m.ledger.store.tables := by
  induction trace with
  | start tokens params range => exact ⟨by simp [Tables.creator?], by simp⟩
  | @next past m i trace fits ih =>
      obtain ⟨before, -, apart⟩ := List.pairwise_append.1 first
      have warranted := ih before
      refine warranted.next (trace.intact.turns i) fun pair put r mem => ?_
      -- A stored request was delivered before the market was put in.
      obtain ⟨a, -, earlier, y, later, rfl, -, ⟨asks, -⟩, -⟩ := warranted.asked r mem
      refine apart y (by simp) _ (List.mem_singleton.2 rfl) ?_ pair put
      rw [Moment.request?] at asks
      split at asks
      · next d same => exact ⟨_, same⟩
      · cases asks

/-- No market is ever removed but at the end of a block, and by a request that its creator made
after it was last listed, in time, and that is due. No request that is due is left when a block
ends. -/
theorem removed_on_request [Build] (trace : Trace past m) (first : PutFirst past) :
    (∀ i p pair, m.ledger.store.pair? p = some pair →
      (m.after i).ledger.store.pair? p = none →
      ∃ header, i = .endBlock header ∧
        ∃ r, r.pair = p ∧ AskedBy past r pair.creator ∧ r.effectiveTime ≤ header.time) ∧
    ∀ header report, (m.endBlock header).1 = .ok report →
      ∀ r ∈ (m.endBlock header).2.ledger.store.tables.delists, header.time < r.effectiveTime := by
  constructor
  · intro i p pair here gone
    have creator : m.ledger.store.tables.creator? p = some pair.creator :=
      congrArg (Option.map Pair.creator) here
    have none : (m.after i).ledger.store.tables.creator? p = none :=
      congrArg (Option.map Pair.creator) gone
    obtain ⟨header, ended, r, mem, rfl, due⟩ :=
      (trace.intact.turns i).left p (by rw [creator]; rfl) none
    obtain ⟨a, known, asked⟩ := (trace.warranted first).asked r mem
    obtain rfl := Option.some.inj (known.symm.trans creator)
    exact ⟨header, ended, r, rfl, asked, due⟩
  · intro header report ended r mem
    obtain ⟨_, failed, -⟩ | ⟨_, batch, -, run⟩ := m.endBlock_cases header
    · simp [failed] at ended
    obtain ⟨l, acted, same⟩ := Market.closeBlock_ok run
    have wf : (m.ledger.withStore m.ledger.store.openJournal).store.tables.WellFormed :=
      trace.intact.tables
    obtain ⟨-, -, -, -, -, -, swept, -⟩ := Ledger.endBlock_swept wf acted
    rw [same] at mem
    by_contra due
    have due : r ∈ l.store.tables.dueDelists header.time :=
      Tables.mem_dueDelists.2 ⟨mem, decide_eq_true (not_lt.1 due)⟩
    rw [swept] at due
    cases due

section Leaving

attribute [local instance] Build.checked

/-- `a` asks for the removal of the market in a week. -/
def farewell : Message := .delistPair ⟨⟨"a"⟩, "btc/cet", 604800⟩

def leaving : Market := (listed.deliver farewell).2

def leavingPast : List Moment := [⟨traders, .deliver listing⟩, ⟨listed, .deliver farewell⟩]

theorem leaving_trace : Trace leavingPast leaving := by
  have start : Trace [] traders := .start traders.tokens .default traders_range
  exact (start.next (.deliver listing) trivial).next (.deliver farewell) trivial

/-- After that week the market is gone. -/
theorem leaving_removed : (leaving.endBlock ⟨1, 604800⟩).2.ledger.store.pair? ⟨"btc/cet"⟩ = none ∧
    ∃ r, r.pair = ⟨"btc/cet"⟩ ∧ AskedBy leavingPast r ⟨"a"⟩ ∧ r.effectiveTime ≤ 604800 := by
  have here : (leaving.ledger.store.pair? ⟨"btc/cet"⟩).map Pair.creator = some ⟨"a"⟩ := by
    decide +kernel
  have gone : (leaving.endBlock ⟨1, 604800⟩).2.ledger.store.pair? ⟨"btc/cet"⟩ = none := by
    decide +kernel
  have first : PutFirst leavingPast := by
    refine List.pairwise_of_forall_mem_list fun x _ y mem _ pair put => ?_
    simp only [leavingPast, List.mem_cons, List.not_mem_nil, or_false] at mem
    obtain rfl | rfl := mem <;> cases put
  obtain ⟨pair, found, creator⟩ := Option.map_eq_some_iff.1 here
  obtain ⟨header, same, r, named, asked, due⟩ :=
    (removed_on_request leaving_trace first).1 (.endBlock ⟨1, 604800⟩) _ pair found gone
  cases same
  exact ⟨gone, r, named, creator ▸ asked, due⟩

end Leaving

end Market

end Bourse
