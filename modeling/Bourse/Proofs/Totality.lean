import Bourse.Proofs.Balance
import Bourse.Proofs.Health
import Bourse.Proofs.Sweep
import Mathlib.Data.List.Perm.Subperm

/-!
# Matching and delisting cannot fail

* `Store.Ready`: the tables are well-formed, every resting order is open and covered, and its market
  is listed;
* `matchPairs_total`: the markets of a ready store can all be matched, which leaves it ready, where
  no counter stops it;
* `sweepDue_total`: and every request that is due can be carried out.
-/

namespace Bourse.Store

open scoped List

variable {s s' : Store} {o : Order} {id k : OrderId} {l : List Order} {pair q : PairId} {b₀ : Book}
  {p : Pass} {v : Venue} {base : Denom} {seq : Nat}

structure Ready (s : Store) : Prop where
  tables : s.tables.WellFormed
  unfilled : ∀ o ∈ s.resting, o.remaining ≠ 0
  covered : ∀ o ∈ s.resting, o.Covered
  listed : ∀ o ∈ s.resting, (s.pair? o.pair).isSome

/-- A store with fewer orders, none of them without its market, stays ready. -/
theorem Ready.of_subset (ready : s.Ready) (wf : s'.tables.WellFormed)
    (subset : ∀ o ∈ s'.resting, o ∈ s.resting)
    (listed : ∀ o ∈ s'.resting, (s'.pair? o.pair).isSome) : s'.Ready :=
  ⟨wf, fun o mem => ready.unfilled o (subset o mem), fun o mem => ready.covered o (subset o mem),
    listed⟩

section Loading

theorem loadBook_total (ready : s.Ready) (pair : PairId) : ∃ b, s.loadBook pair = .ok b := by
  have stored : ∀ o ∈ s.tables.ordersOf pair, o ∈ s.resting ∧ o.pair = pair := by
    intro o mem
    obtain ⟨found, own⟩ := ready.tables.mem_ordersOf.1 mem
    exact ⟨(mem_resting ready.tables).2 found, own⟩
  exact Book.ofOrders_total (fun o mem => (stored o mem).2)
    (fun o mem => ready.unfilled o (stored o mem).1) (ready.tables.nodup_ordersOf pair)

theorem loaded_length (wf : s.tables.WellFormed) (load : s.loadBook pair = .ok b₀) :
    b₀.all.length ≤ s.resting.length := by
  have distinct := List.Nodup.of_map _ (Book.ofOrders_ok load).1.ids
  exact (List.subperm_of_subset distinct (loaded_resting wf load)).length_le

end Loading

section Writing

theorem removeAll_total (stored : ∀ o ∈ l, (s.order? o.id).isSome)
    (distinct : (l.map (·.id)).Nodup) :
    ∃ t, (l.forM fun o => Action.change fun s => s.removeFilled o) s = .ok ⟨⟩ t := by
  induction l generalizing s with
  | nil => exact ⟨s, Action.forM_nil_ok.2 rfl⟩
  | cons o rest ih =>
      rw [List.map_cons, List.nodup_cons] at distinct
      obtain ⟨found, here⟩ := Option.isSome_iff_exists.1 (stored o List.mem_cons_self)
      have removed := removeFilled_ok.2 ⟨found, removeOrder_ok.2 ⟨here, rfl⟩⟩
      obtain ⟨t, run⟩ := ih (s := s.write (.order o.id (some found)) (s.tables.eraseOrder o.id))
        (fun o' mem => by
          have other : o.id ≠ o'.id := fun same => distinct.1 (same ▸ List.mem_map_of_mem mem)
          rw [order?, write, Tables.eraseOrder_orders, Maps.getElem?_erase, if_neg other]
          exact stored o' (.tail o mem)) distinct.2
      exact ⟨t, Action.forM_cons_ok.2 ⟨_, Action.change_ok.2 removed, run⟩⟩

theorem updateAll_total (stored : ∀ o ∈ l, ∃ before, s.order? o.id = some before ∧
      before.pair = o.pair) :
    ∃ t, (l.forM fun o => Action.change fun s => s.updateOrder o) s = .ok ⟨⟩ t := by
  induction l generalizing s with
  | nil => exact ⟨s, Action.forM_nil_ok.2 rfl⟩
  | cons o rest ih =>
      obtain ⟨before, here, same⟩ := stored o List.mem_cons_self
      have updated := updateOrder_ok.2 ⟨before, here, same, rfl⟩
      obtain ⟨t, run⟩ := ih (s := s.write (.order o.id (some before)) (s.tables.replaceOrder o))
        (fun o' mem => by
          obtain ⟨before', there, same'⟩ := stored o' (.tail o mem)
          have replaced : (s.write (.order o.id (some before)) (s.tables.replaceOrder o)).order?
              o'.id = if o.id = o'.id then some o else s.order? o'.id :=
            Maps.getElem?_insert _ _ _ _
          rw [replaced]
          by_cases eq : o.id = o'.id
          · rw [← eq, here] at there
            rw [if_pos eq]
            exact ⟨o, rfl, same.symm.trans (Option.some.inj there ▸ same')⟩
          · rw [if_neg eq]
            exact ⟨before', there, same'⟩)
      exact ⟨t, Action.forM_cons_ok.2 ⟨_, Action.change_ok.2 updated, run⟩⟩

theorem setLastPrice_total {found : Pair} (stored : s.pair? pair = some found)
    (own : found.id = pair) (price : Decimal) : ∃ t, s.setLastPrice pair price = .ok t := by
  have known : s.hasPair pair = true := by
    rw [hasPair_eq, stored]
    rfl
  refine ⟨s.setPair { found with lastPrice := price }, ?_⟩
  rw [setLastPrice, stored]
  have same : ({ found with lastPrice := price } : Pair).id = pair := own
  simp only [updatePair, same, known, ↓reduceIte]

/-- A pass over the book of a listed market can be written back. -/
theorem writeBack_total (wf : s.tables.WellFormed) (load : s.loadBook pair = .ok b₀)
    (start : p.From b₀) (listed : (s.pair? pair).isSome) :
    ∃ t, writeBack pair p.finish s = .ok () t := by
  obtain ⟨sound, own, -⟩ := Book.ofOrders_ok load
  obtain ⟨booked, filled, apart⟩ := start.apart sound.ids
  -- Whatever takes part in the pass is stored under its id, in the same market.
  have stored : ∀ o ∈ p.orders, ∃ before, s.order? o.id = some before ∧ before.pair = o.pair := by
    intro o mem
    have known : o.id ∈ b₀.all.map (·.id) :=
      (Pass.ids_of_terms start.terms).mem_iff.1 (List.mem_map_of_mem mem)
    obtain ⟨before, loaded, same⟩ := List.mem_map.1 known
    obtain ⟨found, market⟩ := (mem_loaded wf load).1 loaded
    refine ⟨before, same ▸ found, ?_⟩
    rw [market, start.pair_of_mem sound mem, own]
  obtain ⟨t, removed⟩ := removeAll_total (s := s) (l := p.crossing.filled)
    (fun o mem => by
      obtain ⟨before, found, -⟩ := stored o (List.mem_append_right _ mem)
      exact Option.isSome_iff_exists.2 ⟨before, found⟩) filled
  obtain ⟨aside, left⟩ := removeAll_orders removed
  obtain ⟨t', updated⟩ := updateAll_total (s := t) (l := p.finish.updated) fun o mem => by
    obtain ⟨touched, -, hit⟩ := List.mem_filterMap.1 mem
    have inBook := ((Book.find?_eq_some booked).1 hit).1
    rw [order?, left, if_neg (apart _ (List.mem_map_of_mem inBook))]
    exact stored o (List.mem_append_left _ inBook)
  obtain ⟨found, here⟩ := Option.isSome_iff_exists.1 listed
  have pairs : t'.pair? pair = some found := by
    rw [pair?, (updateAll_orders updated).1.pairs, aside.pairs]
    exact here
  unfold writeBack
  cases p.finish.lastPrice with
  | none =>
      have noted : (pure () : Action Store Unit) t' = .ok () t' := Action.pure_ok.2 ⟨rfl, rfl⟩
      exact ⟨t', Action.bind_ok.2 ⟨_, t, removed, Action.bind_ok.2 ⟨_, t', updated, noted⟩⟩⟩
  | some price =>
      obtain ⟨t'', done⟩ := setLastPrice_total pairs (wf.pair_id _ _ here) price
      have noted : Action.change (fun s => s.setLastPrice pair price) t' = .ok () t'' :=
        Action.change_ok.2 done
      exact ⟨t'', Action.bind_ok.2 ⟨_, t, removed, Action.bind_ok.2 ⟨_, t', updated, noted⟩⟩⟩

end Writing

section Matching

variable {trades more : List Trade} {seq' seq'' : Nat} {s'' : Store}

/-- Matching went on: the store is ready, the trades are numbered in turn, and for every number
taken an order has left. -/
structure Matched (v : Venue) (seq seq' : Nat) (trades : List Trade) (s s' : Store) : Prop where
  ready : s'.Ready
  numbered : Trade.Numbered v.height seq trades
  next : seq' = seq + trades.length
  room : seq' + s'.resting.length ≤ seq + s.resting.length
  pairs : ∀ q, (s.pair? q).isSome → (s'.pair? q).isSome
  usedIds : s'.tables.usedIds = s.tables.usedIds

theorem Matched.refl (ready : s.Ready) (v : Venue) (seq : Nat) : Matched v seq seq [] s s :=
  ⟨ready, .nil seq, rfl, Nat.le_refl _, fun _ => id, rfl⟩

theorem Matched.trans (first : Matched v seq seq' trades s s')
    (second : Matched v seq' seq'' more s' s'') : Matched v seq seq'' (trades ++ more) s s'' where
  ready := second.ready
  numbered := first.numbered.append (first.next ▸ second.numbered)
  next := by rw [second.next, first.next, List.length_append, Nat.add_assoc]
  room := second.room.trans first.room
  pairs q known := second.pairs q (first.pairs q known)
  usedIds := second.usedIds.trans first.usedIds

/-- What writing back a pass leaves of the other tables. -/
theorem writeBack_aside {c : Crossing} {u : Unit} (run : writeBack pair c s = .ok u s') :
    (∀ q, (s.pair? q).isSome → (s'.pair? q).isSome) ∧ s'.tables.usedIds = s.tables.usedIds := by
  obtain ⟨t, t', removed, updated, last⟩ := writeBack_ok run
  have aside := (removeAll_orders removed).1.trans (updateAll_orders updated).1
  have known : ∀ q, t'.pair? q = s.pair? q := fun q => by rw [pair?, aside.pairs, pair?]
  obtain ⟨-, rfl⟩ | ⟨price, found, -, here, rfl⟩ := last
  · exact ⟨fun q listed => known q ▸ listed, aside.usedIds⟩
  · refine ⟨fun q listed => ?_, aside.usedIds⟩
    rw [pair?_setPair]
    split
    · rfl
    · exact known q ▸ listed

theorem writeBack_ready (ready : s.Ready) (load : s.loadBook pair = .ok b₀) (start : p.From b₀)
    (covered : ∀ o ∈ p.book.all, o.Covered) {u : Unit}
    (run : writeBack pair p.finish s = .ok u s') : s'.Ready := by
  have wf := ((upkeep_extends.writeBack pair p.finish).ok run ready.tables).1
  have perm := writeBack_values ready.tables load start run
  obtain ⟨sound, own, -⟩ := Book.ofOrders_ok load
  have origin : ∀ o ∈ s'.resting, o ∈ s.resting ∨ o ∈ p.book.all := fun o mem =>
    List.mem_append.1 (perm.mem_iff.1 (List.mem_append_left _ mem))
  refine ⟨wf, fun o mem => ?_, fun o mem => ?_, fun o mem => ?_⟩
  · exact (origin o mem).elim (ready.unfilled o) (start.unfilled o)
  · exact (origin o mem).elim (ready.covered o) (covered o)
  · apply (writeBack_aside run).1 o.pair
    obtain old | booked := origin o mem
    · exact ready.listed o old
    · -- What is booked is of the same market as some order that rested.
      have ne : b₀.all ≠ [] := by
        intro none
        have terms := start.terms.length_eq
        rw [none, List.length_map, List.length_map, List.length_nil, Pass.orders,
          List.length_append] at terms
        have := List.length_pos_of_mem booked
        omega
      obtain ⟨x, loaded⟩ := List.exists_mem_of_ne_nil _ ne
      have market := start.pair_of_mem sound (List.mem_append_left p.crossing.filled booked)
      rw [market, ← sound.pair x loaded]
      exact ready.listed x (loaded_resting ready.tables load x loaded)

theorem writeBack_length (wf : s.tables.WellFormed) (load : s.loadBook pair = .ok b₀)
    (start : p.From b₀) {u : Unit} (run : writeBack pair p.finish s = .ok u s') :
    s'.resting.length + b₀.all.length = s.resting.length + p.book.all.length := by
  have perm := (writeBack_values wf load start run).length_eq
  rwa [List.length_append, List.length_append] at perm

/-- A listed market of a ready store can be matched. -/
theorem matchPair_total [Build] (release : Build.isChecked = false) (ready : s.Ready)
    (listed : (s.pair? pair).isSome) (v : Venue)
    (room : seq + s.resting.length ≤ Word.size) : ∃ c seq' s',
      matchPair v seq pair s = .ok (c, seq') s' ∧ Matched v seq seq' c.trades s s' := by
  obtain ⟨b₀, load⟩ := loadBook_total ready pair
  have sound := (Book.ofOrders_ok load).1
  have covered : ∀ o ∈ b₀.all, o.Covered := fun o mem =>
    ready.covered o (loaded_resting ready.tables load o mem)
  have room' : seq + b₀.all.length ≤ Word.size := by
    have := loaded_length ready.tables load
    omega
  have total := Pass.matchResting_total sound covered release v room'
  have healthy := Pass.resting_healthy sound covered v room'
  have start := resting_from sound v seq
  have count := healthy.room
  rw [start.openCount_orders] at count
  have next : (matchResting v seq b₀).nextFill = (Pass.resting v seq b₀).nextFill := rfl
  generalize Pass.resting v seq b₀ = p at *
  have run : ∀ {r t}, (do
      unless p.finish.isEmpty do writeBack pair p.finish
      return (p.finish, (matchResting v seq b₀).nextFill) : Action Store (Crossing × Nat)) s =
        .ok r t → matchPair v seq pair s = .ok r t := fun run =>
    Action.bind_ok.2 ⟨b₀, s, Action.ask_ok.2 ⟨load, rfl⟩,
      Action.bind_ok.2 ⟨p.finish, s, Action.ask_ok.2 ⟨total, rfl⟩, run⟩⟩
  by_cases bare : p.finish.trades = []
  · have none : p.crossing.trades = [] := bare
    refine ⟨p.finish, p.nextFill, s, run ?_, ready, bare ▸ .nil seq, ?_, ?_, fun _ => id, rfl⟩
    · simp only [Crossing.isEmpty, bare, List.isEmpty_nil, ↓reduceIte, next]
      rfl
    · rw [bare, healthy.next, none]
    · rw [healthy.next, none, List.length_nil, Nat.add_zero]
  · obtain ⟨t, written⟩ := writeBack_total ready.tables load start listed
    have full : p.finish.isEmpty = false := by simpa [Crossing.isEmpty] using bare
    have length := writeBack_length ready.tables load start written
    obtain ⟨pairs, usedIds⟩ := writeBack_aside written
    refine ⟨p.finish, p.nextFill, t, run ?_, ?_, healthy.numbered, healthy.next, by omega, pairs,
      usedIds⟩
    · simp only [full, Bool.false_eq_true, ↓reduceIte, next]
      exact Action.bind_ok.2 ⟨(), t, written, rfl⟩
    · exact writeBack_ready ready load start
        (fun o mem => healthy.covered o (List.mem_append_left _ mem)) written

/-- And so can any number of them in turn. -/
theorem matchPairs_total [Build] {pairs : List PairId} (release : Build.isChecked = false)
    (ready : s.Ready) (listed : ∀ q ∈ pairs, (s.pair? q).isSome) (v : Venue)
    (room : seq + s.resting.length ≤ Word.size) : ∃ batch seq' s',
      matchPairs v seq pairs s = .ok (batch, seq') s' ∧ Matched v seq seq' batch.trades s s' := by
  induction pairs generalizing s seq with
  | nil => exact ⟨{}, seq, s, rfl, .refl ready v seq⟩
  | cons q rest ih =>
      obtain ⟨c, seq₁, t, first, matched⟩ :=
        matchPair_total release ready (listed q List.mem_cons_self) v room
      obtain ⟨batch, seq₂, t', later, matched'⟩ := ih matched.ready
        (fun q' mem => matched.pairs q' (listed q' (.tail q mem))) (matched.room.trans room)
      exact ⟨c.batch ++ batch, seq₂, t',
        matchPairs_cons_ok.2 ⟨c, seq₁, t, batch, first, later, rfl⟩, matched.trans matched'⟩

end Matching

section Taking

/-- A covered order can be matched against the book of its market, if that is listed. -/
theorem matchIncoming_total [Build] {t : Order} (release : Build.isChecked = false)
    (ready : s.Ready) (own : t.Covered) (listed : (s.pair? t.pair).isSome) (v : Venue)
    (room : seq + s.resting.length + 1 ≤ Word.size) : ∃ b₀ s',
      s.loadBook t.pair = .ok b₀ ∧
      (matchIncoming v seq b₀ t).1.outcome = .ok (Pass.incoming v seq b₀ t).1.finish ∧
      writeBack t.pair (Pass.incoming v seq b₀ t).1.finish s = .ok () s' ∧ s'.Ready ∧
      Trade.Numbered v.height seq (Pass.incoming v seq b₀ t).1.finish.trades ∧
      (Pass.incoming v seq b₀ t).1.nextFill =
        seq + (Pass.incoming v seq b₀ t).1.finish.trades.length ∧
      (Pass.incoming v seq b₀ t).1.nextFill + s'.resting.length ≤ seq + s.resting.length + 1 ∧
      s'.tables.usedIds = s.tables.usedIds := by
  obtain ⟨b₀, load⟩ := loadBook_total ready t.pair
  obtain ⟨sound, market, -⟩ := Book.ofOrders_ok load
  have covered : ∀ o ∈ b₀.all, o.Covered := fun o mem =>
    ready.covered o (loaded_resting ready.tables load o mem)
  have room' : seq + b₀.all.length + 1 ≤ Word.size := by
    have := loaded_length ready.tables load
    omega
  have total := Pass.matchIncoming_total sound covered own market.symm release v room'
  have healthy := Pass.incoming_healthy sound covered own market.symm v room'
  have start := incoming_from sound v seq market.symm
  refine ⟨b₀, ?_⟩
  generalize Pass.incoming v seq b₀ t = out at *
  obtain ⟨s', written⟩ := writeBack_total ready.tables load start listed
  have still := writeBack_ready ready load start
    (fun o mem => healthy.covered o (.tail _ (List.mem_append_left _ mem))) written
  have length := writeBack_length ready.tables load start written
  have count := healthy.room
  rw [Order.openCount_cons, start.openCount_orders] at count
  exact ⟨s', load, total, written, still, healthy.numbered, healthy.next, by omega,
    (writeBack_aside written).2⟩

end Taking

section Listing

/-- The markets with resting orders are listed. -/
theorem activePairs_listed (ready : s.Ready) :
    ∀ q ∈ s.tables.activePairs, (s.pair? q).isSome := by
  intro q mem
  rw [Tables.activePairs, Std.ExtTreeMap.mem_keys] at mem
  obtain ⟨ids, entry⟩ := Option.isSome_iff_exists.1 (Std.ExtTreeMap.mem_iff_isSome_getElem?.1 mem)
  have some := ready.tables.listed q ids entry
  obtain ⟨k, known⟩ : ∃ k, k ∈ ids := by
    by_contra none
    exact some (Std.ExtTreeSet.ext_mem fun k =>
      ⟨fun mem => absurd ⟨k, mem⟩ none, fun mem => absurd mem Std.ExtTreeSet.not_mem_empty⟩)
  have indexed : k ∈ s.tables.indexed q := by
    rw [Tables.indexed_eq, entry]
    exact known
  obtain ⟨o, found, market⟩ := (ready.tables.mem_indexed q k).1 indexed
  have id := ready.tables.order_id k o found
  exact market ▸ ready.listed o ((mem_resting ready.tables).2 (id.symm ▸ found))

theorem duePairs_total {ids : List PairId} (listed : ∀ q ∈ ids, (s.pair? q).isSome)
    (height : Nat) : ∃ due, s.duePairs height ids = .ok due ∧ ∀ q ∈ due, q ∈ ids := by
  induction ids with
  | nil => exact ⟨[], rfl, by simp⟩
  | cons q rest ih =>
      obtain ⟨due, run, sub⟩ := ih fun q' mem => listed q' (.tail q mem)
      obtain ⟨pair, here⟩ := Option.isSome_iff_exists.1 (listed q List.mem_cons_self)
      refine ⟨if pair.isMatchDue height then q :: due else due, ?_, fun q' mem => ?_⟩
      · rw [duePairs, here]
        exact Check.bind_ok.2 ⟨due, run, rfl⟩
      · split at mem
        · exact List.mem_cons.2 ((List.mem_cons.1 mem).imp id (sub q'))
        · exact .tail q (sub q' mem)

end Listing

section Sweeping

/-- Some orders and markets left, and the store is still ready. -/
structure Shrunk (s s' : Store) : Prop where
  ready : s'.Ready
  fewer : s'.resting.length ≤ s.resting.length
  usedIds : s'.tables.usedIds = s.tables.usedIds

theorem Ready.shrunk (ready : s.Ready) (wf : s'.tables.WellFormed)
    (subset : ∀ o ∈ s'.resting, o ∈ s.resting)
    (listed : ∀ o ∈ s'.resting, (s'.pair? o.pair).isSome)
    (usedIds : s'.tables.usedIds = s.tables.usedIds) : Shrunk s s' := by
  refine ⟨ready.of_subset wf subset listed, ?_, usedIds⟩
  exact (List.subperm_of_subset (.of_map _ (nodup_resting wf)) subset).length_le

/-- An order leaves a ready store. -/
theorem erase_shrunk (ready : s.Ready) (undo : Undo) (id : OrderId) :
    Shrunk s (s.write undo (s.tables.eraseOrder id)) := by
  have wf := ready.tables.eraseOrder id
  have subset : ∀ o ∈ (s.write undo (s.tables.eraseOrder id)).resting, o ∈ s.resting := by
    intro o mem
    have found := (mem_resting wf).1 mem
    rw [order?, write, Tables.eraseOrder_orders, Maps.getElem?_erase] at found
    split at found
    · cases found
    · exact (mem_resting ready.tables).2 found
  refine ready.shrunk wf subset (fun o mem => ?_) Tables.eraseOrder_usedIds
  have pairs : (s.write undo (s.tables.eraseOrder id)).pair? o.pair = s.pair? o.pair := by
    rw [pair?, write, Tables.eraseOrder_pairs, pair?]
  rw [pairs]
  exact ready.listed o (subset o mem)

/-- Every request that is due can be carried out. -/
theorem sweepDue_total (ready : s.Ready) (now : Int) (base : Denom) :
    ∃ sweep s', sweepDue now base s = .ok sweep s' ∧ Shrunk s s' := by
  obtain ⟨sweep, s', run, cleared, -⟩ := sweepDue_exact ready.tables now base
  have stays : ∀ o ∈ s'.resting, o ∈ s.resting ∧ o.pair ∉ sweep.delisted := by
    intro o mem
    rw [mem_resting ready.tables]
    exact (cleared.order?_eq_some ready.tables).1 ((mem_resting cleared.tables).1 mem)
  refine ⟨sweep, s', run, ready.shrunk cleared.tables (fun o mem => (stays o mem).1)
    (fun o mem => ?_) cleared.usedIds⟩
  rw [(cleared.kept o.pair (stays o mem).2).2]
  exact ready.listed o (stays o mem).1

end Sweeping

end Bourse.Store
