import Bourse.Proofs.Balance
import Bourse.Proofs.Exhaustion

/-!
# What a block end matches in each market

The markets that are matched do not depend on each other: `Matching` is what the matching of several
markets does to each (`matchPairs_matching`).
-/

namespace Bourse

/-- What matching keeps of a market's record: all but the last price. -/
def Pair.listing (q : Pair) : Pair := { q with lastPrice := .zero }

theorem Pair.isMatchDue_of_listing {q q' : Pair} (same : q'.listing = q.listing) (height : Nat) :
    q'.isMatchDue height = q.isMatchDue height :=
  (congrArg (isMatchDue · height) same :)

namespace Pass

variable {v : Venue} {b₀ : Book} {t : Order} {start orders orders' : List Order}

/-- The orders of a pass have the terms of some it started from, and its trades are at the prices of
such, on their markets. -/
structure Priced (start orders : List Order) (p : Pass) : Prop where
  terms : ∀ o ∈ orders, ∃ o₀ ∈ start, o₀.terms = o.terms
  trades : ∀ t ∈ p.crossing.trades, ∃ o ∈ start, o.pair = t.pair ∧ o.effectivePrice = t.price

/-- A trade is at the price of the order that was booked first. -/
theorem Filled.priced [Build] {maker : Side} {buyer seller : Order} {f : Fill} {p p' : Pass}
    (filled : Filled v maker buyer seller f p p' orders orders') :
    ∃ o ∈ orders, o.pair = f.trade.pair ∧ o.effectivePrice = f.trade.price := by
  obtain ⟨others, before, -⟩ := filled.orders
  obtain ⟨money, -, -, -, -, rfl⟩ := Fill.execute_ok.1 filled.run
  cases maker with
  | buy => exact ⟨buyer, before.mem_iff.2 List.mem_cons_self, rfl, rfl⟩
  | sell => exact ⟨seller, before.mem_iff.2 (.tail _ List.mem_cons_self), filled.pair, rfl⟩

/-- A fill keeps this. -/
theorem Priced.filled [Build] {maker : Side} {buyer seller : Order} {f : Fill} {p p' : Pass}
    (priced : Priced start orders p)
    (filled : Filled v maker buyer seller f p p' orders orders') : Priced start orders' p' := by
  obtain ⟨others, before, after⟩ := filled.orders
  obtain ⟨bought, sold⟩ := Fill.execute_terms filled.run
  constructor
  · intro o mem
    have mem := after.mem_iff.1 mem
    simp only [List.mem_cons] at mem
    obtain rfl | rfl | mem := mem
    · exact bought ▸ priced.terms buyer (before.mem_iff.2 List.mem_cons_self)
    · exact sold ▸ priced.terms seller (before.mem_iff.2 (.tail _ List.mem_cons_self))
    · exact priced.terms o (before.mem_iff.2 (.tail _ (.tail _ mem)))
  · intro t mem
    rw [filled.trades, List.mem_append, List.mem_singleton] at mem
    obtain mem | rfl := mem
    · exact priced.trades t mem
    · obtain ⟨o, mem, pair, price⟩ := filled.priced
      obtain ⟨o₀, mem₀, same⟩ := priced.terms o mem
      exact ⟨o₀, mem₀, (Order.pair_of_terms same).trans pair,
        (Order.effectivePrice_of_terms same).trans price⟩

theorem resting_priced [Build] (sound : b₀.Sound) (v : Venue) (seq : Nat) :
    Priced b₀.all (resting v seq b₀).orders (resting v seq b₀) := by
  have init : Priced b₀.all (start b₀ seq).orders (start b₀ seq) :=
    ⟨fun o mem => ⟨o, (List.append_nil b₀.all) ▸ mem, rfl⟩, by simp [Pass.start]⟩
  exact (resting_keeps (P := fun p => Priced b₀.all p.orders p) sound init
    fun _ _ _ _ _ _ _ priced filled => priced.filled filled).2

theorem incoming_priced [Build] (sound : b₀.Sound) (v : Venue) (seq : Nat)
    (pair : t.pair = b₀.pair) :
    Priced (t :: b₀.all) ((incoming v seq b₀ t).2 :: (incoming v seq b₀ t).1.orders)
      (incoming v seq b₀ t).1 := by
  have init : Priced (t :: b₀.all) (t :: (start b₀ seq).orders) (start b₀ seq) :=
    ⟨fun o mem => ⟨o, (List.append_nil b₀.all) ▸ mem, rfl⟩, by simp [Pass.start]⟩
  exact (incoming_keeps (Q := fun p t' => Priced (t :: b₀.all) (t' :: p.orders) p) sound pair init
    fun _ _ _ _ _ _ _ _ _ priced filled _ => priced.filled filled).2.2

/-- The trades of a pass are all of its market. -/
theorem resting_pair [Build] (sound : b₀.Sound) (v : Venue) (seq : Nat) :
    ∀ t ∈ (resting v seq b₀).crossing.trades, t.pair = b₀.pair := by
  intro t mem
  obtain ⟨o, mem, pair, -⟩ := (resting_priced sound v seq).trades t mem
  exact pair.symm.trans (sound.pair o mem)

theorem incoming_pair [Build] (sound : b₀.Sound) (v : Venue) (seq : Nat) (pair : t.pair = b₀.pair) :
    ∀ t' ∈ (incoming v seq b₀ t).1.crossing.trades, t'.pair = b₀.pair := by
  intro t' mem
  obtain ⟨o, mem, own, -⟩ := (incoming_priced sound v seq pair).trades t' mem
  refine own.symm.trans ?_
  obtain rfl | mem := List.mem_cons.1 mem
  · exact pair
  · exact sound.pair o mem

end Pass

namespace Store

variable {s s' s'' : Store} {v : Venue} {seq seq' : Nat} {c : Crossing} {p q : PairId}
  {batch : Batch} {ids ids' : List PairId} {trades trades' : List Trade}

section Matching

/-- `trades` are those of a pass over the book of a market in `s`, and what this leaves in the book
are the market's orders in `s'`. -/
def Crossed [Build] (v : Venue) (s s' : Store) (p : PairId) (trades : List Trade) : Prop :=
  ∃ b₀ seq, s.loadBook p = .ok b₀ ∧
    (matchResting v seq b₀).outcome = .ok (Pass.resting v seq b₀).finish ∧
    trades = (Pass.resting v seq b₀).finish.trades ∧
    ∀ o, o ∈ s'.tables.ordersOf p ↔ o ∈ (Pass.resting v seq b₀).book.all

/-- What the matching of some markets does to each. -/
structure Matching [Build] (v : Venue) (ids : List PairId) (s s' : Store) (trades : List Trade) :
    Prop where
  tables : s'.tables.WellFormed
  only : ∀ t ∈ trades, t.pair ∈ ids
  crossed : ∀ p ∈ ids, Crossed v s s' p (trades.filter (·.pair = p))
  others : ∀ p ∉ ids, s'.tables.ordersOf p = s.tables.ordersOf p
  listings : ∀ p, (s'.pair? p).map Pair.listing = (s.pair? p).map Pair.listing
  delists : s'.tables.delists = s.tables.delists

/-- Writing back a pass notes its last price in the record of its market, and there only. -/
theorem writeBack_pair? {u : Unit} (wf : s.tables.WellFormed)
    (run : writeBack p c s = .ok u s') (k : PairId) : s'.pair? k =
      (s.pair? k).map fun q => if k = p then { q with lastPrice := c.lastPrice.getD q.lastPrice }
        else q := by
  obtain ⟨t, t', removed, updated, last⟩ := writeBack_ok run
  have aside := (removeAll_orders removed).1.trans (updateAll_orders updated).1
  have kept : ∀ k, t'.pair? k = s.pair? k := fun k => by rw [pair?, aside.pairs, pair?]
  obtain ⟨none, rfl⟩ | ⟨price, q, noted, found, rfl⟩ := last
  · simp [kept, none]
  · rw [kept] at found
    have id : q.id = p := wf.pair_id p q found
    have own : ({ q with lastPrice := price } : Pair).id = p := id
    rw [pair?_setPair, own, kept]
    by_cases same : k = p
    · simp [same, found, noted]
    · simp [same, Ne.symm same]

theorem writeBack_delists {u : Unit} (run : writeBack p c s = .ok u s') :
    s'.tables.delists = s.tables.delists := by
  obtain ⟨t, t', removed, updated, last⟩ := writeBack_ok run
  have aside := (removeAll_orders removed).1.trans (updateAll_orders updated).1
  obtain ⟨-, rfl⟩ | ⟨_, _, -, -, rfl⟩ := last <;> exact aside.delists

theorem writeBack_listings {u : Unit} (wf : s.tables.WellFormed)
    (run : writeBack p c s = .ok u s') (q : PairId) :
    (s'.pair? q).map Pair.listing = (s.pair? q).map Pair.listing := by
  rw [writeBack_pair? wf run, Option.map_map]
  congr 1
  funext record
  simp only [Function.comp_apply]
  split <;> rfl

theorem writeBack_ordersOf {b₀ : Book} {pass : Pass} {u : Unit} (wf : s.tables.WellFormed)
    (wf' : s'.tables.WellFormed) (load : s.loadBook p = .ok b₀) (start : pass.From b₀)
    (run : writeBack p pass.finish s = .ok u s') :
    (∀ o, o ∈ s'.tables.ordersOf p ↔ o ∈ pass.book.all) ∧
      ∀ q ≠ p, s'.tables.ordersOf q = s.tables.ordersOf q := by
  obtain ⟨sound, pair, -⟩ := Book.ofOrders_ok load
  have booked := (start.apart sound.ids).1
  have result := writeBack_orders wf load start run
  have inBook : ∀ o, o ∈ pass.book.all → o.id ∈ b₀.all.map (·.id) ∧ o.pair = p := fun o mem =>
    ⟨start.known.2 (.inl (List.mem_map_of_mem mem)),
      (start.pair_of_mem sound (List.mem_append_left _ mem)).trans pair⟩
  have loaded : ∀ o : Order, o.id ∈ b₀.all.map (·.id) → s.tables.orders[o.id]? = some o →
      o.pair = p := by
    intro o mem found
    obtain ⟨x, mem, id⟩ := List.mem_map.1 mem
    obtain ⟨stored, market⟩ := (mem_loaded wf load).1 mem
    rw [show x.id = o.id from id, found] at stored
    exact Option.some.inj stored ▸ market
  constructor
  · intro o
    rw [wf'.mem_ordersOf, result]
    constructor
    · rintro ⟨found, market⟩
      split at found
      · exact ((Book.find?_eq_some booked).1 found).1
      · next other =>
          exact absurd (List.mem_map_of_mem ((mem_loaded wf load).2 ⟨found, market⟩)) other
    · intro mem
      obtain ⟨known, market⟩ := inBook o mem
      rw [if_pos known]
      exact ⟨(Book.find?_eq_some booked).2 ⟨mem, rfl⟩, market⟩
  · intro q ne
    refine wf.ordersOf_eq wf' fun o market => ?_
    rw [result]
    split
    · next known =>
        constructor
        · intro found
          have own := (inBook o ((Book.find?_eq_some booked).1 found).1).2
          exact absurd (market.symm.trans own) ne
        · exact fun found => absurd (market.symm.trans (loaded o known found)) ne
    · exact Iff.rfl

theorem matchPair_outcome [Build] (run : matchPair v seq p s = .ok (c, seq') s') :
    ∃ b₀, s.loadBook p = .ok b₀ ∧ (matchResting v seq b₀).outcome = .ok c := by
  obtain ⟨b₀, load, rfl, -⟩ := matchPair_ok run
  obtain ⟨b₁, t, asked, run⟩ := Action.bind_ok.1 run
  obtain ⟨load', rfl⟩ := Action.ask_ok.1 asked
  obtain rfl := Except.ok.inj (load.symm.trans load')
  obtain ⟨c, t, asked, -⟩ := Action.bind_ok.1 run
  obtain ⟨ended, -⟩ := Action.ask_ok.1 asked
  exact ⟨b₀, load, Pass.matchResting_outcome ended ▸ ended⟩

/-- Matching one market leaves the others as they were. -/
theorem matchPair_matching [Build] (wf : s.tables.WellFormed)
    (run : matchPair v seq p s = .ok (c, seq') s') : Matching v [p] s s' c.trades := by
  have wf' := ((upkeep_extends.matchPair v seq p).ok run wf).1
  obtain ⟨b₀, load, ended⟩ := matchPair_outcome run
  obtain ⟨b₀', load', rfl, -, written⟩ := matchPair_ok run
  obtain rfl := Except.ok.inj (load.symm.trans load')
  obtain ⟨sound, pair, listed⟩ := Book.ofOrders_ok load
  have start := resting_from sound v seq
  have own : ∀ t ∈ (Pass.resting v seq b₀).finish.trades, t.pair = p := fun t mem =>
    (Pass.resting_pair sound v seq t mem).trans pair
  have all : (Pass.resting v seq b₀).finish.trades.filter (·.pair = p) =
      (Pass.resting v seq b₀).finish.trades :=
    List.filter_eq_self.2 (by simpa using own)
  have crossed : (∀ o, o ∈ s'.tables.ordersOf p ↔ o ∈ (Pass.resting v seq b₀).book.all) →
      ∀ q ∈ [p], Crossed v s s' q ((Pass.resting v seq b₀).finish.trades.filter (·.pair = q)) := by
    intro left q mem
    rw [List.mem_singleton.1 mem, all]
    exact ⟨b₀, seq, load, ended, rfl, left⟩
  obtain ⟨none, rfl⟩ | ⟨-, written⟩ := written
  · refine ⟨wf, by simpa using own, crossed fun o => ?_, fun _ _ => rfl, fun _ => rfl, rfl⟩
    rw [Pass.resting_idle sound none]
    exact listed.mem_iff.symm
  · obtain ⟨left, others⟩ := writeBack_ordersOf wf wf' load start written
    exact ⟨wf', by simpa using own, crossed left, by simpa using others,
      writeBack_listings wf written, writeBack_delists written⟩

theorem Crossed.frame [Build] (crossed : Crossed v s s' p trades)
    (before : s.tables.ordersOf p = s''.tables.ordersOf p) :
    Crossed v s'' s' p trades := by
  obtain ⟨b₀, seq, load, rest⟩ := crossed
  rw [loadBook, before] at load
  exact ⟨b₀, seq, load, rest⟩

theorem Crossed.frame_after [Build] (crossed : Crossed v s s' p trades)
    (after : s''.tables.ordersOf p = s'.tables.ordersOf p) :
    Crossed v s s'' p trades := by
  obtain ⟨b₀, seq, load, ended, made, left⟩ := crossed
  exact ⟨b₀, seq, load, ended, made, fun o => after ▸ left o⟩

/-- The matching of different markets, one after the other. -/
theorem Matching.append [Build] (first : Matching v ids s s' trades)
    (second : Matching v ids' s' s'' trades') (apart : ids.Disjoint ids') :
    Matching v (ids ++ ids') s s'' (trades ++ trades') where
  tables := second.tables
  only t mem := by
    rw [List.mem_append] at mem ⊢
    exact mem.imp (first.only t) (second.only t)
  crossed p mem := by
    rw [List.filter_append]
    obtain mem | mem := List.mem_append.1 mem
    · have none : trades'.filter (·.pair = p) = [] := List.filter_eq_nil_iff.2 fun t mem' => by
        have other : t.pair ≠ p := fun same => apart mem (same ▸ second.only t mem')
        simpa using other
      rw [none, List.append_nil]
      exact (first.crossed p mem).frame_after (second.others p (apart mem))
    · have absent : p ∉ ids := fun mem' => apart mem' mem
      have none : trades.filter (·.pair = p) = [] := List.filter_eq_nil_iff.2 fun t mem' => by
        have other : t.pair ≠ p := fun same => absent (same ▸ first.only t mem')
        simpa using other
      rw [none, List.nil_append]
      exact (second.crossed p mem).frame (first.others p absent)
  others p absent := by
    rw [List.mem_append, not_or] at absent
    exact (second.others p absent.2).trans (first.others p absent.1)
  listings p := (second.listings p).trans (first.listings p)
  delists := second.delists.trans first.delists

/-- Markets are matched in their order, each as if there were no other. -/
theorem matchPairs_matching [Build] (wf : s.tables.WellFormed) (distinct : ids.Nodup)
    (run : matchPairs v seq ids s = .ok (batch, seq') s') :
    Matching v ids s s' batch.trades := by
  induction ids generalizing s seq batch with
  | nil =>
      obtain ⟨rfl, rfl, rfl⟩ := matchPairs_nil_ok.1 run
      exact ⟨wf, by simp, by simp, fun _ _ => rfl, fun _ => rfl, rfl⟩
  | cons p rest ih =>
      obtain ⟨c, seq₁, t, more, first, later, rfl⟩ := matchPairs_cons_ok.1 run
      obtain ⟨absent, distinct⟩ := List.nodup_cons.1 distinct
      have matching := matchPair_matching wf first
      exact matching.append (ih matching.tables distinct later) (by simpa using absent)

/-- So their trades are grouped by market. -/
theorem matchPairs_ascending [Build] (sorted : ids.Pairwise fun p q => compare p q = .lt)
    (run : matchPairs v seq ids s = .ok (batch, seq') s') (wf : s.tables.WellFormed) :
    batch.trades.Pairwise fun t t' => (compare t.pair t'.pair).isLE := by
  induction ids generalizing s seq batch with
  | nil =>
      obtain ⟨rfl, -⟩ := matchPairs_nil_ok.1 run
      exact .nil
  | cons p rest ih =>
      obtain ⟨c, seq₁, t, more, first, later, rfl⟩ := matchPairs_cons_ok.1 run
      obtain ⟨below, sorted⟩ := List.pairwise_cons.1 sorted
      have matching := matchPair_matching wf first
      have own : ∀ t ∈ c.trades, t.pair = p := by simpa using matching.only
      have distinct : rest.Nodup := sorted.imp fun less same => by simp [same] at less
      have later' := matchPairs_matching matching.tables distinct later
      refine List.pairwise_append.2 ⟨?_, ih sorted later matching.tables, ?_⟩
      · refine List.pairwise_of_forall_mem_list fun t mem t' mem' => ?_
        rw [own t mem, own t' mem']
        exact Ordering.isLE_of_eq_eq Std.ReflCmp.compare_self
      · intro t mem t' mem'
        rw [own t mem, below _ (later'.only t' mem')]
        rfl

end Matching

end Store

end Bourse
