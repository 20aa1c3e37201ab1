import Bourse.Proofs.Markets
import Bourse.Proofs.Operations
import Bourse.Proofs.Totality

/-!
# The store and the book stay in step

* `resting_lastPrice`, `incoming_lastPrice`: a pass notes the price of its last trade, and a market
  notes it with it (`Pair.traded`);
* `InStep`: the store has the orders of a book in the place of those of its market, the record of
  the market has the price of the last trade, and nothing else has changed;
* `pass_writes_back`: so it is after a pass over the book of a listed market, which can always be
  written back;
* `matchPairs_records`: after several markets were matched, the record of each is the one after its
  own trades.
-/

namespace Bourse

/-- The price of the last of some trades. -/
def Trade.lastPrice? (trades : List Trade) : Option Decimal := trades.getLast?.map (·.price)

/-- The record of a market after some trades on it. -/
def Pair.traded (q : Pair) (trades : List Trade) : Pair :=
  { q with lastPrice := (Trade.lastPrice? trades).getD q.lastPrice }

theorem Trade.lastPrice?_append (first later : List Trade) :
    lastPrice? (first ++ later) = (lastPrice? later).or (lastPrice? first) := by
  rw [lastPrice?, List.getLast?_append, Option.map_or]
  rfl

@[simp] theorem Pair.traded_nil (q : Pair) : q.traded [] = q := rfl

theorem Pair.traded_append (q : Pair) (first later : List Trade) :
    q.traded (first ++ later) = (q.traded first).traded later := by
  rw [traded, Trade.lastPrice?_append, Option.getD_or]
  rfl

namespace Pass

variable [Build] {v : Venue} {b₀ : Book} {t : Order} {seq : Nat}

theorem Filled.lastPrice_eq {maker : Side} {buyer seller : Order} {f : Fill} {p p' : Pass}
    {orders orders' : List Order} (filled : Filled v maker buyer seller f p p' orders orders') :
    p'.crossing.lastPrice = Trade.lastPrice? p'.crossing.trades := by
  rw [filled.lastPrice, filled.trades, Trade.lastPrice?, List.getLast?_concat]
  rfl

/-- The price that a pass notes is that of its last trade. -/
theorem resting_lastPrice (sound : b₀.Sound) (v : Venue) (seq : Nat) :
    (resting v seq b₀).finish.lastPrice =
      Trade.lastPrice? (resting v seq b₀).finish.trades :=
  (resting_keeps (P := fun p => p.crossing.lastPrice = Trade.lastPrice? p.crossing.trades) sound rfl
    fun _ _ _ _ _ _ _ _ filled => filled.lastPrice_eq).2

theorem incoming_lastPrice (sound : b₀.Sound) (v : Venue) (seq : Nat) (pair : t.pair = b₀.pair) :
    (incoming v seq b₀ t).1.finish.lastPrice =
      Trade.lastPrice? (incoming v seq b₀ t).1.finish.trades :=
  (incoming_keeps (Q := fun p _ => p.crossing.lastPrice = Trade.lastPrice? p.crossing.trades) sound
    pair rfl fun _ _ _ _ _ _ _ _ _ _ filled _ => filled.lastPrice_eq).2.2

end Pass

namespace Store

variable {s s' : Store} {p : PairId} {b₀ : Book} {pass : Pass} {c : Crossing}

/-- After a pass on `p` with `trades` that left the orders of `b`. -/
structure InStep (p : PairId) (b : Book) (trades : List Trade) (s s' : Store) : Prop where
  orders : (s'.tables.ordersOf p).Perm b.all
  others : ∀ k o, o.pair ≠ p → (s'.order? k = some o ↔ s.order? k = some o)
  usedIds : s'.tables.usedIds = s.tables.usedIds
  delists : s'.tables.delists = s.tables.delists
  record : s'.pair? p = (s.pair? p).map (·.traded trades)
  records : ∀ q ≠ p, s'.pair? q = s.pair? q

theorem writeBack_inStep (wf : s.tables.WellFormed) (load : s.loadBook p = .ok b₀)
    (start : pass.From b₀)
    (noted : pass.finish.lastPrice = Trade.lastPrice? pass.finish.trades)
    (run : writeBack p pass.finish s = .ok () s') :
    InStep p pass.book pass.finish.trades s s' := by
  have wf' := ((upkeep_extends.writeBack p pass.finish).ok run wf).1
  obtain ⟨left, others⟩ := writeBack_ordersOf wf wf' load start run
  have records := writeBack_pair? wf run
  refine ⟨?_, fun k o other => ?_, (writeBack_aside run).2, writeBack_delists run, ?_, ?_⟩
  · have distinct := (start.apart (Book.ofOrders_ok load).1.ids).1
    exact (List.perm_ext_iff_of_nodup (List.Nodup.of_map _ (wf'.nodup_ordersOf p))
      (List.Nodup.of_map _ distinct)).2 left
  · have listed : o ∈ s'.tables.ordersOf o.pair ↔ o ∈ s.tables.ordersOf o.pair := by
      rw [others o.pair other]
    rw [wf'.mem_ordersOf, wf.mem_ordersOf] at listed
    simp only [and_true] at listed
    constructor
    · intro found
      obtain rfl := wf'.order_id k o found
      exact listed.1 found
    · intro found
      obtain rfl := wf.order_id k o found
      exact listed.2 found
  · simp only [records, noted, ↓reduceIte]
    rfl
  · intro q other
    simp [records, other]

/-- A pass over the book of a listed market, between its orders or of an order that is not booked,
can be written back, and the store is then in step with the book. The order that came in may have
any id, a stored one even. -/
theorem pass_writes_back [Build] (reachable : s.Reachable) (listed : (s.pair? p).isSome)
    (load : s.loadBook p = .ok b₀) (v : Venue) (seq : Nat) :
    (∀ c, (matchResting v seq b₀).outcome = .ok c →
      ∃ s', writeBack p c s = .ok () s' ∧ InStep p (matchResting v seq b₀).book c.trades s s') ∧
    ∀ t c, t.pair = p → (matchIncoming v seq b₀ t).1.outcome = .ok c →
      ∃ s', writeBack p c s = .ok () s' ∧
        InStep p (matchIncoming v seq b₀ t).1.book c.trades s s' := by
  have wf := reachable.sound.tables
  obtain ⟨sound, own, -⟩ := Book.ofOrders_ok load
  constructor
  · intro c ended
    obtain rfl := Pass.matchResting_outcome ended
    have start := resting_from sound v seq
    obtain ⟨s', run⟩ := writeBack_total wf load start listed
    exact ⟨s', run, writeBack_inStep wf load start (Pass.resting_lastPrice sound v seq) run⟩
  · intro t c pair ended
    obtain rfl := Pass.matchIncoming_outcome ended
    have pair : t.pair = b₀.pair := pair.trans own.symm
    have start := incoming_from sound v seq pair
    obtain ⟨s', run⟩ := writeBack_total wf load start listed
    exact ⟨s', run, writeBack_inStep wf load start (Pass.incoming_lastPrice sound v seq pair) run⟩

section Records

variable {v : Venue} {seq seq' : Nat}

/-- Every market has the record that it would have after its own trades. -/
theorem writeBack_records {u : Unit} (wf : s.tables.WellFormed)
    (noted : c.lastPrice = Trade.lastPrice? c.trades) (own : ∀ t ∈ c.trades, t.pair = p)
    (run : writeBack p c s = .ok u s') (k : PairId) :
    s'.pair? k = (s.pair? k).map (·.traded (c.trades.filter (·.pair = k))) := by
  rw [writeBack_pair? wf run, noted]
  by_cases same : k = p
  · have all : c.trades.filter (·.pair = k) = c.trades :=
      List.filter_eq_self.2 fun t mem => by simpa [same] using own t mem
    rw [all]
    simp only [same, ↓reduceIte]
    rfl
  · have none : c.trades.filter (·.pair = k) = [] :=
      List.filter_eq_nil_iff.2 fun t mem => by simpa [own t mem] using Ne.symm same
    simp [same, none]

theorem matchPair_records [Build] (wf : s.tables.WellFormed)
    (run : matchPair v seq p s = .ok (c, seq') s') (k : PairId) :
    s'.pair? k = (s.pair? k).map (·.traded (c.trades.filter (·.pair = k))) := by
  obtain ⟨b₀, load, rfl, -, ⟨bare, rfl⟩ | ⟨-, written⟩⟩ := matchPair_ok run
  · simp [bare]
  · obtain ⟨sound, own, -⟩ := Book.ofOrders_ok load
    exact writeBack_records wf (Pass.resting_lastPrice sound v seq)
      (fun t mem => (Pass.resting_pair sound v seq t mem).trans own) written k

/-- So it is after any number of markets were matched in turn. -/
theorem matchPairs_records [Build] {ids : List PairId} {batch : Batch} (wf : s.tables.WellFormed)
    (run : matchPairs v seq ids s = .ok (batch, seq') s') (k : PairId) :
    s'.pair? k = (s.pair? k).map (·.traded (batch.trades.filter (·.pair = k))) := by
  induction ids generalizing s seq batch with
  | nil =>
      obtain ⟨rfl, rfl, rfl⟩ := matchPairs_nil_ok.1 run
      simp
  | cons q rest ih =>
      obtain ⟨c, seq₁, t, more, first, later, rfl⟩ := matchPairs_cons_ok.1 run
      have wf' := ((upkeep_extends.matchPair v seq q).ok first wf).1
      have trades : (c.batch ++ more).trades = c.trades ++ more.trades := rfl
      rw [ih wf' later, matchPair_records wf first, Option.map_map, trades, List.filter_append]
      exact congrArg (Option.map · _) (funext fun q => (q.traded_append _ _).symm)

end Records

section Crowded

attribute [local instance] Build.checked

/-- A bid for 4 of what is offered. -/
def stockBid : Order :=
  { stockOffer with
    id := ⟨"b-2-0"⟩, sender := ⟨"b"⟩, sequence := 2, side := .buy, quantity := 4, remaining := 4
    frozenPrincipal := 20 }

/-- The bid is filled, the offer stays with the other 3, and the market notes the price. -/
theorem crowded_writes_back : ∃ b₀ c s', crowded.loadBook ⟨"btc/cet"⟩ = .ok b₀ ∧
    (matchIncoming ⟨1, ⟨"c"⟩, "cet"⟩ 0 b₀ stockBid).1.outcome = .ok c ∧
    writeBack ⟨"btc/cet"⟩ c crowded = .ok () s' ∧
    (∃ o, (s'.tables.ordersOf ⟨"btc/cet"⟩).Perm [o] ∧ o.id = stockOffer.id ∧ o.remaining = 3) ∧
    s'.order? etherBid.id = some etherBid ∧
    (s'.pair? ⟨"btc/cet"⟩).map (·.lastPrice) = some (Price.scaled 5 0) := by
  have load : crowded.loadBook ⟨"btc/cet"⟩ =
      .ok ⟨⟨"btc/cet"⟩, [], [⟨stockOffer.effectivePrice, [stockOffer]⟩]⟩ := by
    decide +kernel
  obtain ⟨-, incoming⟩ :=
    pass_writes_back crowded_reachable (by decide +kernel) load ⟨1, ⟨"c"⟩, "cet"⟩ 0
  obtain ⟨s', written, step⟩ := incoming stockBid _ rfl rfl
  refine ⟨_, _, s', load, rfl, written, ⟨_, step.orders, rfl, rfl⟩, ?_, ?_⟩
  · exact (step.others _ _ (by decide)).2 (by decide +kernel)
  · rw [step.record]
    decide +kernel

end Crowded

end Store

end Bourse
