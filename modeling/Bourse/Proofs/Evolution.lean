import Bourse.Proofs.Amendment
import Bourse.Proofs.LifeCycle

/-!
# How the record of a market evolves

* `Stretch`: moments of a run in turn, along which a market stays listed and is not put in;
* `Evolved`: the record after them is the one before, with the price of the last trade on the market
  since and a precision that only its creator raised; each input keeps this (`Evolved.next`);
* `market_record_evolves`: so it is along every stretch of every run, and the price of a market that
  was created is zero exactly while it has no trade.
-/

namespace Bourse.Market

/-- Moments of a run from `m` on, along which `p` stays listed and is not put in. -/
inductive Stretch [Build] (p : PairId) (m : Market) : List Moment → Market → Prop
  | start : Stretch p m [] m
  | next {span : List Moment} {m' : Market} (i : Input) : Stretch p m span m' → i.Fits →
      (∀ r, i = .setPair r → r.id ≠ p) → ((m'.after i).ledger.store.pair? p).isSome →
      Stretch p m (span ++ [⟨m', i⟩]) (m'.after i)

/-- The last moment is the accepted message that created the market. -/
def Created [Build] (past : List Moment) (p : PairId) : Prop :=
  ∃ before m c, past = before ++ [⟨m, .deliver (.createPair c)⟩] ∧
    (m.deliver (.createPair c)).1.success = true ∧ .join c.stock c.money = p

/-- These moments turned the record `q` of the market `p` to `q'`. -/
structure Evolved [Build] (p : PairId) (span : List Moment) (q q' : Pair) : Prop where
  record : q' = { q.traded ((tradesOf span).filter (·.pair = p)) with precision := q'.precision }
  rises : q.precision ≤ q'.precision
  raised : ∀ x ∈ span, ∃ q₁ q₂, x.market.ledger.store.pair? p = some q₁ ∧
    (x.market.after x.input).ledger.store.pair? p = some q₂ ∧
    (q₂.precision = q₁.precision ∨ x.Raises p q₁ q₂.precision)

variable {past span : List Moment} {m m' : Market} {i : Input} {p : PairId} {q q' q'' : Pair}

theorem Evolved.next [Build] (evolved : Evolved p span q q')
    (found : m'.ledger.store.pair? p = some q')
    (found' : (m'.after i).ledger.store.pair? p = some q'')
    (amends : Moment.Amends ⟨m', i⟩ p (m'.event i).batch.trades q' q'') :
    Evolved p (span ++ [⟨m', i⟩]) q q'' where
  record := by
    rw [tradesOf_append, List.filter_append, Pair.traded_append]
    exact amends.record.trans (congrArg (fun r : Pair => { r.traded
      ((m'.event i).batch.trades.filter (·.pair = p)) with precision := q''.precision })
      evolved.record)
  rises := evolved.rises.trans amends.rises
  raised := by
    rw [List.forall_mem_append, List.forall_mem_singleton]
    exact ⟨evolved.raised, q', q'', found, found', amends.precision⟩

/-- A stretch goes on a run. -/
theorem Stretch.trace [Build] (stretch : Stretch p m span m') (trace : Trace past m) :
    Trace (past ++ span) m' := by
  induction stretch with
  | start => exact (List.append_nil past).symm ▸ trace
  | next i _ fits _ _ ih => exact List.append_assoc past _ _ ▸ ih.next i fits

theorem Stretch.evolved [Build] (stretch : Stretch p m span m') (trace : Trace past m)
    (here : m.ledger.store.pair? p = some q) :
    ∃ q', m'.ledger.store.pair? p = some q' ∧ Evolved p span q q' := by
  induction stretch with
  | start => exact ⟨q, here, rfl, le_refl q.precision, by simp⟩
  | @next span m' i stretch fits calm stays ih =>
      obtain ⟨q', found, evolved⟩ := ih
      obtain ⟨q'', found', amends⟩ | ⟨gone, -⟩ :=
        (stretch.trace trace).intact.amends calm found
      · exact ⟨q'', found', evolved.next found found' amends⟩
      · rw [gone] at stays
        cases stays

/-- No trade of a run is at a price of zero. -/
theorem Trace.priced [Build] (trace : Trace past m) (typed : ∀ x ∈ past, x.input.InRange) :
    ∀ t ∈ tradesOf past, t.price.isZero = false := by
  induction trace with
  | start tokens params range => exact nofun
  | next i trace fits ih =>
      rw [List.forall_mem_append, List.forall_mem_singleton] at typed
      rw [tradesOf_append, List.forall_mem_append]
      exact ⟨ih typed.1, (trace.tallied typed.1).priced trace.intact typed.2⟩

/-- A market that was just created has no price. -/
theorem Created.unpriced [Build] (created : Created past p) (trace : Trace past m)
    (here : m.ledger.store.pair? p = some q) : q.lastPrice.isZero = true := by
  obtain ⟨before, m₀, c, same, accepted, rfl⟩ := created
  cases trace with
  | start => simp at same
  | @next past m₁ i trace fits =>
      obtain ⟨-, same⟩ := List.append_inj' same rfl
      obtain ⟨rfl, rfl⟩ := Moment.mk.inj (List.head_eq_of_cons_eq same)
      obtain ⟨done, -, run⟩ := apply_of_accepted accepted
      obtain ⟨l, acted, listed⟩ := Market.apply_ok run
      obtain ⟨id, created, -⟩ := Ledger.execute_create_ok acted
      obtain ⟨s, funds, -, inserted, -, rfl⟩ := Ledger.create_ok created
      obtain ⟨-, rfl⟩ := Store.insertPair_ok.1 inserted
      have here : (m₁.deliver (.createPair c)).2.ledger.store.pair? (.join c.stock c.money) =
        some q := here
      rw [listed] at here
      have new := (Store.pair?_setPair.trans (if_pos rfl)).symm.trans here
      obtain rfl := Option.some.inj new
      rfl

/-- Trades at prices leave a market that had no price without one only if there are none. -/
theorem traded_unpriced {trades : List Trade} (unpriced : q.lastPrice.isZero = true)
    (priced : ∀ t ∈ trades, t.price.isZero = false) :
    (q.traded trades).lastPrice.isZero = true ↔ trades = [] := by
  constructor
  · intro zero
    cases last : trades.getLast? with
    | none => exact List.getLast?_eq_none_iff.1 last
    | some t =>
        have noted : (q.traded trades).lastPrice = t.price := by
          rw [Pair.traded, Trade.lastPrice?, last]
          rfl
        rw [noted, priced t (List.mem_of_getLast? last)] at zero
        cases zero
  · rintro rfl
    exact unpriced

/-- Along every stretch of every run, a market keeps its denominations, its creator, its interval
and its height of creation. Its precision never falls, and only rises by a message of its creator.
Its price is that of the last trade on it since the stretch began, or what it was if there was none;
for a market that was created when it began, it is zero exactly while there was none. -/
theorem market_record_evolves [Build] (trace : Trace past m)
    (typed : ∀ x ∈ past ++ span, x.input.InRange) (stretch : Stretch p m span m')
    (here : m.ledger.store.pair? p = some q) :
    ∃ q', m'.ledger.store.pair? p = some q' ∧
      (q'.stock = q.stock ∧ q'.money = q.money ∧ q'.creator = q.creator ∧
        q'.matchInterval = q.matchInterval ∧ q'.creationHeight = q.creationHeight) ∧
      q.precision ≤ q'.precision ∧
      (∀ x ∈ span, ∃ q₁ q₂, x.market.ledger.store.pair? p = some q₁ ∧
        (x.market.after x.input).ledger.store.pair? p = some q₂ ∧
        (q₂.precision = q₁.precision ∨ x.Raises p q₁ q₂.precision)) ∧
      q'.lastPrice =
        (Trade.lastPrice? ((tradesOf span).filter (·.pair = p))).getD q.lastPrice ∧
      (Created past p →
        (q'.lastPrice.isZero = true ↔ ∀ t ∈ tradesOf span, t.pair ≠ p)) := by
  obtain ⟨q', found, evolved⟩ := stretch.evolved trace here
  have price : q'.lastPrice = (q.traded ((tradesOf span).filter (·.pair = p))).lastPrice :=
    (congrArg Pair.lastPrice evolved.record :)
  refine ⟨q', found, ?_, evolved.rises, evolved.raised, price, fun created => ?_⟩
  · rw [evolved.record]
    exact ⟨rfl, rfl, rfl, rfl, rfl⟩
  · have priced := (stretch.trace trace).priced typed
    have own : ∀ t ∈ (tradesOf span).filter (·.pair = p), t.price.isZero = false := by
      intro t mem
      refine priced t ?_
      rw [tradesOf, List.flatMap_append]
      exact List.mem_append_right _ (List.mem_of_mem_filter mem)
    rw [price, traded_unpriced (created.unpriced trace here) own, List.filter_eq_nil_iff]
    simp

section Settled

attribute [local instance] Build.checked

/-- `a` makes its market more precise. -/
def raise9 : Message := .raisePrecision ⟨⟨"a"⟩, "btc/cet", 9⟩

def settled : Market := quoted.after (.endBlock ⟨1, 0⟩)

def raised : Market := settled.after (.deliver raise9)

/-- Two orders come in, a block ends, and the precision is raised. -/
def settledSpan : List Moment := [
  ⟨listed, .deliver offer7⟩, ⟨asked, .deliver bid4⟩, ⟨quoted, .endBlock ⟨1, 0⟩⟩,
  ⟨settled, .deliver raise9⟩]

theorem settled_stretch : Stretch ⟨"btc/cet"⟩ listed settledSpan raised := by
  have begun : Stretch ⟨"btc/cet"⟩ listed [] listed := .start
  have asked : Stretch _ listed _ asked :=
    begun.next (.deliver offer7) trivial nofun (by decide +kernel)
  have quoted : Stretch _ listed _ quoted :=
    asked.next (.deliver bid4) trivial nofun (by decide +kernel)
  have settled : Stretch _ listed _ settled :=
    quoted.next (.endBlock ⟨1, 0⟩) trivial nofun (by decide +kernel)
  exact settled.next (.deliver raise9) trivial nofun (by decide +kernel)

/-- The market has the price of the trade, which is not zero, and one more digit. -/
theorem settled_record_evolves : ∃ q', raised.ledger.store.pair? ⟨"btc/cet"⟩ = some q' ∧
    q'.creator = ⟨"a"⟩ ∧ q'.precision = 9 ∧ q'.lastPrice = Price.scaled 6 0 ∧
    ∃ t ∈ tradesOf settledSpan, t.pair = ⟨"btc/cet"⟩ := by
  have trace : Trace [⟨traders, .deliver listing⟩] listed :=
    (Trace.start traders.tokens .default traders_range).next (.deliver listing) trivial
  have typed : ∀ x ∈ [⟨traders, .deliver listing⟩] ++ settledSpan, x.input.InRange := by
    refine List.forall_mem_append.2 ⟨List.forall_mem_singleton.2 trivial, ?_⟩
    exact List.forall_mem_cons.2 ⟨(by decide : 7 < Word.size), List.forall_mem_cons.2
      ⟨(by decide : 4 < Word.size), List.forall_mem_cons.2 ⟨trivial,
        List.forall_mem_singleton.2 trivial⟩⟩⟩
  have created : Created [⟨traders, .deliver listing⟩] ⟨"btc/cet"⟩ :=
    ⟨[], traders, _, rfl, by decide +kernel, by decide⟩
  have here : (listed.ledger.store.pair? ⟨"btc/cet"⟩).map (·.creator) = some ⟨"a"⟩ := by
    decide +kernel
  have after : (raised.ledger.store.pair? ⟨"btc/cet"⟩).map (·.precision) = some 9 := by
    decide +kernel
  have last : Trade.lastPrice? ((tradesOf settledSpan).filter (·.pair = ⟨"btc/cet"⟩)) =
      some (Price.scaled 6 0) := by
    decide +kernel
  obtain ⟨q, found, creator⟩ := Option.map_eq_some_iff.1 here
  obtain ⟨q', found', ⟨-, -, same, -, -⟩, -, -, price, zero⟩ :=
    market_record_evolves trace typed settled_stretch found
  rw [last, Option.getD_some] at price
  rw [found'] at after
  refine ⟨q', found', same.trans creator, Option.some.inj after, price, ?_⟩
  by_contra none
  have unpriced := (zero created).2 fun t mem own => none ⟨t, mem, own⟩
  rw [price] at unpriced
  cases unpriced

end Settled

end Bourse.Market
