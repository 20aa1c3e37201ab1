import Bourse.Proofs.Matching

/-!
# A step of a pass, seen on the two sides of the book

* `restingStep_of_fronts`, `incomingStep_of_front`: a step fills the heads of the two sides, and
  there is none if a side is empty or they do not cross;
* `made_of_full`: afterwards each of the two orders stands in its place,
  or has left the book;
* `restingStep_lockstep`: the steps of two passes agree if their books list the same orders and
  their fills agree;
* `run_lockstep`: two passes whose steps agree agree to their ends;
* `run_follow`: a pass that ends is followed by one that can follow each of its steps.
-/

namespace Bourse

namespace Order

variable {o x y : Order}

/-- What stays booked of an order. -/
def standing (o : Order) : List Order := if o.isFilled then [] else [o]

/-- What leaves the book with it. -/
def done (o : Order) : List Order := if o.isFilled then [o] else []

theorem standing_of_open (unfilled : o.remaining ≠ 0) : o.standing = [o] := by
  simp [standing, isFilled, unfilled]

theorem standing_of_filled (filled : o.remaining = 0) : o.standing = [] := by
  simp [standing, isFilled, filled]

theorem done_of_open (unfilled : o.remaining ≠ 0) : o.done = [] := by
  simp [done, isFilled, unfilled]

theorem done_of_filled (filled : o.remaining = 0) : o.done = [o] := by
  simp [done, isFilled, filled]

theorem mem_standing : x ∈ o.standing ↔ x = o ∧ o.remaining ≠ 0 := by
  by_cases filled : o.remaining = 0
  · simp [standing_of_filled filled, filled]
  · simp [standing_of_open filled, filled]

theorem mem_done : x ∈ o.done ↔ x = o ∧ o.remaining = 0 := by
  by_cases filled : o.remaining = 0
  · simp [done_of_filled filled, filled]
  · simp [done_of_open filled, filled]

theorem length_standing_le (o : Order) : o.standing.length ≤ 1 := by
  rw [standing]
  split <;> simp

theorem done_append_standing (o : Order) : o.done ++ o.standing = [o] := by
  by_cases filled : o.remaining = 0
  · rw [done_of_filled filled, standing_of_filled filled, List.append_nil]
  · rw [done_of_open filled, standing_of_open filled, List.nil_append]

theorem filter_done {P : Order → Prop} [DecidablePred P] :
    o.done.filter P = if P o then o.done else [] := by
  by_cases filled : o.remaining = 0
  · rw [done_of_filled filled]
    simp [List.filter_cons]
  · simp [done_of_open filled]

theorem crosses_comm : x.crosses y = y.crosses x := by
  rw [crosses, crosses]
  cases x.side <;> cases y.side <;> rfl

theorem crosses_of_terms {x' y' : Order} (same : x'.terms = x.terms) (same' : y'.terms = y.terms) :
    x'.crosses y' = x.crosses y :=
  (congrArg₂ crosses same same' :)

end Order

/-- What a fill makes of the order of a side. -/
def Fill.party (f : Fill) : Side → Order
  | .buy => f.buyer
  | .sell => f.seller

/-- The fill of an order with one that was booked before it. -/
def Fill.taking [Build] (v : Venue) (seq : Nat) (taker maker : Order) : Except Fault Fill :=
  match taker.side with
  | .buy => execute v seq .sell maker.effectivePrice taker maker
  | .sell => execute v seq .buy maker.effectivePrice maker taker

section Taking

variable {v : Venue} {seq : Nat} {taker maker : Order} {f : Fill}

theorem Fill.taking_ok [Build] : taking v seq taker maker = .ok f ↔
    taker.side = .buy ∧ execute v seq .sell maker.effectivePrice taker maker = .ok f ∨
      taker.side = .sell ∧ execute v seq .buy maker.effectivePrice maker taker = .ok f := by
  rw [taking]
  cases taker.side <;> simp

theorem Fill.taking_terms [Build] (run : taking v seq taker maker = .ok f) :
    (f.party taker.side).terms = taker.terms ∧
      (f.party taker.side.opposite).terms = maker.terms := by
  obtain ⟨own, run⟩ | ⟨own, run⟩ := taking_ok.1 run
  · rw [own]
    exact execute_terms run
  · rw [own]
    exact (execute_terms run).symm

end Taking

/-- Of the orders that leave the book with a fill, those of one side. -/
theorem Fill.filter_done (f : Fill) (side : Side) {P : Order → Prop} [DecidablePred P]
    (own : P (f.party side)) (other : ¬P (f.party side.opposite)) :
    (f.buyer.done ++ f.seller.done).filter P = (f.party side).done := by
  rw [List.filter_append, Order.filter_done, Order.filter_done]
  cases side with
  | buy => simp_all [party, Side.opposite]
  | sell => simp_all [party, Side.opposite]

namespace Pass

variable {v : Venue} {p p' : Pass} {side : Side} {x o t : Order} {rest : List Order} {f : Fill}

section Settled

variable (settled : Settled side x o rest p p')

include settled

theorem Settled.standing : p'.book.orders side = o.standing ++ rest := by
  obtain ⟨filled, own, -⟩ | ⟨unfilled, own, -⟩ := settled.own
  · rw [own, Order.standing_of_filled filled, List.nil_append]
  · rw [own, Order.standing_of_open unfilled, List.singleton_append]

theorem Settled.done : p'.crossing.filled = p.crossing.filled ++ o.done := by
  obtain ⟨filled, -, left, -⟩ | ⟨unfilled, -, left, -⟩ := settled.own
  · rw [left, Order.done_of_filled filled]
  · rw [left, Order.done_of_open unfilled, List.append_nil]

/-- A touched order is the one that was filled in part, or was touched before and is not the one
that was filled. -/
theorem Settled.mem_touched {k : OrderId} :
    k ∈ p'.touched ↔ (k = o.id ∧ o.remaining ≠ 0) ∨ k ≠ o.id ∧ k ∈ p.touched := by
  obtain ⟨filled, -, -, touched⟩ | ⟨unfilled, -, -, touched⟩ := settled.own
  · rw [touched, Std.ExtTreeSet.mem_erase, Ne, Std.LawfulEqCmp.compare_eq_iff_eq]
    simp [filled, eq_comm]
  · rw [touched, Std.ExtTreeSet.mem_insert, Std.LawfulEqCmp.compare_eq_iff_eq]
    by_cases same : k = o.id
    · simp [same, unfilled]
    · simp [same, Ne.symm same]

end Settled

section Fronts

variable {bid ask maker : Order} {bids asks others : List Order}

/-- A step fills the heads of the two sides if they cross. -/
theorem restingStep_of_fronts [Build] (proper : p.book.Proper)
    (frontBid : p.book.orders .buy = bid :: bids) (frontAsk : p.book.orders .sell = ask :: asks)
    (crosses : bid.crosses ask = true) :
    restingStep v p = some do
      let f ← Fill.execute v p.nextFill (terms bid ask).1 (terms bid ask).2 bid ask
      return ((p.addFill f).settleBest .buy f.buyer).settleBest .sell f.seller := by
  rw [restingStep, proper.best?_front frontBid, proper.best?_front frontAsk]
  simp [crosses]

/-- There is no step if the heads do not cross or one is missing. -/
theorem restingStep_none [Build] (proper : p.book.Proper) (side : Side)
    (apart : ∀ x ∈ (p.book.orders side).head?, ∀ y ∈ (p.book.orders side.opposite).head?,
      x.crosses y = false) :
    restingStep v p = none := by
  rw [restingStep, proper.best?_eq, proper.best?_eq]
  split
  · next bid ask bestBid bestAsk =>
      have apart : bid.crosses ask = false := by
        cases side with
        | buy => exact apart bid bestBid ask bestAsk
        | sell => exact Order.crosses_comm.trans (apart ask bestAsk bid bestBid)
      rw [if_neg (by simp [apart])]
  · rfl

theorem not_crosses_of_restingStep_none [Build] (proper : p.book.Proper)
    (ended : restingStep v p = none) (frontBid : p.book.orders .buy = bid :: bids)
    (frontAsk : p.book.orders .sell = ask :: asks) : bid.crosses ask = false := by
  cases crosses : bid.crosses ask with
  | false => rfl
  | true =>
      rw [restingStep_of_fronts proper frontBid frontAsk crosses] at ended
      cases ended

/-- What a fill makes of the pass: on each side its order stands in its place or is gone. -/
structure Made (f : Fill) (p p' : Pass) : Prop where
  proper : p'.book.Proper
  sides : ∀ side, p'.book.orders side = (f.party side).standing ++ (p.book.orders side).tail
  filled : p'.crossing.filled = p.crossing.filled ++ f.buyer.done ++ f.seller.done
  touched : f.buyer.id ≠ f.seller.id → ∀ k, k ∈ p'.touched ↔
    (∃ side, k = (f.party side).id ∧ (f.party side).remaining ≠ 0) ∨
      (∀ side, k ≠ (f.party side).id) ∧ k ∈ p.touched
  trades : p'.crossing.trades = p.crossing.trades ++ [f.trade]
  effects : p'.crossing.effects = p.crossing.effects ++ f.effects
  lastPrice : p'.crossing.lastPrice = some f.trade.price
  nextFill : p'.nextFill = Word.wrapAdd p.nextFill 1

theorem made_of_full (proper : p.book.Proper) (full : ∀ side, p.book.orders side ≠ []) (f : Fill) :
    Made f p (((p.addFill f).settleBest .buy f.buyer).settleBest .sell f.seller) := by
  obtain ⟨bid, bids, frontBid⟩ := List.exists_cons_of_ne_nil (full .buy)
  obtain ⟨ask, asks, frontAsk⟩ := List.exists_cons_of_ne_nil (full .sell)
  have first := settleBest_settled (p := p.addFill f) proper frontBid f.buyer
  have frontAsk' : ((p.addFill f).settleBest .buy f.buyer).book.orders .sell = ask :: asks :=
    first.opposite.trans frontAsk
  have second := settleBest_settled first.proper frontAsk' f.seller
  refine ⟨second.proper, fun side => ?_, ?_, fun ne k => ?_, second.trades.trans first.trades,
    second.effects.trans first.effects, second.lastPrice.trans first.lastPrice,
    second.nextFill.trans first.nextFill⟩
  · cases side with
    | buy =>
        rw [frontBid, List.tail_cons]
        exact second.opposite.trans first.standing
    | sell =>
        rw [frontAsk, List.tail_cons]
        exact second.standing
  · rw [second.done, first.done]
    rfl
  · rw [second.mem_touched, first.mem_touched, Side.exists_iff .buy, Side.forall_iff .buy]
    simp only [Fill.party, addFill, Side.opposite]
    by_cases buyer : k = f.buyer.id
    · simp [buyer, ne]
    · by_cases seller : k = f.seller.id
      · simp [seller, ne.symm]
      · simp [buyer, seller]

theorem made_of_fronts (proper : p.book.Proper) (frontBid : p.book.orders .buy = bid :: bids)
    (frontAsk : p.book.orders .sell = ask :: asks) (f : Fill) :
    Made f p (((p.addFill f).settleBest .buy f.buyer).settleBest .sell f.seller) :=
  made_of_full proper
    ((Side.forall_iff .buy).2 ⟨by simp [frontBid], by simp [frontAsk, Side.opposite]⟩) f

/-- The step if one of the heads was booked before the other. -/
theorem restingStep_of_later [Build] (proper : p.book.Proper)
    (own : p.book.orders t.side = t :: rest)
    (other : p.book.orders t.side.opposite = maker :: others) (crosses : t.crosses maker = true)
    (earlier : maker.isEarlier t = true) (later : t.isEarlier maker = false) :
    restingStep v p = some do
      let f ← Fill.taking v p.nextFill t maker
      return ((p.addFill f).settleBest .buy f.buyer).settleBest .sell f.seller := by
  rw [Fill.taking]
  cases side : t.side with
  | buy =>
      rw [side] at own other
      rw [restingStep_of_fronts proper own other crosses, terms, later]
      rfl
  | sell =>
      rw [side] at own other
      rw [Order.crosses_comm] at crosses
      rw [restingStep_of_fronts proper other own crosses, terms, earlier]
      rfl

/-- A step fills the order against the head of the other side if they cross. -/
theorem incomingStep_of_front [Build] (proper : p.book.Proper) (unfilled : t.remaining ≠ 0)
    (front : p.book.orders t.side.opposite = maker :: others) (crosses : t.crosses maker = true) :
    incomingStep v (p, t) = some do
      let f ← Fill.taking v p.nextFill t maker
      return ((p.addFill f).settleBest t.side.opposite (f.party t.side.opposite),
        f.party t.side) := by
  simp only [incomingStep, Order.isFilled, beq_iff_eq, unfilled, ↓reduceIte,
    proper.best?_front front, crosses, Fill.taking]
  cases t.side with
  | buy => rfl
  | sell => rfl

theorem incomingStep_of_filled [Build] (filled : t.remaining = 0) :
    incomingStep v (p, t) = none := by
  simp [incomingStep, Order.isFilled, filled]

theorem incomingStep_none [Build] (proper : p.book.Proper)
    (apart : ∀ x ∈ (p.book.orders t.side.opposite).head?, t.crosses x = false) :
    incomingStep v (p, t) = none := by
  simp only [incomingStep]
  split
  · rfl
  · rw [proper.best?_eq]
    split
    · rfl
    · next maker best =>
        rw [if_neg (by simp [apart maker best])]

end Fronts

/-- The results of two steps agree up to a relation between the states that they lead to. -/
inductive Lockstep {σ τ : Type} (R : σ → τ → Prop) :
    Option (Except Fault σ) → Option (Except Fault τ) → Prop
  | stop : Lockstep R none none
  | fail (fault : Fault) : Lockstep R (some (.error fault)) (some (.error fault))
  | go {s : σ} {s' : τ} : R s s' → Lockstep R (some (.ok s)) (some (.ok s'))

/-- The steps of two passes agree if their books list the same orders and their fills agree. -/
theorem restingStep_lockstep [Build] {q : Pass} {R : Pass → Pass → Prop}
    (alike : p.book.Alike q.book)
    (fills : ∀ bid bids ask asks, p.book.orders .buy = bid :: bids →
      p.book.orders .sell = ask :: asks → ∀ maker price, Lockstep R
        (some do
          let f ← Fill.execute v p.nextFill maker price bid ask
          return ((p.addFill f).settleBest .buy f.buyer).settleBest .sell f.seller)
        (some do
          let f ← Fill.execute v q.nextFill maker price bid ask
          return ((q.addFill f).settleBest .buy f.buyer).settleBest .sell f.seller)) :
    Lockstep R (restingStep v p) (restingStep v q) := by
  by_cases meet : ∃ bid bids ask asks, p.book.orders .buy = bid :: bids ∧
      p.book.orders .sell = ask :: asks ∧ bid.crosses ask = true
  · obtain ⟨bid, bids, ask, asks, frontBid, frontAsk, crosses⟩ := meet
    rw [restingStep_of_fronts alike.proper frontBid frontAsk crosses,
      restingStep_of_fronts alike.proper' ((alike.orders .buy).trans frontBid)
        ((alike.orders .sell).trans frontAsk) crosses]
    exact fills bid bids ask asks frontBid frontAsk _ _
  · have apart : ∀ bid ∈ (p.book.orders .buy).head?, ∀ ask ∈ (p.book.orders .sell).head?,
        bid.crosses ask = false := by
      intro bid best ask best'
      rw [← Bool.not_eq_true]
      exact fun crosses => meet ⟨bid, _, ask, _, List.eq_cons_of_mem_head? best,
        List.eq_cons_of_mem_head? best', crosses⟩
    rw [restingStep_none alike.proper .buy apart, restingStep_none alike.proper' .buy]
    · exact .stop
    · rw [alike.orders, alike.orders]
      exact apart

/-- If steps from related states agree, so do runs, and they end in related states. -/
theorem run_lockstep {σ τ : Type} {step : σ → Option (Except Fault σ)}
    {step' : τ → Option (Except Fault τ)} {R : σ → τ → Prop}
    (agree : ∀ s s', R s s' → Lockstep R (step s) (step' s')) :
    ∀ (n : Nat) (s : σ) (s' : τ), R s s' →
      (run step n s).1 = (run step' n s').1 ∧ R (run step n s).2 (run step' n s').2 := by
  intro n
  induction n with
  | zero => exact fun s s' related => ⟨rfl, related⟩
  | succ n ih =>
      intro s s' related
      have agree := agree s s' related
      rw [run, run]
      generalize step s = r at agree ⊢
      generalize step' s' = r' at agree ⊢
      cases agree with
      | stop => exact ⟨rfl, related⟩
      | fail fault => exact ⟨rfl, related⟩
      | go next => exact ih _ _ next

/-- If the steps of one run are followed by steps of another, so is a run that ends. -/
theorem run_follow {σ τ : Type} {step : σ → Option (Except Fault σ)}
    {step' : τ → Option (Except Fault τ)} {R : σ → τ → Prop}
    (idle : ∀ s s', R s s' → step s = none → step' s' = none)
    (follow : ∀ s s' t, R s s' → step s = some (.ok t) →
      ∃ t', step' s' = some (.ok t') ∧ R t t') :
    ∀ (n : Nat) (s : σ) (s' : τ), R s s' → (run step n s).1 = .ok () →
      (run step' n s').1 = .ok () ∧ R (run step n s).2 (run step' n s').2 := by
  intro n
  induction n with
  | zero => exact fun s s' related _ => ⟨rfl, related⟩
  | succ n ih =>
      intro s s' related ended
      rw [run] at ended ⊢
      rw [run]
      cases made : step s with
      | none =>
          rw [idle s s' related made]
          exact ⟨rfl, related⟩
      | some r =>
          rw [made] at ended
          cases r with
          | error fault => cases ended
          | ok t =>
              obtain ⟨t', made', next⟩ := follow s s' t related made
              rw [made']
              exact ih t t' next ended

theorem run_none {σ : Type} {step : σ → Option (Except Fault σ)} {s : σ} (ended : step s = none)
    (n : Nat) : run step n s = (.ok (), s) := by
  cases n with
  | zero => rfl
  | succ n => rw [run, ended]

end Pass

end Bourse
