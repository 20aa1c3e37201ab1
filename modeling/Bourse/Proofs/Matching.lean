import Bourse.Proofs.Pass

/-!
# What holds at the end of a matching pass

* `resting_keeps`, `incoming_keeps`: whatever a fill keeps, a whole pass keeps;
* `matchResting_error`, `matchIncoming_error`: a pass that fails fails in a fill, where all this
  still holds;
* `resting_balanced`, `incoming_balanced`: so what a pass settles is what its orders hold less.
-/

namespace Bourse

namespace Pass

variable {v : Venue} {b₀ : Book} {p : Pass} {t : Order}

section Runs

variable {σ : Type} {step : σ → Option (Except Fault σ)} {n seq : Nat} {s : σ}

theorem run_induction {P : σ → Prop} (keeps : ∀ s s', P s → step s = some (.ok s') → P s') :
    ∀ (n : Nat) (s : σ), P s → P (run step n s).2 := by
  intro n
  induction n with
  | zero => exact fun _ holds => holds
  | succ n ih =>
      intro s holds
      rw [run]
      split
      · exact holds
      · exact holds
      · next s' made => exact ih s' (keeps s s' holds made)

/-- A run only fails in a step that fails. -/
theorem run_error {P : σ → Prop} {fault : Fault}
    (keeps : ∀ s s', P s → step s = some (.ok s') → P s') :
    ∀ (n : Nat) (s : σ), P s → (run step n s).1 = .error fault →
      ∃ s', P s' ∧ step s' = some (.error fault) := by
  intro n
  induction n with
  | zero => exact fun _ _ failed => nomatch failed
  | succ n ih =>
      intro s holds failed
      rw [run] at failed
      split at failed
      · cases failed
      · next e made =>
          cases failed
          exact ⟨s, holds, made⟩
      · next s' made => exact ih s' (keeps s s' holds made) failed

theorem from_start (sound : b₀.Sound) (seq : Nat) : From b₀ (start b₀ seq) where
  proper := sound.proper
  pair := rfl
  unfilled := sound.unfilled
  filled := by simp [start]
  terms := by simp [orders, start]
  side := sound.side
  untouched _ mem := .inr mem

/-- Where a pass over a book ends. -/
def resting [Build] (v : Venue) (seq : Nat) (b₀ : Book) : Pass :=
  (run (restingStep v) b₀.size (start b₀ seq)).2

/-- Where a pass of an order over a book ends. -/
def incoming [Build] (v : Venue) (seq : Nat) (b₀ : Book) (t : Order) : Pass × Order :=
  (run (incomingStep v) (b₀.size + 1) (start b₀ seq, t)).2

section Keeping

variable {P : Pass → Prop} {Q : Pass → Order → Prop} {fault : Fault}

theorem finish_of_matched {ended : Except Fault Unit} {c : Crossing}
    (ok : (p.matched ended).outcome = .ok c) : ended = .ok () ∧ c = p.finish := by
  cases ended with
  | error fault => simp [matched, Except.map] at ok
  | ok _ => exact ⟨rfl, (Except.ok.inj ok).symm⟩

theorem error_of_matched {ended : Except Fault Unit}
    (failed : (p.matched ended).outcome = .error fault) : ended = .error fault := by
  cases ended with
  | error e => simpa [matched, Except.map] using failed
  | ok _ => simp [matched, Except.map] at failed

section Resting

variable [Build] (sound : b₀.Sound) (init : P (start b₀ seq))
  (keeps : ∀ p p' maker buyer seller f, From b₀ p → P p →
    Filled v maker buyer seller f p p' p.orders p'.orders → P p')

include sound keeps

theorem restingStep_keeps (p p' : Pass) (holds : From b₀ p ∧ P p)
    (step : restingStep v p = some (.ok p')) : From b₀ p' ∧ P p' := by
  obtain ⟨kept, maker, buyer, seller, f, filled⟩ := restingStep_filled sound holds.1 step
  exact ⟨kept, keeps p p' maker buyer seller f holds.1 holds.2 filled⟩

include init

/-- Whatever a fill keeps, a pass over a book keeps. -/
theorem resting_keeps : From b₀ (resting v seq b₀) ∧ P (resting v seq b₀) :=
  run_induction (P := fun p => From b₀ p ∧ P p) (restingStep_keeps sound keeps) _ _
    ⟨from_start sound seq, init⟩

/-- And a pass fails in a fill from where it holds. -/
theorem matchResting_error (failed : (matchResting v seq b₀).outcome = .error fault) :
    ∃ p, From b₀ p ∧ P p ∧ ∃ maker bid ask, Meet bid ask ∧ bid ∈ p.orders ∧ ask ∈ p.orders ∧
      Fill.execute v p.nextFill maker (makerPrice maker bid ask) bid ask = .error fault := by
  obtain ⟨p, ⟨kept, holds⟩, step⟩ := run_error (P := fun p => From b₀ p ∧ P p)
    (restingStep_keeps sound keeps) _ _ ⟨from_start sound seq, init⟩ (error_of_matched failed)
  exact ⟨p, kept, holds, restingStep_error sound kept step⟩

end Resting

section Incoming

variable [Build] (sound : b₀.Sound) (pair : t.pair = b₀.pair) (init : Q (start b₀ seq) t)
  (keeps : ∀ p p' t₁ t₂ maker buyer seller f, From b₀ p → Q p t₁ →
    Filled v maker buyer seller f p p' (t₁ :: p.orders) (t₂ :: p'.orders) → t₂.Closed → Q p' t₂)

include sound pair keeps

theorem incomingStep_keeps (s s' : Pass × Order)
    (holds : From b₀ s.1 ∧ s.2.terms = t.terms ∧ Q s.1 s.2)
    (step : incomingStep v s = some (.ok s')) :
    From b₀ s'.1 ∧ s'.2.terms = t.terms ∧ Q s'.1 s'.2 := by
  obtain ⟨kept, same, holds⟩ := holds
  obtain ⟨kept', same', closed, maker, buyer, seller, f, filled⟩ :=
    incomingStep_filled sound kept ((Order.pair_of_terms same).trans pair) step
  exact ⟨kept', same'.trans same, keeps _ _ _ _ maker buyer seller f kept holds filled closed⟩

include init

/-- The same of a pass of an order over a book. -/
theorem incoming_keeps :
    From b₀ (incoming v seq b₀ t).1 ∧ (incoming v seq b₀ t).2.terms = t.terms ∧
      Q (incoming v seq b₀ t).1 (incoming v seq b₀ t).2 :=
  run_induction (P := fun s : Pass × Order => From b₀ s.1 ∧ s.2.terms = t.terms ∧ Q s.1 s.2)
    (incomingStep_keeps sound pair keeps) _ _ ⟨from_start sound seq, rfl, init⟩

theorem matchIncoming_error (failed : (matchIncoming v seq b₀ t).1.outcome = .error fault) :
    ∃ p t₁, From b₀ p ∧ Q p t₁ ∧ ∃ maker buyer seller, Meet buyer seller ∧
      buyer ∈ t₁ :: p.orders ∧ seller ∈ t₁ :: p.orders ∧
      Fill.execute v p.nextFill maker (makerPrice maker buyer seller) buyer seller =
        .error fault := by
  have failed : ((incoming v seq b₀ t).1.matched
      (run (incomingStep v) (b₀.size + 1) (start b₀ seq, t)).1).outcome = .error fault := failed
  obtain ⟨⟨p, t₁⟩, ⟨kept, same, holds⟩, step⟩ := run_error
    (P := fun s : Pass × Order => From b₀ s.1 ∧ s.2.terms = t.terms ∧ Q s.1 s.2)
    (incomingStep_keeps sound pair keeps) _ _ ⟨from_start sound seq, rfl, init⟩
    (error_of_matched failed)
  exact ⟨p, t₁, kept, holds,
    incomingStep_error sound kept ((Order.pair_of_terms same).trans pair) step⟩

end Incoming

end Keeping

/-- A pass without trades is where it started. -/
theorem resting_idle [Build] (sound : b₀.Sound) (none : (resting v seq b₀).crossing.trades = []) :
    resting v seq b₀ = start b₀ seq := by
  have kept := (resting_keeps (v := v)
    (P := fun p => p.crossing.trades ≠ [] ∨ p = .start b₀ seq) sound (.inr rfl)
    fun _ _ _ _ _ _ _ _ filled => .inl (by rw [filled.trades]; simp)).2
  exact kept.resolve_left (not_not_intro none)

theorem matchResting_outcome [Build] {c : Crossing}
    (ended : (matchResting v seq b₀).outcome = .ok c) : c = (resting v seq b₀).finish :=
  (finish_of_matched ended).2

theorem matchIncoming_outcome [Build] {c : Crossing}
    (ended : (matchIncoming v seq b₀ t).1.outcome = .ok c) :
    c = (incoming v seq b₀ t).1.finish :=
  (finish_of_matched ended).2

end Runs

end Pass

section Passes

variable [Build] {v : Venue} {b₀ : Book} {seq : Nat} {t t' : Order} {c : Crossing} {m : Matched}

theorem Balanced.filled {start orders orders' : List Order} {p p' : Pass} {maker : Side}
    {buyer seller : Order} {f : Fill}
    (balanced : Balanced v start orders p.crossing.trades p.crossing.effects)
    (filled : Pass.Filled v maker buyer seller f p p' orders orders') :
    Balanced v start orders' p'.crossing.trades p'.crossing.effects := by
  obtain ⟨others, before, after⟩ := filled.orders
  rw [filled.trades, filled.effects]
  have step := (balanced.perm before.symm).fill filled.run filled.buys filled.sells filled.pair
  exact step.perm after

theorem resting_from (sound : b₀.Sound) (v : Venue) (seq : Nat) :
    (Pass.resting v seq b₀).From b₀ :=
  (Pass.resting_keeps (P := fun _ => True) sound trivial fun _ _ _ _ _ _ _ _ _ => trivial).1

theorem incoming_from (sound : b₀.Sound) (v : Venue) (seq : Nat) (pair : t.pair = b₀.pair) :
    (Pass.incoming v seq b₀ t).1.From b₀ :=
  (Pass.incoming_keeps (Q := fun _ _ => True) sound pair trivial
    fun _ _ _ _ _ _ _ _ _ _ _ _ => trivial).1

theorem incoming_terms (sound : b₀.Sound) (v : Venue) (seq : Nat) (pair : t.pair = b₀.pair) :
    (Pass.incoming v seq b₀ t).2.terms = t.terms :=
  (Pass.incoming_keeps (Q := fun _ _ => True) sound pair trivial
    fun _ _ _ _ _ _ _ _ _ _ _ _ => trivial).2.1

theorem incoming_closed (sound : b₀.Sound) (v : Venue) (seq : Nat) (pair : t.pair = b₀.pair)
    (closed : t.Closed) : (Pass.incoming v seq b₀ t).2.Closed :=
  (Pass.incoming_keeps (Q := fun _ t' => t'.Closed) sound pair closed
    fun _ _ _ _ _ _ _ _ _ _ _ closed => closed).2.2

theorem resting_balanced (sound : b₀.Sound) (v : Venue) (seq : Nat) :
    Balanced v b₀.all (Pass.resting v seq b₀).orders (Pass.resting v seq b₀).finish.trades
      (Pass.resting v seq b₀).finish.effects := by
  have init : Balanced v b₀.all (Pass.start b₀ seq).orders [] [] := by
    simpa [Pass.orders, Pass.start] using balanced_start v b₀.all
  exact (Pass.resting_keeps
    (P := fun p => Balanced v b₀.all p.orders p.crossing.trades p.crossing.effects) sound init
    fun _ _ _ _ _ _ _ balanced filled => balanced.filled filled).2

theorem incoming_balanced (sound : b₀.Sound) (v : Venue) (seq : Nat) (pair : t.pair = b₀.pair) :
    Balanced v (t :: b₀.all)
      ((Pass.incoming v seq b₀ t).2 :: (Pass.incoming v seq b₀ t).1.orders)
      (Pass.incoming v seq b₀ t).1.finish.trades (Pass.incoming v seq b₀ t).1.finish.effects := by
  have init : Balanced v (t :: b₀.all) (t :: (Pass.start b₀ seq).orders) [] [] := by
    simpa [Pass.orders, Pass.start] using balanced_start v (t :: b₀.all)
  exact (Pass.incoming_keeps
    (Q := fun p t' => Balanced v (t :: b₀.all) (t' :: p.orders) p.crossing.trades
      p.crossing.effects) sound pair init
    fun _ _ _ _ _ _ _ _ _ balanced filled _ => balanced.filled filled).2.2

end Passes

end Bourse
