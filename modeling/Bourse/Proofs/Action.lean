import Bourse.Action

/-!
# How a check and an action end

Each way of building a check or an action has two lemmas, on when it ends with a value and on when
it ends with a fault, so that a run is taken apart by rewriting and none is unfolded.

`Keeps R x` says that `R` relates the state before `x` to the one after, however `x` ends. It passes
through every way of building an action if `R` is reflexive and transitive.
-/

namespace Bourse

namespace Check

variable {α β : Type} {x : Except Fault α} {f : α → Except Fault β} {a c : α} {b : β}
  {e fault : Fault}

theorem bind_ok : x >>= f = .ok b ↔ ∃ a, x = .ok a ∧ f a = .ok b := by
  cases x <;> simp [bind, Except.bind]

theorem bind_error : x >>= f = .error fault ↔
    x = .error fault ∨ ∃ a, x = .ok a ∧ f a = .error fault := by
  cases x <;> simp [bind, Except.bind]

theorem pure_ok : (pure a : Except Fault α) = .ok c ↔ a = c := by simp [pure, Except.pure]

theorem pure_error : (pure a : Except Fault α) ≠ .error fault := nofun

theorem throw_ok : (throw e : Except Fault α) ≠ .ok a := nofun

theorem throw_error : (throw e : Except Fault α) = .error fault ↔ e = fault := by
  simp [throw, throwThe, MonadExceptOf.throw]

theorem guard_ok {p : Prop} [Decidable p] {next : PUnit → Except Fault β} :
    (if p then throw e >>= next else next ⟨⟩) = .ok b ↔ ¬p ∧ next ⟨⟩ = .ok b := by
  by_cases h : p <;> simp [h, bind_ok, throw_ok]

theorem guard_error {p : Prop} [Decidable p] {next : PUnit → Except Fault β} :
    (if p then throw e >>= next else next ⟨⟩) = .error fault ↔
      p ∧ e = fault ∨ ¬p ∧ next ⟨⟩ = .error fault := by
  by_cases h : p <;> simp [h, bind_error, throw_ok, throw_error]

theorem toOption_eq_some {x : Except Fault α} : x.toOption = some a ↔ x = .ok a := by
  cases x <;> simp [Except.toOption]

/-- What every step keeps, a fold keeps. -/
theorem foldlM_keeps {γ : Type} {P : β → Prop} {g : β → γ → Except Fault β} {l : List γ}
    {b b' : β} (each : ∀ c ∈ l, ∀ b b', P b → g b c = .ok b' → P b') (start : P b)
    (run : l.foldlM g b = .ok b') : P b' := by
  induction l generalizing b with
  | nil =>
      rw [List.foldlM_nil, pure_ok] at run
      exact run ▸ start
  | cons c rest ih =>
      rw [List.foldlM_cons, bind_ok] at run
      obtain ⟨next, first, run⟩ := run
      rw [List.forall_mem_cons] at each
      exact ih each.2 (each.1 b next start first) run

end Check

namespace Action

variable {σ τ α β : Type} {s s' : σ} {a : α} {b : β} {fault : Fault}

section Endings

variable {x : Action σ α} {f : α → Action σ β}

theorem bind_ok : (x >>= f) s = .ok b s' ↔ ∃ a t, x s = .ok a t ∧ f a t = .ok b s' := by
  change EStateM.bind x f s = _ ↔ _
  simp only [EStateM.bind]
  cases x s with
  | ok a t => exact ⟨fun run => ⟨a, t, rfl, run⟩, fun ⟨_, _, rfl, run⟩ => run⟩
  | error e t => exact ⟨nofun, nofun⟩

theorem bind_error : (x >>= f) s = .error fault s' ↔
    x s = .error fault s' ∨ ∃ a t, x s = .ok a t ∧ f a t = .error fault s' := by
  change EStateM.bind x f s = _ ↔ _
  simp only [EStateM.bind]
  cases x s with
  | ok a t =>
      refine ⟨fun run => .inr ⟨a, t, rfl, run⟩, ?_⟩
      rintro (failed | ⟨_, _, ⟨rfl, rfl⟩, run⟩)
      · cases failed
      · exact run
  | error e t => simp

theorem pure_ok {c : α} : (pure a : Action σ α) s = .ok c s' ↔ a = c ∧ s = s' := by
  change EStateM.Result.ok a s = _ ↔ _
  simp

theorem pure_error : (pure a : Action σ α) s ≠ .error fault s' := nofun

theorem get_ok {t : σ} : (get : Action σ σ) s = .ok t s' ↔ s = t ∧ s = s' := by
  change EStateM.Result.ok s s = _ ↔ _
  simp

theorem get_error {t : σ} : (get : Action σ σ) s ≠ .error fault t := nofun

theorem modify_ok {g : σ → σ} {u : PUnit} :
    (modify g : Action σ PUnit) s = .ok u s' ↔ g s = s' := by
  change EStateM.Result.ok PUnit.unit (g s) = _ ↔ _
  simp

theorem modify_error {g : σ → σ} : (modify g : Action σ PUnit) s ≠ .error fault s' := nofun

theorem throw_ok {e : Fault} : (throw e : Action σ α) s ≠ .ok a s' := nofun

theorem throw_error {e : Fault} :
    (throw e : Action σ α) s = .error fault s' ↔ e = fault ∧ s = s' := by
  change EStateM.Result.error e s = _ ↔ _
  simp

theorem guard_ok {p : Prop} [Decidable p] {e : Fault} {next : PUnit → Action σ α} :
    (if p then throw e >>= next else next ⟨⟩) s = .ok a s' ↔ ¬p ∧ next ⟨⟩ s = .ok a s' := by
  by_cases h : p <;> simp [h, bind_ok, throw_ok]

theorem guard_error {p : Prop} [Decidable p] {e : Fault} {next : PUnit → Action σ α} :
    (if p then throw e >>= next else next ⟨⟩) s = .error fault s' ↔
      (p ∧ e = fault ∧ s = s') ∨ ¬p ∧ next ⟨⟩ s = .error fault s' := by
  by_cases h : p <;> simp [h, bind_error, throw_ok, throw_error]

theorem ask_ok {f : σ → Except Fault α} : ask f s = .ok a s' ↔ f s = .ok a ∧ s = s' := by
  simp only [ask]
  cases f s <;> simp

theorem ask_error {f : σ → Except Fault α} :
    ask f s = .error fault s' ↔ f s = .error fault ∧ s = s' := by
  simp only [ask]
  cases f s <;> simp

theorem change_ok {f : σ → Except Fault σ} {u : Unit} :
    change f s = .ok u s' ↔ f s = .ok s' := by
  simp only [change]
  cases f s <;> simp

theorem change_error {f : σ → Except Fault σ} :
    change f s = .error fault s' ↔ f s = .error fault ∧ s = s' := by
  simp only [change]
  cases f s <;> simp

theorem take_ok {f : σ → Except Fault (α × σ)} : take f s = .ok a s' ↔ f s = .ok (a, s') := by
  simp only [take]
  cases f s <;> simp [Prod.ext_iff]

theorem take_error {f : σ → Except Fault (α × σ)} :
    take f s = .error fault s' ↔ f s = .error fault ∧ s = s' := by
  simp only [take]
  cases f s <;> simp

theorem within_ok {part : σ → τ} {replace : σ → τ → σ} {y : Action τ α} :
    within part replace y s = .ok a s' ↔ ∃ t, y (part s) = .ok a t ∧ replace s t = s' := by
  simp only [within]
  cases y (part s) <;> simp [and_assoc]

theorem within_error {part : σ → τ} {replace : σ → τ → σ} {y : Action τ α} :
    within part replace y s = .error fault s' ↔
      ∃ t, y (part s) = .error fault t ∧ replace s t = s' := by
  simp only [within]
  cases y (part s) <;> simp [and_assoc]

theorem orUndo_ok {undo : Action σ Unit} : orUndo x undo s = .ok a s' ↔ x s = .ok a s' := by
  simp only [orUndo]
  cases x s with
  | ok => simp
  | error e t =>
      simp only [reduceCtorEq, iff_false, bind_ok, not_exists, not_and]
      exact fun _ _ _ => throw_ok

theorem orUndo_error {undo : Action σ Unit} :
    orUndo x undo s = .error fault s' ↔ ∃ e t, x s = .error e t ∧
      (undo t = .error fault s' ∨ undo t = .ok () s' ∧ e = fault) := by
  simp only [orUndo]
  cases x s with
  | ok => simp
  | error e t =>
      simp only [bind_error, throw_error, EStateM.Result.error.injEq]
      constructor
      · rintro (failed | ⟨_, _, undone, rfl, rfl⟩)
        · exact ⟨e, t, ⟨rfl, rfl⟩, .inl failed⟩
        · exact ⟨e, t, ⟨rfl, rfl⟩, .inr ⟨undone, rfl⟩⟩
      · rintro ⟨_, _, ⟨rfl, rfl⟩, failed | ⟨undone, rfl⟩⟩
        · exact .inl failed
        · exact .inr ⟨(), s', undone, rfl, rfl⟩

theorem forM_nil_ok {g : α → Action σ PUnit} {u : PUnit} :
    [].forM g s = .ok u s' ↔ s = s' := by
  change EStateM.Result.ok PUnit.unit s = _ ↔ _
  simp

theorem forM_cons_ok {g : α → Action σ PUnit} {l : List α} {u : PUnit} :
    (a :: l).forM g s = .ok u s' ↔ ∃ t, g a s = .ok ⟨⟩ t ∧ l.forM g t = .ok u s' := by
  change (g a >>= fun _ => l.forM g) s = _ ↔ _
  rw [bind_ok]
  exact ⟨fun ⟨_, t, first, rest⟩ => ⟨t, first, rest⟩, fun ⟨t, first, rest⟩ => ⟨_, t, first, rest⟩⟩

theorem outcome_forM_cons {g : α → Action σ PUnit} {l : List α} {t : σ} {u : PUnit}
    (first : g a s = .ok u t) : ((a :: l).forM g).outcome s = (l.forM g).outcome t := by
  change outcome (EStateM.bind (g a) fun _ => l.forM g) s = _
  simp only [outcome, EStateM.bind, first]

theorem outcome_forM_cons_error {g : α → Action σ PUnit} {l : List α} {t : σ}
    (first : g a s = .error fault t) : ((a :: l).forM g).outcome s = (.error fault, t) := by
  change outcome (EStateM.bind (g a) fun _ => l.forM g) s = _
  simp only [outcome, EStateM.bind, first]

end Endings

/-- `R` relates the state before to the state after, whether or not the action fails. -/
def Keeps (R : σ → σ → Prop) (x : Action σ α) : Prop := ∀ s, R s (x.outcome s).2

section Keeping

variable {R : σ → σ → Prop} {x : Action σ α}

theorem keeps_iff : Keeps R x ↔
    (∀ s a s', x s = .ok a s' → R s s') ∧ ∀ s e s', x s = .error e s' → R s s' := by
  constructor
  · intro keeps
    constructor <;> intro s r s' run <;> simpa [outcome, run] using keeps s
  · rintro ⟨ok, error⟩ s
    simp only [outcome]
    cases run : x s with
    | ok a s' => exact ok s a s' run
    | error e s' => exact error s e s' run

theorem Keeps.ok (keeps : Keeps R x) (run : x s = .ok a s') : R s s' :=
  (keeps_iff.1 keeps).1 s a s' run

theorem Keeps.error (keeps : Keeps R x) (run : x s = .error fault s') : R s s' :=
  (keeps_iff.1 keeps).2 s fault s' run

variable [refl : Std.Refl R]

theorem keeps_pure (a : α) : Keeps R (pure a : Action σ α) := fun s => refl.refl s

theorem keeps_get : Keeps R (get : Action σ σ) := fun s => refl.refl s

theorem keeps_throw (e : Fault) : Keeps R (throw e : Action σ α) := fun s => refl.refl s

theorem keeps_ask (f : σ → Except Fault α) : Keeps R (ask f) := by
  refine keeps_iff.2 ⟨fun s a s' run => ?_, fun s e s' run => ?_⟩
  · rw [← (ask_ok.1 run).2]
    exact refl.refl s
  · rw [← (ask_error.1 run).2]
    exact refl.refl s

omit refl in
theorem keeps_modify {g : σ → σ} (step : ∀ s, R s (g s)) : Keeps R (modify g : Action σ PUnit) :=
  step

theorem keeps_change {f : σ → Except Fault σ} (step : ∀ s s', f s = .ok s' → R s s') :
    Keeps R (change f) := by
  refine keeps_iff.2 ⟨fun s u s' run => step s s' (change_ok.1 run), fun s e s' run => ?_⟩
  rw [← (change_error.1 run).2]
  exact refl.refl s

theorem keeps_take {f : σ → Except Fault (α × σ)} (step : ∀ s a s', f s = .ok (a, s') → R s s') :
    Keeps R (take f) := by
  refine keeps_iff.2 ⟨fun s a s' run => step s a s' (take_ok.1 run), fun s e s' run => ?_⟩
  rw [← (take_error.1 run).2]
  exact refl.refl s

omit refl in
theorem keeps_within {Q : τ → τ → Prop} {part : σ → τ} {replace : σ → τ → σ} {y : Action τ α}
    (keeps : Keeps Q y) (lift : ∀ s t, Q (part s) t → R s (replace s t)) :
    Keeps R (within part replace y) := by
  refine keeps_iff.2 ⟨fun s a s' run => ?_, fun s e s' run => ?_⟩
  · obtain ⟨t, inner, rfl⟩ := within_ok.1 run
    exact lift s t (keeps.ok inner)
  · obtain ⟨t, inner, rfl⟩ := within_error.1 run
    exact lift s t (keeps.error inner)

variable [Trans R R R]

omit refl in
theorem Keeps.bind {f : α → Action σ β} (first : Keeps R x) (next : ∀ a, Keeps R (f a)) :
    Keeps R (x >>= f) := by
  refine keeps_iff.2 ⟨fun s b s' run => ?_, fun s e s' run => ?_⟩
  · obtain ⟨a, t, run, run'⟩ := bind_ok.1 run
    exact Trans.trans (first.ok run) ((next a).ok run')
  · obtain failed | ⟨a, t, run, run'⟩ := bind_error.1 run
    · exact first.error failed
    · exact Trans.trans (first.ok run) ((next a).error run')

omit refl in
theorem Keeps.orUndo {undo : Action σ Unit} (first : Keeps R x) (second : Keeps R undo) :
    Keeps R (x.orUndo undo) := by
  refine keeps_iff.2 ⟨fun s b s' run => first.ok (orUndo_ok.1 run), fun s e s' run => ?_⟩
  obtain ⟨e, t, run, failed | ⟨undone, -⟩⟩ := orUndo_error.1 run
  · exact Trans.trans (first.error run) (second.error failed)
  · exact Trans.trans (first.error run) (second.ok undone)

theorem keeps_forM {f : α → Action σ PUnit} (each : ∀ a, Keeps R (f a)) (l : List α) :
    Keeps R (l.forM f) := by
  induction l with
  | nil => exact keeps_pure _
  | cons a rest ih => exact (each a).bind fun _ => ih

end Keeping

end Action

end Bourse
