import Bourse.Fault

/-!
An action on a state ends with a value or a fault, and with a state either way: what it wrote before
a fault stays written unless the action undoes it.
-/

namespace Bourse

abbrev Action (σ α : Type) := EStateM Fault σ α

namespace Action

variable {σ τ α : Type}

/-- Runs a change that leaves the state alone when it fails. -/
def change (f : σ → Except Fault σ) : Action σ Unit := fun s =>
  match f s with
  | .ok s' => .ok () s'
  | .error fault => .error fault s

/-- Runs a change that also answers a value, and leaves the state alone when it fails. -/
def take (f : σ → Except Fault (α × σ)) : Action σ α := fun s =>
  match f s with
  | .ok (a, s') => .ok a s'
  | .error fault => .error fault s

/-- A computation that reads the state and writes nothing. -/
def ask (f : σ → Except Fault α) : Action σ α := fun s =>
  match f s with
  | .ok a => .ok a s
  | .error fault => .error fault s

/-- Runs an action on a part of the state. -/
def within (part : σ → τ) (replace : σ → τ → σ) (x : Action τ α) : Action σ α := fun s =>
  match x (part s) with
  | .ok a t => .ok a (replace s t)
  | .error fault t => .error fault (replace s t)

/-- Runs an action; if it fails, runs `undo` and passes the fault on. -/
def orUndo (x : Action σ α) (undo : Action σ Unit) : Action σ α := fun s =>
  match x s with
  | .ok a s' => .ok a s'
  | .error fault s' => (do undo; throw fault) s'

/-- Applies `act` to each member in turn. If one fails, the members before it are undone, the last
one first. -/
def allOrUndo (act undo : α → Action σ Unit) (done : List α) : List α → Action σ Unit
  | [] => pure ()
  | a :: rest => do
      (act a).orUndo (done.forM undo)
      allOrUndo act undo (a :: done) rest

/-- The value or the fault, and the state. -/
def outcome (x : Action σ α) (s : σ) : Except Fault α × σ :=
  match x s with
  | .ok a s' => (.ok a, s')
  | .error fault s' => (.error fault, s')

end Action

end Bourse
