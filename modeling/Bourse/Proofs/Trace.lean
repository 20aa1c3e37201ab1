import Bourse.Proofs.Lifetime

/-!
# Runs with everything that was fed to them

A history keeps what a run admitted, traded and ended. A trace keeps all of it: each input, and the
market that it found.

* `Input`: a call of a run as data; `Market.after` is the market after it, `Market.event` its event;
* `Intact.after_deliver`, `Intact.after_endBlock`: what a message and a block end do;
* `Trace`: the runs, each with its moments in order;
* `Trace.run`: a trace is a run.
-/

namespace Bourse

/-- What a market may be fed. -/
inductive Input
  | beginBlock (header : Header)
  | deliver (msg : Message)
  | endBlock (header : Header)
  | setPair (pair : Pair)
  | accounts (accounts : Accounts)
  | params (params : Params)
  | tokens (tokens : Tokens)

/-- Accounts that are put in hold words. -/
def Input.Fits : Input → Prop
  | accounts funds => funds.InRange
  | beginBlock _ | deliver _ | endBlock _ | setPair _ | params _ | tokens _ => True

namespace Market

def after [Build] (m : Market) : Input → Market
  | .beginBlock header => m.beginBlock header
  | .deliver msg => (m.deliver msg).2
  | .endBlock header => (m.endBlock header).2
  | .setPair pair => m.setPair pair
  | .accounts accounts => { m with ledger := m.ledger.withAccounts accounts }
  | .params params => { m with params }
  | .tokens tokens => { m with tokens }

def event [Build] (m : Market) : Input → Event
  | .deliver msg => m.eventOf msg
  | .endBlock header => m.eventAt header
  | .beginBlock _ | .setPair _ | .accounts _ | .params _ | .tokens _ => {}

theorem call_after [Build] (m : Market) {i : Input} (fits : i.Fits) :
    Call m (m.event i) (m.after i) := by
  cases i with
  | beginBlock header => exact .beginBlock header
  | deliver msg => exact .deliver msg
  | endBlock header => exact .endBlock header
  | setPair pair => exact .setPair pair
  | accounts accounts => exact .accounts fits
  | params params => exact .params params
  | tokens tokens => exact .tokens tokens

section Inputs

variable {m : Market} (intact : m.Intact)

include intact

/-- A message is refused and does nothing, or is carried out on the ledger. -/
theorem Intact.after_deliver [Build] (msg : Message) :
    (m.deliver msg).1.success = false ∧ m.after (.deliver msg) = m ∧
        m.event (.deliver msg) = {} ∨
      ∃ done l, msg.check = .ok () ∧ (m.deliver msg).1.success = true ∧
        Ledger.execute m.tokens m.params m.header msg
          (m.ledger.withStore m.ledger.store.openJournal) = .ok done l ∧
        m.after (.deliver msg) = { m with ledger := l.withStore l.store.commit } ∧
        m.event (.deliver msg) = ⟨m.gate msg, done.batch⟩ := by
  obtain refused | ⟨done, checked, accepted, run⟩ := intact.deliver_cases msg
  · exact .inl refused
  · obtain ⟨l, acted, same⟩ := Market.apply_ok run
    exact .inr ⟨done, l, checked, accepted, acted, same, eventOf_ok checked run⟩

/-- A block end fails and takes over the header alone, or is carried out on the ledger. -/
theorem Intact.after_endBlock [Build] (header : Header) :
    (∃ fault, (m.endBlock header).1 = .error fault ∧
        m.after (.endBlock header) = { m with header } ∧ m.event (.endBlock header) = {}) ∨
      ∃ report batch l, (m.endBlock header).1 = .ok report ∧
        Ledger.endBlock m.params header
          (m.ledger.withStore m.ledger.store.openJournal) = .ok (report, batch) l ∧
        m.after (.endBlock header) = { m with header, ledger := l.withStore l.store.commit } ∧
        m.event (.endBlock header) = ⟨none, batch⟩ := by
  obtain ⟨fault, failed, run⟩ | ⟨report, batch, ended, run⟩ := m.endBlock_cases header
  · exact .inl ⟨fault, failed, intact.closeBlock_error run, eventAt_error run⟩
  · obtain ⟨l, acted, same⟩ := Market.closeBlock_ok run
    exact .inr ⟨report, batch, l, ended, acted, same, eventAt_ok run⟩

end Inputs

/-- An input, and the market that it found. -/
structure Moment where
  market : Market
  input : Input

/-- A run from a market without markets and orders, and all its moments. -/
inductive Trace [Build] : List Moment → Market → Prop
  | start {accounts : Accounts} (tokens : Tokens) (params : Params) : accounts.InRange →
      Trace [] { ledger := { clearing := { accounts } }, tokens, params }
  | next {past : List Moment} {m : Market} (i : Input) : Trace past m → i.Fits →
      Trace (past ++ [⟨m, i⟩]) (m.after i)

variable {past : List Moment} {m : Market}

theorem Trace.run [Build] (trace : Trace past m) : ∃ h, Run h m := by
  induction trace with
  | start tokens params range => exact ⟨{}, .start tokens params range⟩
  | next i _ fits ih =>
      obtain ⟨h, run⟩ := ih
      exact ⟨_, run.call (call_after _ fits)⟩

theorem Trace.intact [Build] (trace : Trace past m) : m.Intact := by
  obtain ⟨h, run⟩ := trace.run
  exact run.intact

end Market

end Bourse
