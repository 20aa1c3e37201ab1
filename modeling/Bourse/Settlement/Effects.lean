import Bourse.Accounts.Basic
import Bourse.Action
import Bourse.Effect

/-!
Applying effects to accounts, in order and without those that move nothing; and the rehearsal that
finds the first effect the accounts would refuse while nothing has moved.
-/

namespace Bourse.Accounts

/-- What the accounts refuse is a corruption: matching and cancellation only ask for what orders
hold. -/
def refusal (e : Effect) (f : Fault) : Fault :=
  if f.isFatal then f else .corruption s!"{e.text}: {f.message}"

def applyEffect (a : Accounts) (e : Effect) : Except Fault Accounts :=
  (match e with
    | .transfer source target coin => a.transferFrozen source target coin
    | .unfreeze owner coin => a.unfreeze owner coin).mapError (refusal e)

/-- Applies each effect that moves something; what was applied before a refusal stays. -/
def applyEffects (effects : List Effect) : Action Accounts Unit :=
  (Effect.moving effects).forM fun e => .change fun a => a.applyEffect e

/-- Debits the frozen and then credits the available funds of one effect. -/
def rehearse (a : Accounts) (e : Effect) : Except Fault Accounts := do
  let coin := e.coin
  let source := a.holding e.debited coin.denom
  if source.frozen < coin.amount then
    throw (.corruption s!"{e.text}: frozen balance too small")
  let a := a.set e.debited coin.denom { source with frozen := source.frozen - coin.amount }
  let target := a.holding e.credited coin.denom
  match Word.add? target.available coin.amount with
  | some available => return a.set e.credited coin.denom { target with available }
  | none => throw (.corruption s!"{e.text}: available balance overflows")

/-- Whether the effects could be applied; nothing is written. -/
def dryRun (a : Accounts) (effects : List Effect) : Except Fault Unit := do
  let _ ← (Effect.moving effects).foldlM rehearse a

end Bourse.Accounts
