import Bourse.Settlement.Effects
import Bourse.Settlement.Replay
import Bourse.Settlement.Supply
import Bourse.Word

/-!
Settlement of a batch: trades and the effects of them, or the effects of cancellations alone. The
replay guard and the rehearsal come first, so a batch that is refused moved nothing and is not
recorded.
-/

namespace Bourse

/-- What one step settles. -/
structure Batch where
  trades : List Trade := []
  effects : List Effect := []
  deriving DecidableEq, Repr

instance : Append Batch := ⟨fun b c => ⟨b.trades ++ c.trades, b.effects ++ c.effects⟩⟩

/-- The accounts, and what was settled on them. -/
structure Clearing where
  accounts : Accounts := {}
  /-- The last fill settled. -/
  watermark : Option FillKey := none
  /-- How many trades were settled. It wraps in either build: no program runs so long that it would
  stop over it. -/
  settledTrades : Nat := 0

namespace Clearing

def onAccounts {α : Type} (x : Action Accounts α) : Action Clearing α :=
  x.within (·.accounts) fun c accounts => { c with accounts }

/-- Notes that the trades up to `watermark` are settled. -/
def note (c : Clearing) (watermark : Option FillKey) (trades : List Trade) : Clearing :=
  { c with
    watermark := Replay.advance c.watermark watermark
    settledTrades := Word.wrapAdd c.settledTrades trades.length }

def settle (b : Batch) : Action Clearing Unit := do
  let watermark ← Action.ask fun c => Replay.check c.watermark b.trades
  Action.ask fun c => c.accounts.dryRun b.effects
  let before := SupplySnapshot.take (← get).accounts (SupplySnapshot.denomsOf b.effects)
  onAccounts (Accounts.applyEffects b.effects)
  Action.ask fun c => before.verify c.accounts
  modify fun c => c.note watermark b.trades

end Clearing

end Bourse
