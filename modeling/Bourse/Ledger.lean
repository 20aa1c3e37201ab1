import Bourse.Settlement.Clearing
import Bourse.Store.Basic

/-! Everything that a message or a block end may write. -/

namespace Bourse

structure Ledger where
  store : Store := {}
  clearing : Clearing := {}
  /-- The number of the next fill of the block. -/
  nextFill : Nat := 0

namespace Ledger

variable {α : Type}

def onStore (x : Action Store α) : Action Ledger α :=
  x.within (·.store) fun l store => { l with store }

def onClearing (x : Action Clearing α) : Action Ledger α :=
  x.within (·.clearing) fun l clearing => { l with clearing }

def onAccounts (x : Action Accounts α) : Action Ledger α := onClearing (Clearing.onAccounts x)

def settle (b : Batch) : Action Ledger Unit := onClearing (Clearing.settle b)

/-- Runs an action with the store's journal open; the store keeps its writes only on success. -/
def atomically (x : Action Ledger α) (l : Ledger) : Except Fault α × Ledger :=
  match x { l with store := l.store.openJournal } with
  | .ok a l => (.ok a, { l with store := l.store.commit })
  | .error fault l => (.error fault, { l with store := l.store.rollback })

end Ledger

end Bourse
