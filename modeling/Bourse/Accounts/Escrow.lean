import Bourse.Accounts.Basic
import Bourse.Action

/-!
Escrow of several coins at once. An order freezes its principal and its fee together; if both are of
one denomination their sum must be covered. Either every coin is frozen or none, and so for the
release.
-/

namespace Bourse

/-- Adds a coin to coins of distinct denominations. -/
def addHold (coin : Coin) : List Coin → Except Fault (List Coin)
  | [] => .ok [coin]
  | held :: rest =>
      if held.denom = coin.denom then
        match Word.add? held.amount coin.amount with
        | some amount => .ok ({ held with amount } :: rest)
        | none => .error (.overflow s!"holding {coin.text}")
      else do return held :: (← addHold coin rest)

/-- One coin for each denomination, in order of first appearance, without zero amounts. -/
def mergeHolds (coins : List Coin) : Except Fault (List Coin) :=
  (coins.filter fun c => !c.isZero).foldlM (fun held coin => addHold coin held) []

namespace Accounts

/-- Refuses the first coin that the owner's available funds do not cover. -/
def requireEach (a : Accounts) (owner : Address) : List Coin → Except Fault Unit
  | [] => .ok ()
  | hold :: rest =>
      if a.covers owner hold then a.requireEach owner rest
      else .error
        (.insufficientFunds hold.denom hold.amount (a.holding owner hold.denom).available)

def checkSufficient (a : Accounts) (owner : Address) (coins : List Coin) : Except Fault Unit := do
  a.requireEach owner (← mergeHolds coins)

def freezeAll (owner : Address) (coins : List Coin) : Action Accounts Unit := do
  let holds ← Action.ask fun _ => mergeHolds coins
  Action.ask fun a => a.checkSufficient owner holds
  Action.allOrUndo
    (fun hold => Action.change fun a => a.freeze owner hold)
    (fun hold => Action.change fun a => a.unfreeze owner hold) [] holds

def releaseAll (owner : Address) (coins : List Coin) : Action Accounts Unit := do
  let holds ← Action.ask fun _ => mergeHolds coins
  Action.allOrUndo
    (fun hold => Action.change fun a => a.unfreeze owner hold)
    (fun hold => Action.change fun a => a.freeze owner hold) [] holds

end Accounts

end Bourse
