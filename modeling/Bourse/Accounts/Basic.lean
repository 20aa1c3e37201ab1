import Bourse.Address
import Bourse.Coin
import Bourse.Fault

/-!
What every account holds of every denomination. An operation either happens in full or is refused
and changes nothing; an amount never leaves the range of a word.
-/

namespace Bourse

/-- One denomination in one account. -/
structure Purse where
  owner : Address
  denom : Denom
  deriving DecidableEq, Repr

namespace Purse

instance : Ord Purse := ⟨compareLex (compareOn owner) (compareOn denom)⟩

instance : Std.TransOrd Purse :=
  inferInstanceAs (Std.TransCmp (compareLex (compareOn owner) (compareOn denom)))

instance : Std.LawfulEqOrd Purse :=
  Text.lawfulEqCmp_compareLex fun {a b} h₁ h₂ => by cases a; cases b; simp_all

end Purse

structure Accounts where
  holdings : Std.ExtTreeMap Purse Holding := ∅

namespace Accounts

def holding (a : Accounts) (owner : Address) (denom : Denom) : Holding :=
  a.holdings.getD ⟨owner, denom⟩ {}

def set (a : Accounts) (owner : Address) (denom : Denom) (h : Holding) : Accounts :=
  ⟨a.holdings.insert ⟨owner, denom⟩ h⟩

/-- Adds to the available funds. -/
def deposit (a : Accounts) (owner : Address) (coin : Coin) : Except Fault Accounts :=
  let h := a.holding owner coin.denom
  match Word.add? h.available coin.amount with
  | some available => .ok (a.set owner coin.denom { h with available })
  | none => .error (.overflow s!"crediting {coin.text}")

/-- Moves available funds to the frozen ones. -/
def freeze (a : Accounts) (owner : Address) (coin : Coin) : Except Fault Accounts :=
  let h := a.holding owner coin.denom
  if h.available < coin.amount then
    .error (.insufficientFunds coin.denom coin.amount h.available)
  else if coin.isZero then .ok a
  else
    match Word.add? h.frozen coin.amount with
    | some frozen => .ok (a.set owner coin.denom ⟨h.available - coin.amount, frozen⟩)
    | none => .error (.overflow s!"freezing {coin.text}")

/-- Moves frozen funds back to the available ones. -/
def unfreeze (a : Accounts) (owner : Address) (coin : Coin) : Except Fault Accounts :=
  let h := a.holding owner coin.denom
  if h.frozen < coin.amount then
    .error (.insufficientFrozen coin.denom coin.amount h.frozen)
  else if coin.isZero then .ok a
  else
    match Word.add? h.available coin.amount with
    | some available => .ok (a.set owner coin.denom ⟨available, h.frozen - coin.amount⟩)
    | none => .error (.overflow s!"unfreezing {coin.text}")

/-- Moves frozen funds of `source` to the available funds of `target`. -/
def transferFrozen (a : Accounts) (source target : Address) (coin : Coin) :
    Except Fault Accounts :=
  let h := a.holding source coin.denom
  if h.frozen < coin.amount then
    .error (.insufficientFrozen coin.denom coin.amount h.frozen)
  else if coin.isZero then .ok a
  else if Word.size ≤ (a.holding target coin.denom).available + coin.amount then
    .error (.overflow s!"transferring {coin.text}")
  else
    (a.set source coin.denom { h with frozen := h.frozen - coin.amount }).deposit target coin

/-- Moves available funds of `source` to those of `target`. -/
def send (a : Accounts) (source target : Address) (coin : Coin) : Except Fault Accounts :=
  let h := a.holding source coin.denom
  if h.available < coin.amount then
    .error (.insufficientFunds coin.denom coin.amount h.available)
  else if coin.isZero ∨ source = target then .ok a
  else if Word.size ≤ (a.holding target coin.denom).available + coin.amount then
    .error (.overflow s!"sending {coin.text}")
  else
    (a.set source coin.denom { h with available := h.available - coin.amount }).deposit target coin

def covers (a : Accounts) (owner : Address) (coin : Coin) : Bool :=
  coin.amount ≤ (a.holding owner coin.denom).available

-- The zero that sums start from is that of the core library, whatever else is imported.
attribute [local instance (high)] Zero.ofOfNat0

/-- The sum of `f` over the holdings of `denom`. -/
def sumOf (f : Holding → Nat) (a : Accounts) (denom : Denom) : Nat :=
  ((a.holdings.toList.filter fun (purse, _) => purse.denom == denom).map fun (_, h) => f h).sum

/-- All there is of a denomination. -/
def supply : Accounts → Denom → Nat := sumOf Holding.total

def totalFrozen : Accounts → Denom → Nat := sumOf Holding.frozen

/-- The denominations that somebody holds, ascending. -/
def denoms (a : Accounts) : List Denom :=
  (Std.ExtTreeSet.ofList
    (((a.holdings.toList.filter fun (_, h) => !h.isZero)).map fun (purse, _) => purse.denom)
    compare).toList

end Accounts

end Bourse
