import Bourse.Accounts.Basic
import Bourse.Effect

/-! Settlement moves value between accounts and makes none: the supply of every denomination that it
touches is noted before and compared after. -/

namespace Bourse

/-- The supply of some denominations at one time. -/
structure SupplySnapshot where
  expected : Std.ExtTreeMap Denom Nat := ∅

namespace SupplySnapshot

def take (a : Accounts) (denoms : List Denom) : SupplySnapshot :=
  ⟨denoms.foldl (fun noted d => noted.insert d (a.supply d)) ∅⟩

/-- The denominations that effects name, ascending. -/
def denomsOf (effects : List Effect) : List Denom :=
  (Std.ExtTreeSet.ofList (effects.map fun e => e.coin.denom) compare).toList

def expected? (s : SupplySnapshot) (denom : Denom) : Option Nat := s.expected[denom]?

def tracked (s : SupplySnapshot) : List Denom := s.expected.keys

/-- Refuses the first denomination whose supply is another now. -/
def verify (s : SupplySnapshot) (a : Accounts) : Except Fault Unit :=
  s.expected.toList.forM fun (denom, expected) =>
    let actual := a.supply denom
    if actual ≠ expected then
      .error (.corruption s!"supply of {denom} changed from {expected} to {actual}")
    else .ok ()

end SupplySnapshot

end Bourse
