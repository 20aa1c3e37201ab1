import Bourse.Pair.Id

/-! Requests to remove a market at a time, ordered by time and then by market. -/

namespace Bourse

structure DelistRequest where
  /-- Unix seconds. -/
  effectiveTime : Int
  pair : PairId
  deriving DecidableEq, Repr

namespace DelistRequest

instance : Ord DelistRequest := ⟨compareLex (compareOn effectiveTime) (compareOn pair)⟩

instance : Std.TransOrd DelistRequest :=
  inferInstanceAs (Std.TransCmp (compareLex (compareOn effectiveTime) (compareOn pair)))

instance : Std.LawfulEqOrd DelistRequest :=
  Text.lawfulEqCmp_compareLex fun {a b} h₁ h₂ => by cases a; cases b; simp_all

def isDue (r : DelistRequest) (now : Int) : Bool := r.effectiveTime ≤ now

end DelistRequest

end Bourse
