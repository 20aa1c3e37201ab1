import Bourse.Address
import Bourse.Coin

/-!
A movement of frozen funds, as matching and cancellation ask for it. Effects are data: they are
applied later, in order, by settlement.
-/

namespace Bourse

inductive Effect
  /-- From the frozen funds of one account to the available funds of another. -/
  | transfer (source target : Address) (coin : Coin)
  /-- Back to the available funds of the owner. -/
  | unfreeze (owner : Address) (coin : Coin)
  deriving DecidableEq, Repr

namespace Effect

def coin : Effect → Coin
  | transfer _ _ coin => coin
  | unfreeze _ coin => coin

/-- The account whose frozen funds shrink. -/
def debited : Effect → Address
  | transfer source _ _ => source
  | unfreeze owner _ => owner

/-- The account whose available funds grow. -/
def credited : Effect → Address
  | transfer _ target _ => target
  | unfreeze owner _ => owner

/-- An effect of amount zero moves nothing and is left out. -/
def isNoop (e : Effect) : Bool := e.coin.isZero

def text : Effect → String
  | transfer source target coin => s!"transfer {coin.text} {source.text} -> {target.text}"
  | unfreeze owner coin => s!"unfreeze {coin.text} for {owner.text}"

/-- Drops the effects that move nothing. -/
def moving (effects : List Effect) : List Effect := effects.filter fun e => !e.isNoop

end Effect

end Bourse
