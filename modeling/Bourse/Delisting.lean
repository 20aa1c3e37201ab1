import Bourse.Resting

/-!
Removal of markets. Its creator asks for it some time ahead. When the time has come the resting
orders of the market expire with their funds released, and the market goes with every other request
that names it, so that no stale request removes a later market of the same name. A request is used
up whether or not its market still exists.
-/

namespace Bourse

namespace Clock

def latest : Int := 2 ^ (63 : Nat) - 1

def earliest : Int := -(2 ^ (63 : Nat))

/-- The sum, kept within the range of the clock. -/
def add (time seconds : Int) : Int := max earliest (min latest (time + seconds))

end Clock

/-- What a sweep of due requests did. -/
structure Sweep where
  delisted : List PairId := []
  cancelled : List Order := []
  /-- What returns the funds of the cancelled orders. -/
  effects : List Effect := []
  deriving DecidableEq, Repr

namespace Store

/-- Stores a request of the market's creator. -/
def scheduleDelist (m : DelistPair) (params : Params) (now : Int) (s : Store) :
    Except Fault (DelistRequest × Store) := do
  let earliest := Clock.add now params.minDelistDelay
  if m.effectiveTime < earliest then throw (.tooEarly m.effectiveTime earliest)
  let pair ← s.lookup m.symbol
  pair.requireCreator m.sender
  let request : DelistRequest := ⟨m.effectiveTime, pair.id⟩
  return (request, (s.putDelist request).2)

/-- The markets with a due request, in the order in which they are removed. -/
def dueMarkets (s : Store) (time : Int) : List PairId :=
  (s.tables.dueDelists time).map (·.pair)

/-- Expires the orders with these ids. -/
def expireOrders (base : Denom) (sweep : Sweep) : List OrderId → Action Store Sweep
  | [] => pure sweep
  | id :: rest => do
      let (o, effects) ← Action.take fun s => s.cancel id .delist base
      expireOrders base
        { sweep with
          cancelled := sweep.cancelled ++ [o]
          effects := sweep.effects ++ effects } rest

/-- Removes a market with its orders. -/
def delist (base : Denom) (sweep : Sweep) (pair : PairId) : Action Store Sweep := do
  let ids := ((← get).tables.ordersOf pair).map (·.id)
  let sweep ← expireOrders base sweep ids
  let _ ← Action.take fun s => s.removePair pair
  return { sweep with delisted := sweep.delisted ++ [pair] }

/-- Carries out requests in turn and uses them up. -/
def carryOut (base : Denom) (sweep : Sweep) : List DelistRequest → Action Store Sweep
  | [] => pure sweep
  | r :: rest => do
      let sweep ← if (← get).hasPair r.pair then delist base sweep r.pair else pure sweep
      modify fun s => (s.removeDelist r).2
      carryOut base sweep rest

/-- Carries out every request due at `now`. -/
def sweepDue (now : Int) (base : Denom) : Action Store Sweep := do
  carryOut base {} ((← get).tables.dueDelists now)

end Store

end Bourse
