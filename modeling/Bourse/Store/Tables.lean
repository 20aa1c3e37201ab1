import Bourse.Delist
import Bourse.Order.Basic
import Bourse.Pair.Basic

/-!
The tables of the market: pairs and resting orders under their ids, delist requests, and every order
id ever admitted. An index lists the orders of each pair, so that one pair is read without walking
all orders; a pair without orders has no entry in it.
-/

namespace Bourse

structure Tables where
  pairs : Std.ExtTreeMap PairId Pair := ∅
  orders : Std.ExtTreeMap OrderId Order := ∅
  byPair : Std.ExtTreeMap PairId (Std.ExtTreeSet OrderId) := ∅
  delists : Std.ExtTreeSet DelistRequest := ∅
  usedIds : Std.ExtTreeSet OrderId := ∅

namespace Tables

/-- The ids that the index lists for a pair. -/
def indexed (t : Tables) (pair : PairId) : Std.ExtTreeSet OrderId := t.byPair.getD pair ∅

def addToIndex (t : Tables) (pair : PairId) (id : OrderId) : Tables :=
  { t with byPair := t.byPair.insert pair ((t.indexed pair).insert id) }

def dropFromIndex (t : Tables) (pair : PairId) (id : OrderId) : Tables :=
  let ids := (t.indexed pair).erase id
  { t with byPair := if ids.isEmpty then t.byPair.erase pair else t.byPair.insert pair ids }

/-- Drops the entry of a pair, whatever it lists. -/
def dropPairFromIndex (t : Tables) (pair : PairId) : Tables :=
  { t with byPair := t.byPair.erase pair }

/-- Stores an order under an id, with its entry in the index. -/
def fileOrder (t : Tables) (id : OrderId) (o : Order) : Tables :=
  { t.addToIndex o.pair id with orders := t.orders.insert id o }

def insertOrder (t : Tables) (o : Order) : Tables := t.fileOrder o.id o

/-- Removes an order and its entry in the index. -/
def eraseOrder (t : Tables) (id : OrderId) : Tables :=
  match t.orders[id]? with
  | some o => { t.dropFromIndex o.pair id with orders := t.orders.erase id }
  | none => t

/-- Overwrites an order by one of the same id and pair. -/
def replaceOrder (t : Tables) (o : Order) : Tables :=
  { t with orders := t.orders.insert o.id o }

/-- Stores a pair under an id. -/
def filePair (t : Tables) (id : PairId) (p : Pair) : Tables :=
  { t with pairs := t.pairs.insert id p }

def insertPair (t : Tables) (p : Pair) : Tables := t.filePair p.id p

def erasePair (t : Tables) (id : PairId) : Tables := { t with pairs := t.pairs.erase id }

def insertDelist (t : Tables) (r : DelistRequest) : Tables :=
  { t with delists := t.delists.insert r }

def eraseDelist (t : Tables) (r : DelistRequest) : Tables :=
  { t with delists := t.delists.erase r }

def useId (t : Tables) (id : OrderId) : Tables := { t with usedIds := t.usedIds.insert id }

def freeId (t : Tables) (id : OrderId) : Tables := { t with usedIds := t.usedIds.erase id }

/-- Whether an id rests or was ever admitted. -/
def isIdUsed (t : Tables) (id : OrderId) : Bool := t.usedIds.contains id || t.orders.contains id

/-- The resting orders of a pair, by id. -/
def ordersOf (t : Tables) (pair : PairId) : List Order :=
  (t.indexed pair).toList.filterMap fun id => t.orders[id]?

/-- The resting orders of a sender, by id. -/
def ordersBy (t : Tables) (sender : Address) : List Order :=
  t.orders.values.filter fun o => o.sender == sender

/-- The pairs with resting orders, ascending. -/
def activePairs (t : Tables) : List PairId := t.byPair.keys

/-- The requests due at a time, by time and pair. -/
def dueDelists (t : Tables) (time : Int) : List DelistRequest :=
  t.delists.toList.takeWhile fun r => r.isDue time

end Tables

end Bourse
