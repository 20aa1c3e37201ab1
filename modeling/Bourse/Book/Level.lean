import Bourse.Order.Basic

/-! The orders at one price, earliest admission first, whatever order they came in. -/

namespace Bourse

structure Level where
  price : Decimal
  orders : List Order
  deriving DecidableEq, Repr

namespace Level

/-- Puts an order behind the orders earlier than it. -/
def place (o : Order) : List Order → List Order
  | [] => [o]
  | x :: rest => if x.isEarlier o then x :: place o rest else o :: x :: rest

def insert (l : Level) (o : Order) : Level := { l with orders := place o l.orders }

def front? (l : Level) : Option Order := l.orders.head?

/-- The first order and the level without it. -/
def pop? (l : Level) : Option (Order × Level) :=
  match l.orders with
  | [] => none
  | o :: rest => some (o, { l with orders := rest })

/-- Replaces the first order. -/
def setFront (l : Level) (o : Order) : Level := { l with orders := o :: l.orders.tail }

def find? (l : Level) (id : OrderId) : Option Order := l.orders.find? fun o => o.id == id

def isEmpty (l : Level) : Bool := l.orders.isEmpty

theorem place_perm (o : Order) (orders : List Order) : (place o orders).Perm (o :: orders) := by
  induction orders with
  | nil => exact .refl _
  | cons x rest ih =>
      simp only [place]
      split
      · exact (ih.cons x).trans (.swap o x rest)
      · exact .refl _

end Level

end Bourse
