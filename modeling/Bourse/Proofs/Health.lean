import Bourse.Proofs.Coverage
import Bourse.Proofs.Matching
import Bourse.Proofs.Replay

/-!
# A pass over covered orders cannot fail

* `Pass.Healthy`: the orders of a pass are covered, and its trades are numbered in turn, within the
  range of a word; `Filled.healthy`: every fill keeps this, since it completes an order;
* `matchResting_total`, `matchIncoming_total`: so no fill of a pass is refused, where no counter
  stops it.
-/

namespace Bourse

namespace Order

variable {o : Order} {orders more : List Order}

/-- How many orders can still be filled. -/
def openCount (orders : List Order) : Nat := orders.countP fun o => o.remaining != 0

theorem openCount_cons :
    openCount (o :: orders) = openCount orders + if o.remaining = 0 then 0 else 1 := by
  rw [openCount, List.countP_cons]
  by_cases filled : o.remaining = 0 <;> simp [filled, openCount]

theorem openCount_perm (perm : orders.Perm more) : openCount orders = openCount more :=
  perm.countP_eq _

theorem openCount_le : openCount orders ≤ orders.length := List.countP_le_length

end Order

namespace Pass

variable {v : Venue} {maker : Side} {buyer seller t : Order} {f : Fill} {p p' : Pass}
  {orders orders' : List Order} {seq bound : Nat} {b₀ : Book}

/-- The orders that take part in a pass are covered, and its trades are numbered in turn, with
numbers left for the orders that can still be filled. -/
structure Healthy (height seq bound : Nat) (p : Pass) (orders : List Order) : Prop where
  covered : ∀ o ∈ orders, o.Covered
  numbered : Trade.Numbered height seq p.crossing.trades
  next : p.nextFill = seq + p.crossing.trades.length
  room : p.nextFill + Order.openCount orders ≤ bound

/-- A fill keeps a pass healthy, since it completes an order for the number that it takes. -/
theorem Filled.healthy [Build] (filled : Filled v maker buyer seller f p p' orders orders')
    (word : bound ≤ Word.size) (healthy : Healthy v.height seq bound p orders) :
    Healthy v.height seq bound p' orders' := by
  obtain ⟨others, before, after⟩ := filled.orders
  have buyerCovered := healthy.covered buyer (before.mem_iff.2 (by simp))
  have sellerCovered := healthy.covered seller (before.mem_iff.2 (by simp))
  obtain ⟨buyerAfter, sellerAfter, completed⟩ := Fill.execute_covered filled.buys filled.sells
    filled.crosses buyerCovered sellerCovered filled.run
  obtain ⟨id, key⟩ := Fill.execute_key filled.run
  have room := healthy.room
  rw [Order.openCount_perm before, Order.openCount_cons, Order.openCount_cons,
    if_neg filled.buyerOpen, if_neg filled.sellerOpen] at room
  have next : p'.nextFill = p.nextFill + 1 := by
    rw [filled.nextFill]
    exact Word.wrapAdd_of_lt (by omega)
  refine ⟨?_, ?_, ?_, ?_⟩
  · intro o mem
    rw [after.mem_iff, List.mem_cons, List.mem_cons] at mem
    obtain rfl | rfl | mem := mem
    · exact buyerAfter
    · exact sellerAfter
    · exact healthy.covered o (before.mem_iff.2 (.tail _ (.tail _ mem)))
  · rw [filled.trades]
    rw [healthy.next] at id key
    exact healthy.numbered.append (Trade.numbered_single id key)
  · rw [next, healthy.next, filled.trades, List.length_append, List.length_singleton, Nat.add_assoc]
  · rw [next, Order.openCount_perm after, Order.openCount_cons, Order.openCount_cons]
    obtain done | done := completed
    · rw [if_pos done]
      split <;> omega
    · rw [if_pos done]
      split <;> omega

/-- Orders that meet in a healthy pass can be filled. -/
theorem Healthy.fills [Build] (healthy : Healthy v.height seq bound p orders)
    (meet : Meet buyer seller) (mem : buyer ∈ orders) (mem' : seller ∈ orders)
    (release : Build.isChecked = false) (n : Nat) (maker : Side) (fault : Fault) :
    Fill.execute v n maker (makerPrice maker buyer seller) buyer seller ≠ .error fault := by
  obtain ⟨f, run⟩ := Fill.execute_total meet.buys meet.sells meet.crosses (healthy.covered _ mem)
    (healthy.covered _ mem') release
  rw [run]
  exact nofun

theorem From.openCount_orders (start : From b₀ p) :
    Order.openCount p.orders = p.book.all.length := by
  rw [Order.openCount, orders, List.countP_append, List.countP_eq_length.2, List.countP_eq_zero.2]
  · rfl
  · exact fun o mem => by simp [(start.filled o mem).1]
  · exact fun o mem => by simpa using start.unfilled o mem

section Passes

variable (sound : b₀.Sound) (covered : ∀ o ∈ b₀.all, o.Covered)

include covered

theorem healthy_start (height seq : Nat) : Healthy height seq (seq + b₀.all.length) (start b₀ seq)
    (start b₀ seq).orders := by
  have orders : (start b₀ seq).orders = b₀.all := by simp [Pass.orders, start]
  rw [orders]
  exact ⟨covered, .nil _, rfl, Nat.add_le_add_left Order.openCount_le seq⟩

include sound

theorem resting_healthy [Build] (v : Venue) (room : seq + b₀.all.length ≤ Word.size) :
    Healthy v.height seq (seq + b₀.all.length) (resting v seq b₀) (resting v seq b₀).orders :=
  (resting_keeps (P := fun p => Healthy v.height seq _ p p.orders) sound
    (healthy_start covered v.height seq)
    fun _ _ _ _ _ _ _ healthy filled => filled.healthy room healthy).2

/-- A pass over covered orders cannot fail. -/
theorem matchResting_total [Build] (release : Build.isChecked = false) (v : Venue)
    (room : seq + b₀.all.length ≤ Word.size) :
    (matchResting v seq b₀).outcome = .ok (resting v seq b₀).finish := by
  cases ended : (matchResting v seq b₀).outcome with
  | ok c => rw [matchResting_outcome ended]
  | error fault =>
      obtain ⟨p, -, healthy, maker, bid, ask, meet, mem, mem', failed⟩ := matchResting_error
        (P := fun p => Healthy v.height seq _ p p.orders) sound (healthy_start covered v.height seq)
        (fun _ _ _ _ _ _ _ healthy filled => filled.healthy room healthy) ended
      exact absurd failed (healthy.fills meet mem mem' release _ maker fault)

section Incoming

variable (own : t.Covered) (pair : t.pair = b₀.pair)

omit sound in
include own in
theorem healthy_start_incoming (height seq : Nat) :
    Healthy height seq (seq + b₀.all.length + 1) (start b₀ seq) (t :: (start b₀ seq).orders) := by
  have alone := healthy_start covered height seq
  refine ⟨?_, .nil _, rfl, ?_⟩
  · intro o mem
    obtain rfl | mem := List.mem_cons.1 mem
    · exact own
    · exact alone.covered o mem
  · have room := alone.room
    rw [Order.openCount_cons]
    split <;> omega

include own pair

theorem incoming_healthy [Build] (v : Venue) (room : seq + b₀.all.length + 1 ≤ Word.size) :
    Healthy v.height seq (seq + b₀.all.length + 1) (incoming v seq b₀ t).1
      ((incoming v seq b₀ t).2 :: (incoming v seq b₀ t).1.orders) :=
  (incoming_keeps (Q := fun p t' => Healthy v.height seq _ p (t' :: p.orders)) sound pair
    (healthy_start_incoming covered own v.height seq)
    fun _ _ _ _ _ _ _ _ _ healthy filled _ => filled.healthy room healthy).2.2

/-- Nor can the pass of a covered order over covered orders. -/
theorem matchIncoming_total [Build] (release : Build.isChecked = false) (v : Venue)
    (room : seq + b₀.all.length + 1 ≤ Word.size) :
    (matchIncoming v seq b₀ t).1.outcome = .ok (incoming v seq b₀ t).1.finish := by
  cases ended : (matchIncoming v seq b₀ t).1.outcome with
  | ok c => rw [matchIncoming_outcome ended]
  | error fault =>
      obtain ⟨p, t₁, -, healthy, maker, buyer, seller, meet, mem, mem', failed⟩ :=
        matchIncoming_error (Q := fun p t' => Healthy v.height seq _ p (t' :: p.orders)) sound pair
          (healthy_start_incoming covered own v.height seq)
          (fun _ _ _ _ _ _ _ _ _ healthy filled _ => filled.healthy room healthy) ended
      exact absurd failed (healthy.fills meet mem mem' release _ maker fault)

end Incoming

end Passes

end Pass

end Bourse
