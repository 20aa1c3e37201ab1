import Bourse.Proofs.Pass
import Mathlib.Algebra.Order.Field.Rat
import Mathlib.Tactic.Positivity

/-!
# A side of the book is sorted by priority

* `Decimal.value`: prices are compared as rational numbers, whatever their scales;
* `Order.Before`: the better price first, then the earlier admission; two orders of a side with
  different ids always stand in this order;
* `Book.Sorted`: the levels of a book go from the better price to the worse, each has its orders by
  time; a booked order finds its place (`Sorted.insert`), so every book that is built from orders is
  sorted (`ofOrders_sorted`) and does not depend on the order in which they came
  (`orders_eq_of_perm`, `alike_of_perm`).
-/

namespace Bourse

namespace Decimal

/-- The number. -/
def value (x : Decimal) : ℚ := x.numerator / 10 ^ x.scale

variable {x y : Decimal}

theorem value_lt_iff : x.value < y.value ↔
    x.numerator * 10 ^ y.scale < y.numerator * 10 ^ x.scale := by
  rw [value, value, div_lt_div_iff₀ (by positivity) (by positivity)]
  norm_cast

theorem le_iff_value : x ≤ y ↔ x.value ≤ y.value := by
  rw [← not_lt, value_lt_iff, not_lt]
  exact Iff.rfl

theorem cmp_eq_compare (x y : Decimal) : x.cmp y = compare x.value y.value := by
  rw [cmp]
  rcases lt_trichotomy x.value y.value with less | same | more
  · rw [compare_lt_iff_lt.2 less, compare_lt_iff_lt]
    exact value_lt_iff.1 less
  · rw [compare_eq_iff_eq.2 same, compare_eq_iff_eq]
    have below := mt value_lt_iff.2 same.not_lt
    have above := mt value_lt_iff.2 same.not_gt
    omega
  · rw [compare_gt_iff_gt.2 more, compare_gt_iff_gt]
    exact value_lt_iff.1 more

end Decimal

/-- A number that is the lower the better the price is for the other side. -/
def Side.cost : Side → Decimal → ℚ
  | .buy, price => -price.value
  | .sell, price => price.value

theorem Book.rank_eq_compare (side : Side) (p q : Decimal) :
    rank side p q = compare (side.cost p) (side.cost q) := by
  cases side with
  | sell => exact Decimal.cmp_eq_compare p q
  | buy =>
      rw [rank, Decimal.cmp_eq_compare, Side.cost, Side.cost]
      rcases lt_trichotomy p.value q.value with less | same | more
      · rw [compare_gt_iff_gt.2 less, compare_gt_iff_gt.2 (neg_lt_neg less)]
      · rw [same]
        simp
      · rw [compare_lt_iff_lt.2 more, compare_lt_iff_lt.2 (neg_lt_neg more)]

namespace Order

variable {o x y z : Order} {side : Side}

section Time

instance : Std.TransCmp timeCmp :=
  inferInstanceAs (Std.TransCmp
    (compareLex (compareOn height) (compareLex (compareOn sequence) (compareOn id))))

theorem isEarlier_iff : x.isEarlier y = true ↔ x.timeCmp y = .lt := beq_iff_eq

theorem isEarlier_trans (first : x.isEarlier y = true) (second : y.isEarlier z = true) :
    x.isEarlier z = true :=
  isEarlier_iff.2 (Std.TransCmp.lt_trans (isEarlier_iff.1 first) (isEarlier_iff.1 second))

theorem not_isEarlier_of_isEarlier (earlier : x.isEarlier y = true) : y.isEarlier x = false := by
  rw [isEarlier_iff] at earlier
  rw [isEarlier, Std.OrientedCmp.gt_iff_lt.2 earlier]
  rfl

/-- Orders with different ids are never of one time. -/
theorem isEarlier_of_not (ne : x.id ≠ y.id) (later : x.isEarlier y = false) :
    y.isEarlier x = true := by
  rw [isEarlier_iff, ← Std.OrientedCmp.gt_iff_lt]
  cases time : x.timeCmp y with
  | lt => simp [isEarlier, time] at later
  | eq =>
      simp only [timeCmp, Ordering.then_eq_eq] at time
      exact absurd (Std.LawfulEqOrd.eq_of_compare time.2.2) ne
  | gt => rfl

theorem timeCmp_of_terms {x' y' : Order} (same : x'.terms = x.terms) (same' : y'.terms = y.terms) :
    x'.timeCmp y' = x.timeCmp y :=
  (congrArg₂ timeCmp same same' :)

theorem isEarlier_of_terms {x' y' : Order} (same : x'.terms = x.terms)
    (same' : y'.terms = y.terms) : x'.isEarlier y' = x.isEarlier y := by
  rw [isEarlier, timeCmp_of_terms same same', isEarlier]

end Time

def cost (o : Order) : ℚ := o.side.cost o.effectivePrice

/-- `x` is filled before `y`: its price is better, or equal and `x` was admitted earlier. -/
def Before (x y : Order) : Prop := x.cost < y.cost ∨ x.cost = y.cost ∧ x.isEarlier y = true

theorem cost_of_terms (same : x.terms = y.terms) : x.cost = y.cost :=
  (congrArg cost same :)

theorem before_of_terms {x' y' : Order} (same : x'.terms = x.terms) (same' : y'.terms = y.terms) :
    x'.Before y' ↔ x.Before y := by
  rw [Before, cost_of_terms same, cost_of_terms same', isEarlier_of_terms same same', Before]

theorem Before.cost_le (before : x.Before y) : x.cost ≤ y.cost :=
  before.elim le_of_lt fun ⟨same, _⟩ => le_of_eq same

theorem Before.asymm (before : x.Before y) : ¬y.Before x := by
  rintro (less | ⟨same, earlier⟩)
  · exact absurd less before.cost_le.not_gt
  · rcases before with less | ⟨-, earlier'⟩
    · exact absurd same less.ne'
    · rw [not_isEarlier_of_isEarlier earlier'] at earlier
      exact absurd earlier Bool.false_ne_true

/-- Crossing is a matter of the costs alone. -/
theorem crosses_iff_cost (buys : x.side = .buy) (sells : y.side = .sell) :
    x.crosses y = true ↔ x.cost + y.cost ≤ 0 := by
  have cost : x.cost = -x.effectivePrice.value := by rw [Order.cost, buys, Side.cost]
  have cost' : y.cost = y.effectivePrice.value := by rw [Order.cost, sells, Side.cost]
  rw [cost, cost', neg_add_le_iff_le_add, add_zero]
  simp [crosses_iff, buys, sells, Decimal.le_iff_value]

end Order

namespace Level

variable {o : Order} {orders : List Order}

/-- An order finds its place in time. -/
theorem place_times (fresh : ∀ x ∈ orders, x.id ≠ o.id)
    (times : orders.Pairwise fun x y => x.isEarlier y = true) :
    (place o orders).Pairwise fun x y => x.isEarlier y = true := by
  induction orders with
  | nil => simp [place]
  | cons x rest ih =>
      have later := List.pairwise_cons.1 times
      rw [place]
      split
      · next earlier =>
          have behind := ih (fun y mem => fresh y (.tail x mem)) later.2
          refine List.pairwise_cons.2 ⟨fun y mem => ?_, behind⟩
          rcases List.mem_cons.1 ((place_perm o rest).mem_iff.1 mem) with rfl | mem
          · exact earlier
          · exact later.1 y mem
      · next late =>
          have first : o.isEarlier x = true :=
            Order.isEarlier_of_not (fresh x List.mem_cons_self) (by simpa using late)
          refine List.pairwise_cons.2 ⟨fun y mem => ?_, times⟩
          rcases List.mem_cons.1 mem with rfl | mem
          · exact first
          · exact Order.isEarlier_trans first (later.1 y mem)

end Level

namespace Book

variable {b b' : Book} {side : Side} {o x : Order} {levels : List Level} {pair : PairId}

/-- Levels from the better price to the worse, each with its orders of this price by time. -/
structure SortedLevels (side : Side) (levels : List Level) : Prop where
  prices : levels.Pairwise fun l l' => side.cost l.price < side.cost l'.price
  price : ∀ l ∈ levels, ∀ o ∈ l.orders, side.cost o.effectivePrice = side.cost l.price
  times : ∀ l ∈ levels, l.orders.Pairwise fun x y => x.isEarlier y = true

/-- A level stands before worse ones. -/
theorem sortedLevels_cons {l : Level} : SortedLevels side (l :: levels) ↔
    (∀ k ∈ levels, side.cost l.price < side.cost k.price) ∧
    (∀ o ∈ l.orders, side.cost o.effectivePrice = side.cost l.price) ∧
    l.orders.Pairwise (fun x y => x.isEarlier y = true) ∧ SortedLevels side levels := by
  constructor
  · rintro ⟨prices, price, times⟩
    obtain ⟨worse, prices⟩ := List.pairwise_cons.1 prices
    rw [List.forall_mem_cons] at price times
    exact ⟨worse, price.1, times.1, prices, price.2, times.2⟩
  · rintro ⟨worse, price, times, sorted⟩
    constructor
    · exact List.pairwise_cons.2 ⟨worse, sorted.prices⟩
    · exact List.forall_mem_cons.2 ⟨price, sorted.price⟩
    · exact List.forall_mem_cons.2 ⟨times, sorted.times⟩

/-- Both sides of the book are sorted. -/
def Sorted (b : Book) : Prop := ∀ side, SortedLevels side (b.levels side)

theorem sorted_empty (pair : PairId) : (empty pair).Sorted := by
  intro side
  cases side <;> exact ⟨.nil, nofun, nofun⟩

section Placing

theorem price_of_mem_place {l : Level} (mem : l ∈ place o levels) :
    l.price = o.effectivePrice ∨ ∃ k ∈ levels, l.price = k.price := by
  induction levels with
  | nil =>
      rw [place, List.mem_singleton] at mem
      exact .inl (mem ▸ rfl)
  | cons k more ih =>
      rw [place] at mem
      split at mem
      · rcases List.mem_cons.1 mem with rfl | mem
        · exact .inl rfl
        · exact .inr ⟨l, mem, rfl⟩
      · rcases List.mem_cons.1 mem with rfl | mem
        · exact .inr ⟨k, List.mem_cons_self, rfl⟩
        · exact .inr ⟨l, .tail k mem, rfl⟩
      · rcases List.mem_cons.1 mem with rfl | mem
        · exact .inr ⟨l, List.mem_cons_self, rfl⟩
        · obtain same | ⟨k', mem, same⟩ := ih mem
          · exact .inl same
          · exact .inr ⟨k', .tail k mem, same⟩

/-- An order finds its place among the levels of its side. -/
theorem SortedLevels.place (sorted : SortedLevels o.side levels)
    (fresh : ∀ l ∈ levels, ∀ x ∈ l.orders, x.id ≠ o.id) :
    SortedLevels o.side (place o levels) := by
  induction levels with
  | nil => exact sortedLevels_cons.2 ⟨by simp, by simp, List.pairwise_singleton _ _, sorted⟩
  | cons l more ih =>
      obtain ⟨worse, price, times, behind⟩ := sortedLevels_cons.1 sorted
      rw [Book.place, rank_eq_compare]
      split
      · next better =>
          have better := compare_lt_iff_lt.1 better
          refine sortedLevels_cons.2 ⟨?_, by simp, List.pairwise_singleton _ _, sorted⟩
          exact List.forall_mem_cons.2 ⟨better, fun k mem => better.trans (worse k mem)⟩
      · next same =>
          have same := compare_eq_iff_eq.1 same
          refine sortedLevels_cons.2 ⟨worse, fun x mem => ?_,
            Level.place_times (fresh l List.mem_cons_self) times, behind⟩
          rcases List.mem_cons.1 ((Level.place_perm o l.orders).mem_iff.1 mem) with rfl | mem
          · exact same
          · exact price x mem
      · next worse' =>
          have later := compare_gt_iff_gt.1 worse'
          refine sortedLevels_cons.2 ⟨fun k mem => ?_, price, times,
            ih behind fun k mem => fresh k (.tail l mem)⟩
          rcases price_of_mem_place mem with same | ⟨k', mem, same⟩
          · exact same ▸ later
          · exact same ▸ worse k' mem

theorem Sorted.setLevels (sorted : b.Sorted) (own : SortedLevels side levels) :
    (b.setLevels side levels).Sorted := by
  intro other
  by_cases same : other = side
  · rw [same, levels_setLevels]
    exact own
  · rw [Side.eq_opposite same, levels_setLevels_opposite]
    exact sorted _

theorem mem_all_of_level {l : Level} (mem : l ∈ b.levels side) (inLevel : x ∈ l.orders) :
    x ∈ b.all := by
  rw [(b.all_perm side).mem_iff]
  exact List.mem_append_left _ (List.mem_flatMap.2 ⟨l, mem, inLevel⟩)

theorem Sorted.insert (sorted : b.Sorted) (run : b.insert o = .ok b') : b'.Sorted := by
  obtain ⟨-, -, fresh, rfl⟩ := insert_ok.1 run
  refine sorted.setLevels ((sorted o.side).place fun l mem x inLevel same => ?_)
  have known : x.id ∈ b.all.map (·.id) := List.mem_map_of_mem (mem_all_of_level mem inLevel)
  rw [same, ← contains_iff, fresh] at known
  exact absurd known Bool.false_ne_true

theorem ofOrders_sorted {orders : List Order} (run : ofOrders pair orders = .ok b) : b.Sorted :=
  Check.foldlM_keeps (fun _ _ _ _ => Sorted.insert) (sorted_empty pair) run

end Placing

section Sides

/-- On a side of a sorted book every order stands before those behind it. -/
theorem Sorted.before (sorted : b.Sorted) (filed : b.Filed) (side : Side) :
    (b.orders side).Pairwise Order.Before := by
  have cost : ∀ l ∈ b.levels side, ∀ o ∈ l.orders, o.cost = side.cost l.price := by
    intro l mem o inLevel
    have own : o.side = side := filed.side side o (List.mem_flatMap.2 ⟨l, mem, inLevel⟩)
    rw [Order.cost, own]
    exact (sorted side).price l mem o inLevel
  refine List.pairwise_flatMap.2 ⟨fun l mem => ?_, ?_⟩
  · refine ((sorted side).times l mem).imp_of_mem fun {x y} first second earlier => ?_
    exact .inr ⟨(cost l mem x first).trans (cost l mem y second).symm, earlier⟩
  · refine (sorted side).prices.imp_of_mem fun {l l'} mem mem' less x first y second => .inl ?_
    rwa [cost l mem x first, cost l' mem' y second]

/-- Two sorted lists of the same orders are equal. -/
theorem eq_of_before {orders more : List Order} (perm : orders.Perm more)
    (sorted : orders.Pairwise Order.Before) (sorted' : more.Pairwise Order.Before) :
    orders = more :=
  perm.eq_of_pairwise (fun _ _ _ _ first second => absurd second first.asymm) sorted sorted'

theorem orders_eq_filter (sound : b.Sound) (side : Side) :
    b.orders side = b.all.filter fun o => o.side = side := by
  have buys : ∀ o ∈ b.orders .buy, o.side = .buy := sound.side .buy
  have sells : ∀ o ∈ b.orders .sell, o.side = .sell := sound.side .sell
  rw [all, List.filter_append]
  cases side with
  | buy =>
      have all : (b.orders .buy).filter (fun o => decide (o.side = .buy)) = b.orders .buy :=
        List.filter_eq_self.2 fun o mem => by simp [buys o mem]
      have none : (b.orders .sell).filter (fun o => decide (o.side = .buy)) = [] :=
        List.filter_eq_nil_iff.2 fun o mem => by simp [sells o mem]
      rw [all, none, List.append_nil]
  | sell =>
      have none : (b.orders .buy).filter (fun o => decide (o.side = .sell)) = [] :=
        List.filter_eq_nil_iff.2 fun o mem => by simp [buys o mem]
      have all : (b.orders .sell).filter (fun o => decide (o.side = .sell)) = b.orders .sell :=
        List.filter_eq_self.2 fun o mem => by simp [sells o mem]
      rw [all, none, List.nil_append]

/-- The sides of a sorted book depend on nothing but what it holds. -/
theorem orders_eq_of_perm (sound : b.Sound) (sorted : b.Sorted) (sound' : b'.Sound)
    (sorted' : b'.Sorted) (perm : b.all.Perm b'.all) (side : Side) :
    b.orders side = b'.orders side := by
  apply eq_of_before _ (sorted.before sound.filed side) (sorted'.before sound'.filed side)
  rw [orders_eq_filter sound, orders_eq_filter sound']
  exact perm.filter _

theorem alike_of_perm (sound : b.Sound) (sorted : b.Sorted) (sound' : b'.Sound)
    (sorted' : b'.Sorted) (perm : b.all.Perm b'.all) : b.Alike b' :=
  ⟨sound.proper, sound'.proper,
    fun side => (orders_eq_of_perm sound sorted sound' sorted' perm side).symm⟩

end Sides

end Book

end Bourse
