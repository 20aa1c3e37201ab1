import Bourse.Book.Basic
import Bourse.Proofs.Action
import Mathlib.Data.List.Nodup
import Mathlib.Data.List.Perm.Basic

/-!
# A side of the book is a list

While no level is empty (`Proper`), the best order of a side is the head of its list, `setBest`
replaces the head and `pop?` drops it; the levels may be forgotten, and books that list the same
orders are alike (`Alike`). A book built from orders holds exactly these (`ofOrders_ok`), each on
its own side (`Filed`) and unfilled (`Sound`).
-/

namespace Bourse

theorem Side.eq_opposite {side other : Side} (ne : other ≠ side) : other = side.opposite := by
  cases side <;> cases other <;> simp_all [opposite]

@[simp] theorem Side.opposite_opposite (side : Side) : side.opposite.opposite = side := by
  cases side <;> rfl

theorem Side.exists_iff (side : Side) {P : Side → Prop} :
    (∃ other, P other) ↔ P side ∨ P side.opposite := by
  constructor
  · rintro ⟨other, holds⟩
    by_cases same : other = side
    · exact .inl (same ▸ holds)
    · exact .inr (Side.eq_opposite same ▸ holds)
  · exact fun holds => holds.elim (⟨_, ·⟩) (⟨_, ·⟩)

theorem Side.forall_iff (side : Side) {P : Side → Prop} :
    (∀ other, P other) ↔ P side ∧ P side.opposite := by
  constructor
  · exact fun holds => ⟨holds _, holds _⟩
  · intro holds other
    by_cases same : other = side
    · exact same ▸ holds.1
    · exact Side.eq_opposite same ▸ holds.2

/-- Of orders with different ids, the search for an id finds the one that has it. -/
theorem Order.find?_eq_some {orders : List Order} {o : Order} {id : OrderId}
    (distinct : (orders.map (·.id)).Nodup) :
    (orders.find? fun x => x.id == id) = some o ↔ o ∈ orders ∧ o.id = id := by
  constructor
  · intro found
    exact ⟨List.mem_of_find?_eq_some found, by simpa using List.find?_some found⟩
  · rintro ⟨mem, rfl⟩
    obtain ⟨o', found⟩ := Option.isSome_iff_exists.1
      (List.find?_isSome.2 ⟨o, mem, by simp⟩ : (orders.find? fun x => x.id == o.id).isSome)
    have same : o'.id = o.id := by simpa using List.find?_some found
    rw [found, List.inj_on_of_nodup_map distinct (List.mem_of_find?_eq_some found) mem same]

namespace Book

variable {b b' : Book} {side other : Side} {o x : Order} {rest : List Order} {pair : PairId}

theorem find?_eq_some {id : OrderId} (distinct : (b.all.map (·.id)).Nodup) :
    b.find? id = some o ↔ o ∈ b.all ∧ o.id = id :=
  Order.find?_eq_some distinct

theorem all_perm (b : Book) (side : Side) :
    b.all.Perm (b.orders side ++ b.orders side.opposite) := by
  cases side with
  | buy => exact .refl _
  | sell => exact List.perm_append_comm

/-- No level is empty. -/
def Proper (b : Book) : Prop := ∀ side, ∀ l ∈ b.levels side, l.orders ≠ []

section Levels

variable {levels : List Level}

@[simp] theorem levels_setLevels : (b.setLevels side levels).levels side = levels := by
  cases side <;> rfl

@[simp] theorem levels_setLevels_opposite :
    (b.setLevels side levels).levels side.opposite = b.levels side.opposite := by
  cases side <;> rfl

@[simp] theorem pair_setLevels : (b.setLevels side levels).pair = b.pair := by cases side <;> rfl

theorem orders_setLevels :
    (b.setLevels side levels).orders side = levels.flatMap (·.orders) := by
  rw [orders, levels_setLevels]

theorem orders_setLevels_opposite :
    (b.setLevels side levels).orders side.opposite = b.orders side.opposite := by
  rw [orders, levels_setLevels_opposite, orders]

theorem Proper.setLevels (proper : b.Proper) (full : ∀ l ∈ levels, l.orders ≠ []) :
    (b.setLevels side levels).Proper := by
  intro other
  by_cases same : other = side
  · rw [same, levels_setLevels]
    exact full
  · rw [Side.eq_opposite same, levels_setLevels_opposite]
    exact proper _

end Levels

section Front

theorem Proper.best?_eq (proper : b.Proper) : b.best? side = (b.orders side).head? := by
  rw [best?, orders]
  have full := proper side
  cases found : b.levels side with
  | nil => rfl
  | cons l more =>
      obtain ⟨first, later, eq⟩ := List.exists_cons_of_ne_nil (full l (by simp [found]))
      simp [Level.front?, eq]

theorem Proper.best?_front (proper : b.Proper) (front : b.orders side = x :: rest) :
    b.best? side = some x := by
  rw [proper.best?_eq, front, List.head?_cons]

theorem Proper.front_of_best? (proper : b.Proper) (best : b.best? side = some x) :
    ∃ rest, b.orders side = x :: rest := by
  rw [proper.best?_eq] at best
  exact ⟨_, List.eq_cons_of_mem_head? best⟩

/-- The best level heads its side. -/
theorem Proper.levels_of_front (proper : b.Proper) (front : b.orders side = x :: rest) :
    ∃ l more later, b.levels side = l :: more ∧ l.orders = x :: later ∧
      rest = later ++ more.flatMap (·.orders) := by
  cases found : b.levels side with
  | nil => simp [orders, found] at front
  | cons l more =>
      obtain ⟨first, later, eq⟩ := List.exists_cons_of_ne_nil (proper side l (by simp [found]))
      rw [orders, found, List.flatMap_cons, eq, List.cons_append, List.cons.injEq] at front
      exact ⟨l, more, later, rfl, front.1 ▸ eq, front.2.symm⟩

theorem Proper.setBest (proper : b.Proper) (front : b.orders side = x :: rest) (o : Order) :
    (b.setBest side o).Proper ∧ (b.setBest side o).orders side = o :: rest ∧
      (b.setBest side o).orders side.opposite = b.orders side.opposite ∧
      (b.setBest side o).pair = b.pair := by
  obtain ⟨l, more, later, levels, eq, rfl⟩ := proper.levels_of_front front
  have set : b.setBest side o = b.setLevels side (l.setFront o :: more) := by
    rw [Book.setBest, levels]
  rw [set]
  refine ⟨proper.setLevels ?_, ?_, orders_setLevels_opposite, pair_setLevels⟩
  · intro k mem
    obtain rfl | mem := List.mem_cons.1 mem
    · simp [Level.setFront]
    · exact proper side k (by simp [levels, mem])
  · simp [orders_setLevels, Level.setFront, eq]

theorem Proper.pop? (proper : b.Proper) (front : b.orders side = x :: rest) :
    ∃ b', b.pop? side = some (x, b') ∧ b'.Proper ∧ b'.orders side = rest ∧
      b'.orders side.opposite = b.orders side.opposite ∧ b'.pair = b.pair := by
  obtain ⟨l, more, later, levels, eq, rfl⟩ := proper.levels_of_front front
  have popped : b.pop? side = some (x, b.setLevels side
      (if later.isEmpty then more else { l with orders := later } :: more)) := by
    simp only [Book.pop?, levels, Level.pop?, eq]
    rfl
  refine ⟨_, popped, proper.setLevels ?_, ?_, orders_setLevels_opposite, pair_setLevels⟩
  · intro k mem
    have old : k ∈ more → k.orders ≠ [] := fun mem => proper side k (by simp [levels, mem])
    split at mem
    · exact old mem
    · next full =>
        obtain rfl | mem := List.mem_cons.1 mem
        · simpa using full
        · exact old mem
  · rw [orders_setLevels]
    split
    · next bare => simp_all
    · simp

theorem Proper.pop?_of_empty (proper : b.Proper) (bare : b.orders side = []) :
    b.pop? side = none := by
  cases found : b.levels side with
  | nil => rw [Book.pop?, found]
  | cons l more =>
      have full := proper side l (by simp [found])
      simp [orders, found, full] at bare

/-- Taking out the best order again and again takes the first orders of the side. -/
theorem Proper.popMany (proper : b.Proper) (side : Side) (n : Nat) :
    (popMany side n b).1 = (b.orders side).take n ∧ (popMany side n b).2.Proper ∧
      (popMany side n b).2.orders side = (b.orders side).drop n ∧
      (popMany side n b).2.orders side.opposite = b.orders side.opposite := by
  induction n generalizing b with
  | zero => exact ⟨rfl, proper, rfl, rfl⟩
  | succ n ih =>
      cases front : b.orders side with
      | nil =>
          rw [Book.popMany, proper.pop?_of_empty front]
          exact ⟨rfl, proper, front, rfl⟩
      | cons x rest =>
          obtain ⟨b', popped, proper', own, opposite, -⟩ := proper.pop? front
          obtain ⟨taken, left, remain, untouched⟩ := ih proper'
          rw [Book.popMany, popped]
          refine ⟨?_, left, ?_, untouched.trans opposite⟩
          · rw [List.take_succ_cons, ← own, ← taken]
          · rw [List.drop_succ_cons, ← own, ← remain]

theorem length_orders_le : (b.orders side).length ≤ b.size := by
  rw [size, (b.all_perm side).length_eq, List.length_append]
  omega

/-- Taking out a whole side leaves the other one. -/
theorem Proper.drain (proper : b.Proper) :
    (b.drain side).1 = b.orders side ∧ (b.drain side).2.orders side = [] ∧
      (b.drain side).2.orders side.opposite = b.orders side.opposite := by
  obtain ⟨taken, -, left, opposite⟩ := proper.popMany side b.size
  refine ⟨taken.trans (List.take_of_length_le length_orders_le), ?_, opposite⟩
  exact left.trans (List.drop_of_length_le length_orders_le)

end Front

/-- The books list the same orders on each side, whatever the prices of their levels are written
as. -/
structure Alike (b b' : Book) : Prop where
  proper : b.Proper
  proper' : b'.Proper
  orders : ∀ side, b'.orders side = b.orders side

section Alike

variable {b b' : Book} {side : Side} {x : Order} {rest : List Order} (alike : b.Alike b')

include alike

theorem Alike.all : b'.all = b.all := by
  rw [Book.all, Book.all, alike.orders, alike.orders]

theorem Alike.size : b'.size = b.size := congrArg List.length alike.all

theorem Alike.find? (id : OrderId) : b'.find? id = b.find? id := by
  rw [Book.find?, alike.all, Book.find?]

theorem Alike.drain (side : Side) : (b'.drain side).1 = (b.drain side).1 := by
  rw [alike.proper'.drain.1, alike.proper.drain.1, alike.orders]

theorem Alike.setBest (front : b.orders side = x :: rest) (o : Order) :
    (b.setBest side o).Alike (b'.setBest side o) := by
  obtain ⟨set, own, opposite, -⟩ := alike.proper.setBest front o
  obtain ⟨set', own', opposite', -⟩ := alike.proper'.setBest ((alike.orders side).trans front) o
  refine ⟨set, set', (Side.forall_iff side).2 ⟨own'.trans own.symm, ?_⟩⟩
  rw [opposite', opposite, alike.orders]

theorem Alike.pop? (front : b.orders side = x :: rest) :
    ∃ c c', b.pop? side = some (x, c) ∧ b'.pop? side = some (x, c') ∧ c.Alike c' := by
  obtain ⟨c, popped, left, own, opposite, -⟩ := alike.proper.pop? front
  obtain ⟨c', popped', left', own', opposite', -⟩ :=
    alike.proper'.pop? ((alike.orders side).trans front)
  refine ⟨c, c', popped, popped', left, left',
    (Side.forall_iff side).2 ⟨own'.trans own.symm, ?_⟩⟩
  rw [opposite', opposite, alike.orders]

end Alike

/-- No level is empty, and each order stands on its own side, under an id that no other one has. -/
structure Filed (b : Book) : Prop where
  proper : b.Proper
  side : ∀ side, ∀ o ∈ b.orders side, o.side = side
  ids : (b.all.map (·.id)).Nodup

/-- What holds of the books that matching works on. -/
structure Sound (b : Book) : Prop where
  proper : b.Proper
  side : ∀ side, ∀ o ∈ b.orders side, o.side = side
  pair : ∀ o ∈ b.all, o.pair = b.pair
  unfilled : ∀ o ∈ b.all, o.remaining ≠ 0
  ids : (b.all.map (·.id)).Nodup

theorem Sound.filed (sound : b.Sound) : b.Filed := ⟨sound.proper, sound.side, sound.ids⟩

section Front

variable (filed : b.Filed) (front : b.orders side = x :: rest)

include filed front

/-- What stands beside the best order stays if a new state of it replaces it. -/
theorem Filed.setBest (own : o.side = x.side) (id : o.id = x.id) : (b.setBest side o).Filed ∧
    ∃ others, b.all.Perm (x :: others) ∧ (b.setBest side o).all.Perm (o :: others) := by
  obtain ⟨set, mine, opposite, -⟩ := filed.proper.setBest front o
  have before := b.all_perm side
  have after := (b.setBest side o).all_perm side
  rw [front] at before
  rw [mine, opposite] at after
  have ids := (before.map (·.id)).nodup_iff.1 filed.ids
  refine ⟨⟨set, (Side.forall_iff side).2 ⟨?_, ?_⟩, ?_⟩, _, before, after⟩
  · have sides := filed.side side
    rw [front, List.forall_mem_cons] at sides
    rw [mine]
    exact List.forall_mem_cons.2 ⟨own.trans sides.1, sides.2⟩
  · rw [opposite]
    exact filed.side side.opposite
  · rw [(after.map (·.id)).nodup_iff, List.cons_append, List.map_cons, id]
    exact ids

/-- And if the best order leaves. -/
theorem Filed.pop? : ∃ b', b.pop? side = some (x, b') ∧ b'.Filed ∧ b.all.Perm (x :: b'.all) := by
  obtain ⟨b', popped, proper, mine, opposite, -⟩ := filed.proper.pop? front
  have before := b.all_perm side
  have after := b'.all_perm side
  rw [front, List.cons_append, ← mine, ← opposite] at before
  have taken : b.all.Perm (x :: b'.all) := before.trans (after.symm.cons x)
  have ids := (taken.map (·.id)).nodup_iff.1 filed.ids
  refine ⟨b', popped, ⟨proper, (Side.forall_iff side).2 ⟨?_, ?_⟩, ?_⟩, taken⟩
  · have sides := filed.side side
    rw [front, List.forall_mem_cons] at sides
    rw [mine]
    exact sides.2
  · rw [opposite]
    exact filed.side side.opposite
  · rw [List.map_cons, List.nodup_cons] at ids
    exact ids.2

end Front

section Building

theorem place_perm (o : Order) (levels : List Level) :
    ((place o levels).flatMap (·.orders)).Perm (o :: levels.flatMap (·.orders)) := by
  induction levels with
  | nil => simp [place]
  | cons l more ih =>
      simp only [place]
      split
      · simp
      · simpa [Level.insert] using (Level.place_perm o l.orders).append_right _
      · simpa using (ih.append_left l.orders).trans List.perm_middle

theorem place_full (o : Order) {levels : List Level} (full : ∀ l ∈ levels, l.orders ≠ []) :
    ∀ l ∈ place o levels, l.orders ≠ [] := by
  induction levels with
  | nil => simp [place]
  | cons l more ih =>
      have here := full l (by simp)
      have there := fun k mem => full k (List.mem_cons_of_mem l mem)
      simp only [place]
      split
      · simpa [here] using there
      · have longer : (l.insert o).orders ≠ [] := by
          apply List.ne_nil_of_length_pos
          rw [Level.insert, (Level.place_perm o l.orders).length_eq]
          exact Nat.succ_pos _
        simpa [longer] using there
      · simpa [here] using ih there

theorem insert_ok : b.insert o = .ok b' ↔ o.pair = b.pair ∧ o.remaining ≠ 0 ∧
    b.contains o.id = false ∧ b' = b.setLevels o.side (place o (b.levels o.side)) := by
  simp only [insert, Order.isFilled, beq_iff_eq]
  by_cases same : o.pair = b.pair <;> by_cases filled : o.remaining = 0 <;>
    by_cases known : b.contains o.id <;> simp [same, filled, known, eq_comm]

theorem orders_insert (run : b.insert o = .ok b') :
    (b'.orders o.side).Perm (o :: b.orders o.side) ∧
      b'.orders o.side.opposite = b.orders o.side.opposite := by
  obtain ⟨-, -, -, rfl⟩ := insert_ok.1 run
  exact ⟨orders_setLevels ▸ place_perm o _, orders_setLevels_opposite⟩

theorem all_insert (run : b.insert o = .ok b') : b'.all.Perm (o :: b.all) := by
  obtain ⟨own, other⟩ := orders_insert run
  rw [all, all]
  cases side : o.side with
  | buy =>
      rw [side] at own other
      rw [show b'.orders .sell = b.orders .sell from other]
      exact own.append_right _
  | sell =>
      rw [side] at own other
      rw [show b'.orders .buy = b.orders .buy from other]
      exact (own.append_left _).trans List.perm_middle

theorem contains_iff {id : OrderId} : b.contains id = true ↔ id ∈ b.all.map (·.id) := by
  simp [contains, List.any_eq_true]

theorem Filed.insert (filed : b.Filed) (run : b.insert o = .ok b') : b'.Filed := by
  have all := all_insert run
  obtain ⟨own, other⟩ := orders_insert run
  obtain ⟨-, -, fresh, rfl⟩ := insert_ok.1 run
  refine ⟨filed.proper.setLevels (place_full o (filed.proper o.side)), fun side y mem => ?_, ?_⟩
  · by_cases same : side = o.side
    · obtain rfl | mem := List.mem_cons.1 (own.mem_iff.1 (same ▸ mem))
      · exact same.symm
      · exact same ▸ filed.side o.side y mem
    · rw [Side.eq_opposite same, other] at mem
      exact Side.eq_opposite same ▸ filed.side _ y mem
  · rw [(all.map _).nodup_iff, List.map_cons, List.nodup_cons]
    exact ⟨fun mem => by simp [contains_iff.2 mem] at fresh, filed.ids⟩

theorem Sound.insert (sound : b.Sound) (run : b.insert o = .ok b') : b'.Sound := by
  obtain ⟨proper, side, ids⟩ := sound.filed.insert run
  have all := all_insert run
  obtain ⟨pair, open', -, rfl⟩ := insert_ok.1 run
  refine ⟨proper, side, fun y mem => ?_, fun y mem => ?_, ids⟩
  · rw [pair_setLevels]
    obtain rfl | mem := List.mem_cons.1 (all.mem_iff.1 mem)
    · exact pair
    · exact sound.pair y mem
  · obtain rfl | mem := List.mem_cons.1 (all.mem_iff.1 mem)
    · exact open'
    · exact sound.unfilled y mem

theorem sound_empty (pair : PairId) : (empty pair).Sound where
  proper side := by cases side <;> simp [levels, empty]
  side side := by cases side <;> simp [orders, levels, empty]
  pair := by simp [all, orders, levels, empty]
  unfilled := by simp [all, orders, levels, empty]
  ids := by simp [all, orders, levels, empty]

/-- The book of some orders holds them and nothing else. -/
theorem ofOrders_ok {orders : List Order} (run : ofOrders pair orders = .ok b) :
    b.Sound ∧ b.pair = pair ∧ b.all.Perm orders := by
  suffices general : ∀ (l : List Order) (start : Book), start.Sound →
      l.foldlM insert start = .ok b → b.Sound ∧ b.pair = start.pair ∧ b.all.Perm (l ++ start.all) by
    simpa [all, Book.orders, levels, empty] using general orders (empty pair) (sound_empty pair) run
  intro l
  induction l with
  | nil =>
      intro start sound run
      rw [List.foldlM_nil, Check.pure_ok] at run
      exact run ▸ ⟨sound, rfl, by simp⟩
  | cons o more ih =>
      intro start sound run
      rw [List.foldlM_cons, Check.bind_ok] at run
      obtain ⟨next, first, run⟩ := run
      obtain ⟨sound', pair, all⟩ := ih next (sound.insert first) run
      have same : next.pair = start.pair := by
        obtain ⟨-, -, -, rfl⟩ := insert_ok.1 first
        exact pair_setLevels
      refine ⟨sound', pair.trans same, all.trans ?_⟩
      exact ((all_insert first).append_left more).trans List.perm_middle

/-- Open orders of one market under different ids make a book. -/
theorem ofOrders_total {orders : List Order} (own : ∀ o ∈ orders, o.pair = pair)
    (unfilled : ∀ o ∈ orders, o.remaining ≠ 0) (ids : (orders.map (·.id)).Nodup) :
    ∃ b, ofOrders pair orders = .ok b := by
  suffices general : ∀ (l : List Order) (start : Book), start.pair = pair →
      (∀ o ∈ l, o.pair = pair) → (∀ o ∈ l, o.remaining ≠ 0) →
      ((l ++ start.all).map (·.id)).Nodup → ∃ b, l.foldlM insert start = .ok b by
    apply general orders (empty pair) rfl own unfilled
    simpa [all, Book.orders, levels, empty] using ids
  intro l
  induction l with
  | nil => exact fun start _ _ _ _ => ⟨start, rfl⟩
  | cons o more ih =>
      intro start pair own unfilled ids
      have fresh : start.contains o.id = false := by
        rw [List.cons_append, List.map_cons, List.nodup_cons, List.map_append,
          List.mem_append] at ids
        cases known : start.contains o.id with
        | false => rfl
        | true => exact absurd (.inr (contains_iff.1 known)) ids.1
      have first := insert_ok.2 ⟨(own o List.mem_cons_self).trans pair.symm,
        unfilled o List.mem_cons_self, fresh, rfl⟩
      have all := (all_insert first).append_left more
      have swapped := (all.trans List.perm_middle).map (·.id)
      obtain ⟨b, rest⟩ := ih _ (pair_setLevels.trans pair) (fun o mem => own o (.tail _ mem))
        (fun o mem => unfilled o (.tail _ mem)) (swapped.nodup_iff.2 ids)
      exact ⟨b, List.foldlM_cons.trans (Check.bind_ok.2 ⟨_, first, rest⟩)⟩

end Building

end Book

end Bourse
