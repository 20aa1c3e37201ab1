import Bourse.Book.Indexed
import Bourse.Proofs.Leftover
import Bourse.Proofs.Maps

/-!
# The book and its index hold the same orders

* `IndexedBook.Coherent`: the sides are filed and sorted, and the index has the entry of every order
  and no other; the empty book is coherent, and it stays so whatever is booked, taken out or filled
  (`run_coherent`);
* `Coherent.get?_eq`, `Coherent.contains_eq`, `Coherent.size_eq`: so what the index answers is what
  a search through the book answers, and the index can be rebuilt from the book
  (`ofBook_of_coherent`, `ofOrders_eq`);
* `Represents`, `Changes`, `run_represents`: what every book that is worked on from outside shows
  of its orders, and how it changes; it takes an order exactly if it admits it (`Admits`).
-/

namespace Bourse

theorem Side.cost_inj {side : Side} {p q : Decimal} :
    side.cost p = side.cost q ↔ p.value = q.value := by
  cases side <;> simp [cost]

/-- What an index has of an order. -/
def Order.entry (o : Order) : OrderId × Side × Decimal := (o.id, o.side, o.effectivePrice)

theorem Order.entry_of_terms {o o' : Order} (same : o'.terms = o.terms) : o'.entry = o.entry :=
  (congrArg entry same :)

namespace Book

variable {b : Book} {side : Side} {o : Order} {l : Level}

/-- The price of an order leads to its level. -/
theorem Sorted.find?_level (sorted : b.Sorted) (mem : l ∈ b.levels side) (inLevel : o ∈ l.orders) :
    (b.levels side).find? (fun k => rank side o.effectivePrice k.price == .eq) = some l := by
  have price := (sorted side).price l mem o inLevel
  obtain ⟨k, found⟩ := Option.isSome_iff_exists.1 (List.find?_isSome.2
    ⟨l, mem, by simp [rank_eq_compare, price]⟩ :
      ((b.levels side).find? fun k => rank side o.effectivePrice k.price == .eq).isSome)
  have same : side.cost l.price = side.cost k.price := by
    have same := List.find?_some found
    rw [rank_eq_compare, beq_iff_eq, compare_eq_iff_eq, price] at same
    exact same
  have distinct : ((b.levels side).map fun l => side.cost l.price).Nodup :=
    List.pairwise_map.2 ((sorted side).prices.imp fun less => less.ne)
  rw [found, List.inj_on_of_nodup_map distinct mem (List.mem_of_find?_eq_some found) same]

/-- And its id to the order. -/
theorem Filed.find?_in_level (filed : b.Filed) (mem : l ∈ b.levels side) (inLevel : o ∈ l.orders) :
    l.find? o.id = some o := by
  have part : l.orders.Sublist (b.orders side) := by
    rw [orders, List.flatMap_def]
    exact List.sublist_flatten_of_mem (List.mem_map_of_mem mem)
  have ids := ((b.all_perm side).map (·.id)).nodup_iff.1 filed.ids
  rw [List.map_append, List.nodup_append] at ids
  exact (Order.find?_eq_some (ids.1.sublist (part.map _))).2 ⟨inLevel, rfl⟩

/-- The best price of a side is one of its orders' and no order has a better one. -/
theorem Sorted.bestPrice? (sorted : b.Sorted) (filed : b.Filed) {price : Decimal}
    (best : b.bestPrice? side = some price) :
    (∃ o ∈ b.orders side, o.effectivePrice.value = price.value) ∧
      ∀ o ∈ b.orders side, side.cost price ≤ side.cost o.effectivePrice := by
  obtain ⟨o, mem, same⟩ := exists_of_bestPrice? filed.proper sorted best
  refine ⟨⟨o, mem, Side.cost_inj.1 same⟩, fun o mem => ?_⟩
  obtain ⟨_, best', le⟩ := sorted.best_le filed mem
  obtain rfl := Option.some.inj (best'.symm.trans best)
  rwa [Order.cost, filed.side side o mem] at le

theorem Sorted.bestPrice?_none (sorted : b.Sorted) (filed : b.Filed) :
    b.bestPrice? side = none ↔ b.orders side = [] := by
  constructor
  · intro none
    refine List.eq_nil_iff_forall_not_mem.2 fun o mem => ?_
    obtain ⟨price, best, -⟩ := sorted.best_le filed mem
    cases none.symm.trans best
  · intro bare
    refine Option.eq_none_iff_forall_ne_some.2 fun price best => ?_
    obtain ⟨o, mem, -⟩ := exists_of_bestPrice? filed.proper sorted best
    exact List.not_mem_nil (bare ▸ mem)

/-- A book is crossed exactly if two of its orders cross. -/
theorem Sorted.isCrossed_iff (sorted : b.Sorted) (filed : b.Filed) : b.isCrossed = true ↔
    ∃ bid ∈ b.orders .buy, ∃ ask ∈ b.orders .sell, bid.crosses ask = true := by
  constructor
  · intro crossed
    by_contra none
    have apart : ∀ bid ∈ b.orders .buy, ∀ ask ∈ b.orders .sell, bid.crosses ask = false := by
      intro bid mem ask mem'
      rw [← Bool.not_eq_true]
      exact fun crosses => none ⟨bid, mem, ask, mem', crosses⟩
    rw [isCrossed_of_apart filed.proper sorted filed.side apart] at crossed
    cases crossed
  · rintro ⟨bid, mem, ask, mem', crosses⟩
    by_contra uncrossed
    rw [sorted.apart filed (by simpa using uncrossed) mem mem'] at crosses
    cases crosses

end Book

namespace IndexedBook

variable {b b' : IndexedBook} {o x : Order} {id : OrderId} {side : Side} {price : Decimal}
  {pair : PairId} {fault : Fault} {quantity money : Nat}

/-- The book is filed and sorted, and its index has the entry of every order and no other. -/
structure Coherent (b : IndexedBook) : Prop where
  filed : b.toBook.Filed
  sorted : b.toBook.Sorted
  index : b.index.toList.Perm (b.all.map Order.entry)

section Lookup

variable (coherent : b.Coherent)

include coherent

theorem Coherent.index_iff :
    b.index[id]? = some (side, price) ↔ ∃ o ∈ b.all, o.entry = (id, side, price) := by
  rw [← Std.ExtTreeMap.mem_toList_iff_getElem?_eq_some, coherent.index.mem_iff, List.mem_map]

theorem Coherent.index_none : b.index[id]? = none ↔ id ∉ b.all.map (·.id) := by
  rw [Option.eq_none_iff_forall_ne_some, List.mem_map]
  constructor
  · rintro absent ⟨o, mem, rfl⟩
    exact absent _ (coherent.index_iff.2 ⟨o, mem, rfl⟩)
  · rintro absent ⟨side, price⟩ found
    obtain ⟨o, mem, same⟩ := coherent.index_iff.1 found
    exact absent ⟨o, mem, congrArg Prod.fst same⟩

theorem Coherent.contains_eq (id : OrderId) : b.contains id = b.toBook.contains id := by
  rw [Bool.eq_iff_iff, Book.contains_iff, contains, ← not_iff_not, ← coherent.index_none,
    Std.ExtTreeMap.contains_eq_isSome_getElem?, Bool.not_eq_true, Option.isSome_eq_false_iff,
    Option.isNone_iff_eq_none]

theorem Coherent.size_eq : b.size = b.toBook.size := by
  rw [size, ← Std.ExtTreeMap.length_toList, coherent.index.length_eq, List.length_map]
  rfl

theorem Coherent.isEmpty_eq : b.isEmpty = b.toBook.isEmpty := by
  rw [Bool.eq_iff_iff, isEmpty, Std.ExtTreeMap.isEmpty_eq_size_beq_zero, beq_iff_eq, Book.isEmpty,
    List.isEmpty_iff_length_eq_zero]
  exact Iff.of_eq (congrArg (· = 0) coherent.size_eq)

/-- The index leads to every order of the book and to no other. -/
theorem Coherent.get?_eq (id : OrderId) : b.get? id = b.toBook.find? id := by
  cases found : b.index[id]? with
  | none =>
      have absent : b.toBook.find? id = none := by
        refine List.find?_eq_none.2 fun o mem same => ?_
        exact coherent.index_none.1 found (List.mem_map.2 ⟨o, mem, by simpa using same⟩)
      rw [absent, get?, found]
      rfl
  | some entry =>
      obtain ⟨side, price⟩ := entry
      obtain ⟨o, mem, same⟩ := coherent.index_iff.1 found
      obtain ⟨rfl, rfl, rfl⟩ : o.id = id ∧ o.side = side ∧ o.effectivePrice = price := by
        simpa [Order.entry] using same
      -- The entry has the text of the order's price, which need not be that of its level; levels
      -- are found by value.
      obtain ⟨side, inSide⟩ := Book.mem_all_iff.1 mem
      obtain rfl := coherent.filed.side side o inSide
      obtain ⟨l, level, inLevel⟩ := List.mem_flatMap.1 inSide
      rw [(Book.find?_eq_some coherent.filed.ids).2 ⟨mem, rfl⟩, get?, found]
      simp only [Option.bind_eq_bind, Option.bind_some,
        coherent.sorted.find?_level level inLevel]
      exact coherent.filed.find?_in_level level inLevel

end Lookup

section Changes

section Insert

variable (known : b.contains o.id = b.toBook.contains o.id)

include known

/-- An order is booked as in a book without an index, and entered. -/
theorem insert_ok {u : Unit} : insert o b = .ok u b' ↔ ∃ book, b.toBook.insert o = .ok book ∧
    b' = ⟨book, b.index.insert o.id (o.side, o.effectivePrice)⟩ := by
  simp only [insert, Action.bind_ok, Action.get_ok, Action.guard_ok, Action.modify_ok]
  constructor
  · rintro ⟨_, _, ⟨rfl, rfl⟩, pair, unfilled, fresh, _, _, rfl, rfl⟩
    exact ⟨_, Book.insert_ok.2 ⟨by simpa using pair, by simpa [Order.isFilled] using unfilled,
      by simpa [known] using fresh, rfl⟩, rfl⟩
  · rintro ⟨book, run, rfl⟩
    obtain ⟨pair, unfilled, fresh, rfl⟩ := Book.insert_ok.1 run
    exact ⟨b, b, ⟨rfl, rfl⟩, by simpa using pair, by simpa [Order.isFilled] using unfilled,
      by simpa [known] using fresh, ⟨⟩, _, rfl, rfl⟩

/-- It is refused alike, and then everything is as it was. -/
theorem insert_error :
    insert o b = .error fault b' ↔ b.toBook.insert o = .error fault ∧ b' = b := by
  simp only [insert, Action.bind_error, Action.get_ok, Action.get_error, Action.guard_error,
    Action.modify_ok, Action.modify_error, false_or, and_assoc, exists_false, and_false]
  rw [Book.insert, ← known]
  by_cases pair : o.pair = b.pair <;> by_cases filled : o.isFilled <;>
    by_cases old : b.contains o.id <;> simp [pair, filled, old, eq_comm]

end Insert

theorem fillBest_some [Build] : b.fillBest side quantity money = .ok (some (o, b')) ↔
    ∃ x, b.best? side = some x ∧ Build.stops (x.hasRoom quantity money) = false ∧
      o = x.recordFill quantity money ∧ b' = { b with toBook := b.setBest side o } := by
  rw [fillBest]
  cases b.best? side with
  | none => simp
  | some x =>
      cases stop : Build.stops (x.hasRoom quantity money) with
      | true => simp [Order.recordFill?, stop]
      | false =>
          simp only [Order.recordFill?, stop, Bool.false_eq_true, ↓reduceIte, Except.ok.injEq,
            Option.some.injEq, Prod.mk.injEq, exists_eq_left', true_and]
          constructor
          · rintro ⟨rfl, rfl⟩
            exact ⟨rfl, rfl⟩
          · rintro ⟨rfl, rfl⟩
            exact ⟨rfl, rfl⟩

section Coherent

variable (coherent : b.Coherent)

include coherent

theorem Coherent.insert {u : Unit} (run : insert o b = .ok u b') :
    b'.Coherent ∧ b'.all.Perm (o :: b.all) := by
  obtain ⟨book, booked, rfl⟩ := (insert_ok (coherent.contains_eq o.id)).1 run
  have all := Book.all_insert booked
  have fresh : o.id ∉ b.all.map (·.id) := by
    rw [← Book.contains_iff, (Book.insert_ok.1 booked).2.2.1]
    exact Bool.false_ne_true
  refine ⟨⟨coherent.filed.insert booked, coherent.sorted.insert booked, ?_⟩, all⟩
  have entered := Maps.toList_insert_perm b.index o.id (o.side, o.effectivePrice)
  rw [Maps.erase_of_none (coherent.index_none.2 fresh)] at entered
  exact entered.trans ((coherent.index.cons o.entry).trans (all.map Order.entry).symm)

/-- The best order leaves the book and the index. -/
theorem Coherent.pop? (popped : b.pop? side = some (o, b')) :
    b'.Coherent ∧ b.best? side = some o ∧ b.all.Perm (o :: b'.all) := by
  cases front : b.orders side with
  | nil => simp [IndexedBook.pop?, coherent.filed.proper.pop?_of_empty front] at popped
  | cons x rest =>
      obtain ⟨book, taken, filed, all⟩ := coherent.filed.pop? front
      simp only [IndexedBook.pop?, taken, Option.some.injEq, Prod.mk.injEq] at popped
      obtain ⟨rfl, rfl⟩ := popped
      refine ⟨⟨filed, coherent.sorted.pop? taken, ?_⟩, ?_, all⟩
      · have mem : x ∈ b.all := all.mem_iff.2 List.mem_cons_self
        have left := Maps.toList_erase_perm (coherent.index_iff.2 ⟨x, mem, rfl⟩)
        exact (left.symm.trans (coherent.index.trans (all.map Order.entry))).cons_inv
      · exact coherent.filed.proper.best?_front front

/-- A fill of the best order changes this order alone, and not its entry. -/
theorem Coherent.fillBest [Build] (filled : b.fillBest side quantity money = .ok (some (o, b'))) :
    b'.Coherent ∧ ∃ x others, b.best? side = some x ∧ o = x.recordFill quantity money ∧
      b.all.Perm (x :: others) ∧ b'.all.Perm (o :: others) := by
  obtain ⟨x, best, -, rfl, rfl⟩ := fillBest_some.1 filled
  obtain ⟨rest, front⟩ := coherent.filed.proper.front_of_best? best
  have same : (x.recordFill quantity money).terms = x.terms := Fill.terms_recordFill
  obtain ⟨filed, others, before, after⟩ := coherent.filed.setBest front
    (Order.side_of_terms same) (Order.id_of_terms same)
  refine ⟨⟨filed, coherent.sorted.setBest coherent.filed.proper front same, ?_⟩, x, others,
    best, rfl, before, after⟩
  have entries := coherent.index.trans (before.map Order.entry)
  rw [List.map_cons, ← Order.entry_of_terms same, ← List.map_cons] at entries
  exact entries.trans (after.map Order.entry).symm

end Coherent

end Changes

theorem coherent_empty (pair : PairId) : (empty pair).Coherent :=
  ⟨(Book.sound_empty pair).filed, Book.sorted_empty pair, by
    simp [empty, Book.empty, Book.all, Book.orders, Book.levels]⟩

section Rebuilding

theorem index_entries {orders : List Order} {index : Std.ExtTreeMap OrderId (Side × Decimal)}
    (distinct : (orders.map (·.id)).Nodup) (fresh : ∀ o ∈ orders, index[o.id]? = none) :
    (orders.foldl (fun index o => index.insert o.id (o.side, o.effectivePrice))
      index).toList.Perm (orders.map Order.entry ++ index.toList) := by
  induction orders generalizing index with
  | nil => exact .refl _
  | cons o rest ih =>
      rw [List.map_cons, List.nodup_cons] at distinct
      rw [List.forall_mem_cons] at fresh
      have entered := Maps.toList_insert_perm index o.id (o.side, o.effectivePrice)
      rw [Maps.erase_of_none fresh.1] at entered
      rw [List.foldl_cons]
      refine (ih distinct.2 fun x mem => ?_).trans
        ((entered.append_left _).trans List.perm_middle)
      rw [Maps.getElem?_insert, if_neg fun same => distinct.1 (List.mem_map.2 ⟨x, mem, same.symm⟩)]
      exact fresh.2 x mem

theorem ofBook_coherent {b : Book} (filed : b.Filed) (sorted : b.Sorted) : (ofBook b).Coherent := by
  have entries := index_entries filed.ids fun o _ => Std.ExtTreeMap.getElem?_empty
  rw [Std.ExtTreeMap.toList_eq_nil_iff.2 rfl, List.append_nil] at entries
  exact ⟨filed, sorted, entries⟩

/-- A book has one index. -/
theorem Coherent.eq_of_toBook (coherent : b.Coherent) (coherent' : b'.Coherent)
    (same : b.toBook = b'.toBook) : b = b' := by
  have index : b.index = b'.index := by
    refine Std.ExtTreeMap.ext_getElem? fun id => Option.ext fun ⟨side, price⟩ => ?_
    rw [coherent.index_iff, coherent'.index_iff, same]
  cases b
  cases b'
  subst same index
  rfl

theorem ofBook_of_coherent (coherent : b.Coherent) : ofBook b.toBook = b :=
  (ofBook_coherent coherent.filed coherent.sorted).eq_of_toBook coherent rfl

/-- Books are made from orders with and without an index alike. -/
theorem ofOrders_eq (pair : PairId) (orders : List Order) :
    ofOrders pair orders = (Book.ofOrders pair orders).map ofBook := by
  suffices general : ∀ (l : List Order) (start : IndexedBook), start.Coherent →
      ((l.forM insert).outcome start).1.map (fun _ => ((l.forM insert).outcome start).2) =
        (l.foldlM Book.insert start.toBook).map ofBook from
    general orders (empty pair) (coherent_empty pair)
  intro l
  induction l with
  | nil => exact fun start coherent => congrArg Except.ok (ofBook_of_coherent coherent).symm
  | cons o rest ih =>
      intro start coherent
      have known := coherent.contains_eq o.id
      rw [List.foldlM_cons]
      cases run : insert o start with
      | ok u b =>
          have coherent' := (coherent.insert run).1
          obtain ⟨book, booked, rfl⟩ := (insert_ok known).1 run
          rw [booked, Action.outcome_forM_cons run]
          exact ih _ coherent'
      | error fault b =>
          rw [Action.outcome_forM_cons_error run, ((insert_error known).1 run).1]
          rfl

end Rebuilding

section Runs

/-- What is done to a book from outside. -/
inductive Act
  | insert (o : Order)
  | pop (side : Side)
  | fill (side : Side) (quantity money : Nat)

/-- The book afterwards. It is as it was if an order was refused, if there was none to take or to
fill, and where the program would stop over a fill. -/
def Act.perform [Build] (b : IndexedBook) : Act → IndexedBook
  | insert o => ((IndexedBook.insert o).outcome b).2
  | pop side => (b.pop? side).elim b Prod.snd
  | fill side quantity money =>
      match b.fillBest side quantity money with
      | .ok (some (_, b')) => b'
      | _ => b

/-- A new book after some acts. -/
def run [Build] (pair : PairId) (acts : List Act) : IndexedBook :=
  acts.foldl Act.perform (empty pair)

theorem Coherent.perform [Build] (coherent : b.Coherent) (act : Act) :
    (Act.perform b act).Coherent := by
  cases act with
  | insert o =>
      rw [Act.perform, Action.outcome]
      cases run : IndexedBook.insert o b with
      | ok u b' => exact (coherent.insert run).1
      | error fault b' =>
          obtain rfl := ((insert_error (coherent.contains_eq o.id)).1 run).2
          exact coherent
  | pop side =>
      rw [Act.perform]
      cases popped : b.pop? side with
      | none => exact coherent
      | some taken => exact (coherent.pop? popped).1
  | fill side quantity money =>
      rw [Act.perform]
      split
      · next filled => exact (coherent.fillBest filled).1
      · exact coherent

theorem run_coherent [Build] (pair : PairId) (acts : List Act) : (run pair acts).Coherent := by
  induction acts using List.reverseRecOn with
  | nil => exact coherent_empty pair
  | append_singleton acts act ih =>
      rw [run, List.foldl_append]
      exact ih.perform act

end Runs

theorem popMany_eq (side : Side) (n : Nat) (b : IndexedBook) :
    (popMany side n b).1 = (Book.popMany side n b.toBook).1 ∧
      (popMany side n b).2.toBook = (Book.popMany side n b.toBook).2 := by
  induction n generalizing b with
  | zero => exact ⟨rfl, rfl⟩
  | succ n ih =>
      rw [popMany, pop?, Book.popMany]
      cases b.toBook.pop? side with
      | none => exact ⟨rfl, rfl⟩
      | some taken =>
          obtain ⟨rest, last⟩ := ih { toBook := taken.2, index := b.index.erase taken.1.id }
          exact ⟨congrArg (taken.1 :: ·) rest, last⟩

/-- What a book shows of the orders that it holds. -/
structure Represents (b : IndexedBook) : Prop where
  full : ∀ side, ∀ l ∈ b.levels side, l.orders ≠ []
  levels : ∀ side, ∀ l ∈ b.levels side, ∀ o ∈ l.orders,
    o.side = side ∧ o.effectivePrice.value = l.price.value
  times : ∀ side, ∀ l ∈ b.levels side, l.orders.Pairwise fun x y => x.isEarlier y = true
  distinct : (b.all.map (·.id)).Nodup
  index : ∀ id side price, b.index[id]? = some (side, price) ↔
    ∃ o ∈ b.all, o.id = id ∧ o.side = side ∧ o.effectivePrice = price
  size : b.size = b.all.length
  get : ∀ id o, b.get? id = some o ↔ o ∈ b.all ∧ o.id = id
  bare : ∀ side, b.bestPrice? side = none ↔ b.orders side = []
  bestBid : ∀ price, b.bestPrice? .buy = some price →
    (∃ o ∈ b.orders .buy, o.effectivePrice.value = price.value) ∧
      ∀ o ∈ b.orders .buy, o.effectivePrice.value ≤ price.value
  bestAsk : ∀ price, b.bestPrice? .sell = some price →
    (∃ o ∈ b.orders .sell, o.effectivePrice.value = price.value) ∧
      ∀ o ∈ b.orders .sell, price.value ≤ o.effectivePrice.value
  crossed : b.isCrossed = true ↔
    ∃ bid ∈ b.orders .buy, ∃ ask ∈ b.orders .sell, bid.crosses ask = true
  drained : ∀ side, (b.drain side).1 = b.orders side ∧ (b.orders side).Pairwise Order.Before ∧
    (b.drain side).2.orders side = []

/-- The orders that a book takes: the unfilled ones of its market that have a new id. -/
def Admits (b : IndexedBook) (o : Order) : Prop :=
  o.pair = b.pair ∧ o.isFilled = false ∧ o.id ∉ b.all.map (·.id)

/-- What an order, a removal and a fill do to the orders that a book holds. -/
structure Changes [Build] (b : IndexedBook) : Prop where
  accepts : ∀ o, b.Admits o → ∃ b', insert o b = .ok ⟨⟩ b' ∧ b'.all.Perm (o :: b.all)
  refuses : ∀ o, ¬ b.Admits o → ∃ fault, insert o b = .error fault b
  pops : ∀ side, (b.pop? side = none ∧ b.orders side = []) ∨
    ∃ o b', b.pop? side = some (o, b') ∧ b.best? side = some o ∧ b.all.Perm (o :: b'.all)
  fills : ∀ side quantity money,
    (b.fillBest side quantity money = .ok none ∧ b.orders side = []) ∨
    ∃ x, b.best? side = some x ∧
      if Build.stops (x.hasRoom quantity money) then
        b.fillBest side quantity money = .error .halted
      else ∃ b' others,
        b.fillBest side quantity money = .ok (some (x.recordFill quantity money, b')) ∧
        b.all.Perm (x :: others) ∧ b'.all.Perm (x.recordFill quantity money :: others)

theorem admits_iff : b.Admits o ↔ ∃ book, b.toBook.insert o = .ok book := by
  simp only [Admits, Book.insert_ok, ← Book.contains_iff, Bool.not_eq_true, Order.isFilled,
    beq_eq_false_iff_ne]
  constructor
  · rintro ⟨pair, unfilled, fresh⟩
    exact ⟨_, pair, unfilled, fresh, rfl⟩
  · rintro ⟨_, pair, unfilled, fresh, -⟩
    exact ⟨pair, unfilled, fresh⟩

section Coherent

variable (coherent : b.Coherent)

include coherent

theorem Coherent.drain (side : Side) :
    (b.drain side).1 = b.orders side ∧ (b.drain side).2.orders side = [] := by
  obtain ⟨taken, left⟩ := popMany_eq side b.size b
  obtain ⟨all, bare, -⟩ := coherent.filed.proper.drain
  rw [IndexedBook.drain, taken, left, coherent.size_eq]
  exact ⟨all, bare⟩

theorem Coherent.represents : b.Represents where
  full := coherent.filed.proper
  levels side l level o inLevel :=
    ⟨coherent.filed.side side o (List.mem_flatMap.2 ⟨l, level, inLevel⟩),
      Side.cost_inj.1 ((coherent.sorted side).price l level o inLevel)⟩
  times side := (coherent.sorted side).times
  distinct := coherent.filed.ids
  index id side price := by simp [coherent.index_iff, Order.entry]
  size := coherent.size_eq
  get id o := by rw [coherent.get?_eq, Book.find?_eq_some coherent.filed.ids]
  bare _ := coherent.sorted.bestPrice?_none coherent.filed
  bestBid price best := by
    obtain ⟨attained, bound⟩ := coherent.sorted.bestPrice? coherent.filed best
    exact ⟨attained, fun o mem => neg_le_neg_iff.1 (bound o mem)⟩
  bestAsk _ best := coherent.sorted.bestPrice? coherent.filed best
  crossed := coherent.sorted.isCrossed_iff coherent.filed
  drained side :=
    ⟨(coherent.drain side).1, coherent.sorted.before coherent.filed side, (coherent.drain side).2⟩

theorem Coherent.changes [Build] : b.Changes where
  accepts o admitted := by
    obtain ⟨book, booked⟩ := admits_iff.1 admitted
    have run := (insert_ok (u := ⟨⟩) (coherent.contains_eq o.id)).2 ⟨book, booked, rfl⟩
    exact ⟨_, run, (coherent.insert run).2⟩
  refuses o barred := by
    cases booked : b.toBook.insert o with
    | ok book => exact absurd (admits_iff.2 ⟨book, booked⟩) barred
    | error fault => exact ⟨fault, (insert_error (coherent.contains_eq o.id)).2 ⟨booked, rfl⟩⟩
  pops side := by
    cases popped : b.pop? side with
    | none =>
        refine .inl ⟨rfl, by_contra fun full => ?_⟩
        obtain ⟨x, rest, front⟩ := List.exists_cons_of_ne_nil full
        obtain ⟨book, taken, -⟩ := coherent.filed.pop? front
        simp [IndexedBook.pop?, taken] at popped
    | some taken => exact .inr ⟨_, _, rfl, (coherent.pop? popped).2⟩
  fills side quantity money := by
    cases best : b.best? side with
    | none =>
        refine .inl ⟨by rw [IndexedBook.fillBest, best], by_contra fun full => ?_⟩
        obtain ⟨x, rest, front⟩ := List.exists_cons_of_ne_nil full
        cases best.symm.trans (coherent.filed.proper.best?_front front)
    | some x =>
        refine .inr ⟨x, rfl, ?_⟩
        split
        · next stop => simp [IndexedBook.fillBest, best, Order.recordFill?, stop]
        · next goes =>
            have filled := fillBest_some.2 ⟨x, best, Bool.eq_false_of_not_eq_true goes, rfl, rfl⟩
            obtain ⟨-, y, others, best', -, before, after⟩ := coherent.fillBest filled
            obtain rfl := Option.some.inj (best.symm.trans best')
            exact ⟨_, others, filled, before, after⟩

end Coherent

/-- Whatever is booked, taken out and filled, accepted or refused, the book represents the orders
that it holds. -/
theorem run_represents [Build] (pair : PairId) (acts : List Act) :
    (run pair acts).Represents ∧ (run pair acts).Changes :=
  ⟨(run_coherent pair acts).represents, (run_coherent pair acts).changes⟩

/-- Orders at 5 and at 5.0 share a level, and the filled one that is refused has no entry. -/
example :
    let b := @run .checked Book.offer.pair [.insert Book.offer,
      .insert { Book.offer with id := ⟨"d"⟩, price := 50, precision := 1 },
      .insert { Book.laterBid with remaining := 0 }]
    (b.asks.map fun l => l.orders.length) = [2] ∧ b.size = 2 := by
  decide +kernel

end IndexedBook

end Bourse
