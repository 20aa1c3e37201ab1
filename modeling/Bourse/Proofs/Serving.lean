import Bourse.Proofs.Steps
import Mathlib.Data.List.Destutter
import Mathlib.Data.List.Forall2

/-!
# Orders that are served in turn

A side of the book is served if trades take from its orders one after the other, always from the
first that is still booked (`Serving`). Then

* `Serving.accounts`: trades left of every order what they did not take;
* `Serving.split`: they took from a first part of the orders, in this order, and filled all of it
  but perhaps its last;
* `Serving.turns`: they took nothing from an order before those ahead of it were filled.
-/

namespace Bourse

theorem forall₂_append_cons {α β : Type} {R : α → β → Prop} {l : List α} {k k' : List β} {y : β}
    (related : List.Forall₂ R l (k ++ y :: k')) : ∃ better x worse, l = better ++ x :: worse ∧
      List.Forall₂ R better k ∧ R x y ∧ List.Forall₂ R worse k' := by
  have front := List.forall₂_take_append l k (y :: k') related
  obtain ⟨x, worse, head, tail, back⟩ :=
    List.forall₂_cons_right_iff.1 (List.forall₂_drop_append l k (y :: k') related)
  exact ⟨_, x, worse, back ▸ (List.take_append_drop k.length l).symm, front, head, tail⟩

/-- What holds of each element of a list and those before it holds with one more element. -/
theorem forall_split_concat {α : Type} {P : List α → α → Prop} {l : List α} {a : α}
    (earlier : ∀ past t future, l = past ++ t :: future → P past t) (last : P l a) :
    ∀ past t future, l ++ [a] = past ++ t :: future → P past t := by
  intro past t future split
  obtain rfl | ⟨front, z, rfl⟩ := future.eq_nil_or_concat
  · obtain ⟨rfl, same⟩ := List.append_inj' split rfl
    obtain rfl : a = t := by simpa using same
    exact last
  · rw [List.concat_eq_append, ← List.cons_append, ← List.append_assoc] at split
    exact earlier past t front (List.append_inj' split rfl).1

/-- Without repetitions, a list with one more element ends with that one. -/
theorem destutter_concat {α : Type} [DecidableEq α] (l : List α) (a : α) :
    (l ++ [a]).destutter (· ≠ ·) = if (l.destutter (· ≠ ·)).getLast? = some a then
      l.destutter (· ≠ ·) else l.destutter (· ≠ ·) ++ [a] := by
  cases l with
  | nil => simp
  | cons b l =>
      rw [List.cons_append, List.destutter_cons', List.destutter_cons']
      induction l generalizing b with
      | nil => by_cases same : b = a <;> simp [same]
      | cons c l ih =>
          rw [List.cons_append]
          by_cases same : b ≠ c
          · have full : l.destutter' (· ≠ ·) c ≠ [] := List.destutter'_ne_nil l _
            rw [List.destutter'_cons_pos _ same, List.destutter'_cons_pos _ same, ih,
              List.getLast?_cons_of_ne_nil full]
            split <;> rfl
          · rw [List.destutter'_cons_neg _ same, List.destutter'_cons_neg _ same, ih]

namespace Trade

/-- The order of a side that took part in the trade. -/
def orderOf (t : Trade) (side : Side) : OrderId :=
  if t.takerSide = side then t.takerOrder else t.makerOrder

/-- The stock that trades took from an order of a side. -/
def takenFrom (side : Side) (trades : List Trade) (k : OrderId) : Nat :=
  (trades.map fun t => if t.orderOf side = k then t.quantity else 0).sum

/-- The orders of a side that trades name, each once for as long as it is named again. -/
def turns (side : Side) (trades : List Trade) : List OrderId :=
  (trades.map fun t => t.orderOf side).destutter (· ≠ ·)

variable {t : Trade} {trades more : List Trade} {side : Side} {k : OrderId}

@[simp] theorem takenFrom_nil : takenFrom side [] k = 0 := rfl

@[simp] theorem takenFrom_cons : takenFrom side (t :: trades) k =
    (if t.orderOf side = k then t.quantity else 0) + takenFrom side trades k := by
  simp [takenFrom]

@[simp] theorem takenFrom_append :
    takenFrom side (trades ++ more) k = takenFrom side trades k + takenFrom side more k := by
  simp [takenFrom]

theorem takenFrom_of_idle (idle : ∀ t ∈ trades, t.orderOf side ≠ k) :
    takenFrom side trades k = 0 := by
  induction trades with
  | nil => rfl
  | cons t rest ih =>
      rw [List.forall_mem_cons] at idle
      rw [takenFrom_cons, if_neg idle.1, ih idle.2]

/-- The trade takes from the order `x` of a side and leaves `o` of it. -/
structure Takes (t : Trade) (side : Side) (x o : Order) : Prop where
  names : t.orderOf side = x.id
  terms : o.terms = x.terms
  moves : t.quantity ≠ 0
  taken : o.remaining + t.quantity = x.remaining

end Trade

/-- Trades took from the orders `start` of a side one after the other, always from the first that
was still booked. Those that they filled are `gone`, the others are booked `now`. -/
inductive Serving (side : Side) (start : List Order) :
    List Order → List Order → List Trade → Prop
  | start : Serving side start [] start []
  | fill {gone rest : List Order} {trades : List Trade} {x o : Order} {t : Trade} :
      Serving side start gone (x :: rest) trades → t.Takes side x o →
        Serving side start (gone ++ o.done) (o.standing ++ rest) (trades ++ [t])

/-- Trades left `o` of the order `x` of a side. -/
structure Trade.Leave (side : Side) (trades : List Trade) (x o : Order) : Prop where
  terms : o.terms = x.terms
  taken : o.remaining + takenFrom side trades x.id = x.remaining

section Leave

variable {side : Side} {trades : List Trade} {t : Trade} {x₀ x o : Order}

theorem Trade.Leave.idle (left : Trade.Leave side trades x o) (idle : t.orderOf side ≠ x.id) :
    Trade.Leave side (trades ++ [t]) x o :=
  ⟨left.terms, by simpa [idle] using left.taken⟩

theorem Trade.Leave.takes (left : Trade.Leave side trades x₀ x) (takes : t.Takes side x o) :
    Trade.Leave side (trades ++ [t]) x₀ o := by
  refine ⟨takes.terms.trans left.terms, ?_⟩
  have names : t.orderOf side = x₀.id := takes.names.trans (Order.id_of_terms left.terms)
  have before := left.taken
  have taken := takes.taken
  simp only [Trade.takenFrom_append, Trade.takenFrom_cons, names, ↓reduceIte, Trade.takenFrom_nil]
  omega

end Leave

/-- Of `x` less is left, `o`. -/
structure Order.Drained (x o : Order) : Prop where
  terms : o.terms = x.terms
  less : o.remaining < x.remaining

theorem Order.Drained.trans {x y z : Order} (first : x.Drained y) (second : y.Drained z) :
    x.Drained z :=
  ⟨second.terms.trans first.terms, second.less.trans first.less⟩

theorem Trade.Takes.drained {t : Trade} {side : Side} {x o : Order} (takes : t.Takes side x o) :
    x.Drained o := by
  refine ⟨takes.terms, ?_⟩
  have taken := takes.taken
  have moves := takes.moves
  omega

namespace Serving

variable {side : Side} {start gone now : List Order} {trades : List Trade} {o : Order}

theorem filled (serving : Serving side start gone now trades) : ∀ o ∈ gone, o.remaining = 0 := by
  induction serving with
  | start => simp
  | @fill gone rest trades x o t _ _ ih =>
      intro y mem
      rw [List.mem_append, Order.mem_done] at mem
      obtain mem | ⟨rfl, filled⟩ := mem
      · exact ih y mem
      · exact filled

section Distinct

variable (serving : Serving side start gone now trades) (distinct : (start.map (·.id)).Nodup)

include serving distinct

/-- Trades left of every order what they did not take. -/
theorem accounts : List.Forall₂ (Trade.Leave side trades) start (gone ++ now) := by
  induction serving with
  | start => exact List.forall₂_same.2 fun x _ => ⟨rfl, rfl⟩
  | @fill gone rest trades x o t _ takes ih =>
      obtain ⟨better, x₀, worse, rfl, ahead, own, behind⟩ := forall₂_append_cons ih
      have names : t.orderOf side = x₀.id := takes.names.trans (Order.id_of_terms own.terms)
      rw [List.map_append, List.map_cons, List.nodup_middle, List.nodup_cons] at distinct
      -- The other orders are not named.
      have others : ∀ y ∈ better ++ worse, y.id ≠ t.orderOf side := by
        intro y mem same
        rw [← List.map_append] at distinct
        exact distinct.1 (List.mem_map.2 ⟨y, mem, same.trans names⟩)
      have keep : ∀ l l', (∀ y ∈ l, y.id ≠ t.orderOf side) →
          List.Forall₂ (Trade.Leave side trades) l l' →
          List.Forall₂ (Trade.Leave side (trades ++ [t])) l l' := fun l l' idle left =>
        ((List.forall₂_and_left l l').2 ⟨idle, left⟩).imp fun _ _ ⟨idle, left⟩ =>
          left.idle idle.symm
      rw [List.append_assoc, ← List.append_assoc o.done, Order.done_append_standing,
        List.singleton_append]
      rw [List.forall_mem_append] at others
      exact List.rel_append (keep _ _ others.1 ahead)
        (.cons (own.takes takes) (keep _ _ others.2 behind))

/-- What is left of an order is less than a word if the order was. -/
theorem word (words : ∀ o ∈ start, o.remaining < Word.size) :
    ∀ o ∈ gone ++ now, o.remaining < Word.size := by
  intro o mem
  obtain ⟨front, back, split⟩ := List.mem_iff_append.1 mem
  have accounts := serving.accounts distinct
  rw [split] at accounts
  obtain ⟨better, x, worse, rfl, -, left, -⟩ := forall₂_append_cons accounts
  have word := words x (by simp)
  have taken := left.taken
  omega

end Distinct

section Next

variable {x : Order} {rest : List Order}

/-- All that stands ahead of the first booked order is filled. -/
theorem next (serving : Serving side start gone (x :: rest) trades)
    (distinct : (start.map (·.id)).Nodup) : ∃ better x₀ worse, start = better ++ x₀ :: worse ∧
      x.terms = x₀.terms ∧ ∀ y ∈ better, Trade.takenFrom side trades y.id = y.remaining := by
  obtain ⟨better, x₀, worse, split, ahead, own, -⟩ :=
    forall₂_append_cons (serving.accounts distinct)
  refine ⟨better, x₀, worse, split, own.terms, ?_⟩
  have filled := (List.forall₂_and_left gone better).2 ⟨serving.filled, ahead.flip⟩
  have spent : List.Forall₂ (fun y _ => Trade.takenFrom side trades y.id = y.remaining ∧ True)
      better gone := by
    refine filled.flip.imp fun y o ⟨filled, left⟩ => ⟨?_, trivial⟩
    have taken := left.taken
    omega
  exact ((List.forall₂_and_left better gone).1 spent).1

/-- The orders that trades took from are a first part of all, and filled but for its last; trades
name them in their order. -/
theorem split (serving : Serving side start gone now trades) (distinct : (start.map (·.id)).Nodup) :
    ∃ served waiting begun, begun.length ≤ 1 ∧ start = served ++ waiting ∧
      now = begun ++ waiting ∧ List.Forall₂ Order.Drained served (gone ++ begun) ∧
      Trade.turns side trades = served.map (·.id) := by
  induction serving with
  | start => exact ⟨[], start, [], Nat.zero_le 1, rfl, rfl, .nil, rfl⟩
  | @fill gone rest trades x o t _ takes ih =>
      obtain ⟨served, waiting, begun, short, rfl, booked, drained, turns⟩ := ih
      have placed : gone ++ o.done ++ o.standing = gone ++ [o] := by
        rw [List.append_assoc, Order.done_append_standing]
      have named : Trade.turns side (trades ++ [t]) =
          if (served.map (·.id)).getLast? = some x.id then served.map (·.id)
          else served.map (·.id) ++ [x.id] := by
        rw [Trade.turns, List.map_append, List.map_singleton, destutter_concat, takes.names]
        exact congrArg (fun l => if l.getLast? = some x.id then l else l ++ [x.id]) turns
      cases begun with
      | nil =>
          -- The trade begins the first order that waits.
          rw [List.nil_append] at booked
          subst booked
          refine ⟨served ++ [x], rest, o.standing, o.length_standing_le, by simp, rfl, ?_, ?_⟩
          · rw [List.append_nil] at drained
            rw [placed]
            exact List.rel_append drained (.cons takes.drained .nil)
          · have fresh : x.id ∉ served.map (·.id) := by
              rw [List.map_append, List.map_cons, List.nodup_middle, List.nodup_cons,
                List.mem_append, not_or] at distinct
              exact distinct.1.1
            rw [named, if_neg fun last => fresh (List.mem_of_getLast? last), List.map_append,
              List.map_singleton]
      | cons y more =>
          -- The trade goes on with the one that is begun.
          obtain rfl : more = [] := List.length_eq_zero_iff.1 (by simpa using short)
          rw [List.singleton_append, List.cons.injEq] at booked
          obtain ⟨rfl, rfl⟩ := booked
          obtain ⟨before, x₀, none, rfl, ahead, own, behind⟩ := forall₂_append_cons drained
          rw [List.forall₂_nil_right_iff] at behind
          subst behind
          refine ⟨before ++ [x₀], rest, o.standing, o.length_standing_le, rfl, rfl, ?_, ?_⟩
          · rw [placed]
            exact List.rel_append ahead (.cons (own.trans takes.drained) .nil)
          · rw [named, if_pos]
            simp [Order.id_of_terms own.terms]

/-- Trades take nothing from an order before those ahead of it are filled. -/
theorem turns (serving : Serving side start gone now trades) (distinct : (start.map (·.id)).Nodup)
    {past future : List Trade} {t : Trade} (made : trades = past ++ t :: future)
    {better worse : List Order} {y : Order} (ranked : start = better ++ y :: worse)
    (names : t.orderOf side = y.id) :
    ∀ z ∈ better, Trade.takenFrom side past z.id = z.remaining := by
  suffices general : ∀ past t future, trades = past ++ t :: future → t.orderOf side = y.id →
      ∀ z ∈ better, Trade.takenFrom side past z.id = z.remaining from
    general past t future made names
  clear made names
  induction serving with
  | start => simp
  | @fill gone rest trades x o t before takes ih =>
      refine forall_split_concat ih fun names => ?_
      obtain ⟨better', x₀, worse', split, terms, spent⟩ := before.next distinct
      obtain rfl : x₀ = y := by
        refine List.inj_on_of_nodup_map distinct (by simp [split]) (by simp [ranked]) ?_
        exact (Order.id_of_terms terms).symm.trans (takes.names.symm.trans names)
      have nodup : (better' ++ x₀ :: worse').Nodup := split ▸ distinct.of_map
      rw [List.nodup_middle, List.nodup_cons, List.mem_append, not_or] at nodup
      obtain ⟨rfl, -⟩ := (List.append_cons_inj_of_notMem nodup.1.1 nodup.1.2).1
        (split.symm.trans ranked)
      exact spent

/-- They name orders of the side. -/
theorem names_mem (serving : Serving side start gone now trades)
    (distinct : (start.map (·.id)).Nodup) : ∀ t ∈ trades, t.orderOf side ∈ start.map (·.id) := by
  induction serving with
  | start => simp
  | @fill gone rest trades x o t before takes ih =>
      obtain ⟨better, x₀, worse, split, terms, -⟩ := before.next distinct
      rw [List.forall_mem_append, List.forall_mem_singleton]
      refine ⟨ih, List.mem_map.2 ⟨x₀, by simp [split], ?_⟩⟩
      exact (takes.names.trans (Order.id_of_terms terms)).symm

end Next

end Serving

end Bourse
