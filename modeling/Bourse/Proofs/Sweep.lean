import Bourse.Delisting
import Bourse.Proofs.Drawing
import Bourse.Proofs.Resting
import Bourse.Proofs.Upkeep

/-!
# What a sweep of delist requests does, exactly

A sweep works off a snapshot of the due requests. The first of them that names a listed market
removes it, with its orders and with whatever else names it, so that of the market's other requests
in the snapshot nothing is left to do.

* `Cleared`: what the removal of some markets leaves of a store, and `Sweep.after`: what is reported
  of it;
* `expireOrders_exact`, `delist_exact`, `carryOut_exact`: the removal never fails, and does that;
* `departing_ordered`: markets leave in the order of their first requests;
* `sweep_exact`: hence the whole effect of a sweep, and that a second one finds nothing to do.
-/

namespace Bourse

/-- An order as it is reported when its market is removed. -/
def Order.expired (o : Order) : Order := { o.released with status := .expired }

namespace Sweep

variable {sweep : Sweep} {base : Denom} {gone gone' : List PairId} {orders orders' : List Order}

/-- The report after these markets left, with these orders. -/
def after (sweep : Sweep) (base : Denom) (gone : List PairId) (orders : List Order) : Sweep where
  delisted := sweep.delisted ++ gone
  cancelled := sweep.cancelled ++ orders.map Order.expired
  effects := sweep.effects ++ orders.flatMap fun o => o.releases base

theorem after_nil : sweep.after base [] [] = sweep := by simp [after]

theorem after_after : (sweep.after base gone orders).after base gone' orders' =
    sweep.after base (gone ++ gone') (orders ++ orders') := by
  simp [after]

end Sweep

namespace Store

variable {s s' s'' : Store} {base : Denom} {sweep : Sweep} {p q : PairId} {o : Order} {k : OrderId}
  {r : DelistRequest} {gone gone' : List PairId} {used used' requests : List DelistRequest}
  {now : Int}

/-- What the removal of some markets leaves of a store: those are gone with their orders and with
the requests that name them, and so are the used requests. -/
structure Cleared (gone : List PairId) (used : List DelistRequest) (s s' : Store) : Prop where
  tables : s'.tables.WellFormed
  kept : ∀ p ∉ gone, s'.tables.ordersOf p = s.tables.ordersOf p ∧ s'.pair? p = s.pair? p
  removed : ∀ p ∈ gone, s'.tables.ordersOf p = [] ∧ s'.pair? p = none
  requests : ∀ r, r ∈ s'.tables.delists ↔ r ∈ s.tables.delists ∧ r ∉ used ∧ r.pair ∉ gone
  usedIds : s'.tables.usedIds = s.tables.usedIds

theorem Cleared.refl (wf : s.tables.WellFormed) : Cleared [] [] s s :=
  ⟨wf, fun _ _ => ⟨rfl, rfl⟩, by simp, by simp, rfl⟩

theorem Cleared.append (first : Cleared gone used s s') (second : Cleared gone' used' s' s'') :
    Cleared (gone ++ gone') (used ++ used') s s'' where
  tables := second.tables
  kept p absent := by
    rw [List.mem_append, not_or] at absent
    obtain ⟨orders, pair⟩ := first.kept p absent.1
    obtain ⟨orders', pair'⟩ := second.kept p absent.2
    exact ⟨orders'.trans orders, pair'.trans pair⟩
  removed p mem := by
    by_cases later : p ∈ gone'
    · exact second.removed p later
    · obtain ⟨orders, pair⟩ := first.removed p ((List.mem_append.1 mem).resolve_right later)
      obtain ⟨orders', pair'⟩ := second.kept p later
      exact ⟨orders'.trans orders, pair'.trans pair⟩
  requests r := by
    rw [second.requests, first.requests, List.mem_append, List.mem_append, not_or, not_or]
    constructor
    · rintro ⟨⟨mem, unused, stays⟩, unused', stays'⟩
      exact ⟨mem, ⟨unused, unused'⟩, stays, stays'⟩
    · rintro ⟨mem, ⟨unused, unused'⟩, stays, stays'⟩
      exact ⟨⟨mem, unused, stays⟩, unused', stays'⟩
  usedIds := second.usedIds.trans first.usedIds

theorem Cleared.pair?_eq (cleared : Cleared gone used s s') :
    s'.pair? p = if p ∈ gone then none else s.pair? p := by
  split
  · next mem => exact (cleared.removed p mem).2
  · next absent => exact (cleared.kept p absent).2

/-- The orders that stay are those of the other markets. -/
theorem Cleared.order?_eq_some (cleared : Cleared gone used s s') (wf : s.tables.WellFormed) :
    s'.order? k = some o ↔ s.order? k = some o ∧ o.pair ∉ gone := by
  have stored : s'.order? o.id = some o ↔ s.order? o.id = some o ∧ o.pair ∉ gone := by
    have mem : s'.order? o.id = some o ↔ o ∈ s'.tables.ordersOf o.pair :=
      (cleared.tables.mem_ordersOf.trans (and_iff_left rfl)).symm
    have mem' : s.order? o.id = some o ↔ o ∈ s.tables.ordersOf o.pair :=
      (wf.mem_ordersOf.trans (and_iff_left rfl)).symm
    rw [mem, mem']
    by_cases left : o.pair ∈ gone
    · simp [(cleared.removed o.pair left).1, left]
    · simp [(cleared.kept o.pair left).1, left]
  constructor
  · intro found
    obtain rfl := cleared.tables.order_id k o found
    exact stored.1 found
  · rintro ⟨found, stays⟩
    obtain rfl := wf.order_id k o found
    exact stored.2 ⟨found, stays⟩

section Removing

theorem cancel_of_found (found : s.order? k = some o) (reason : CancelReason) (base : Denom) :
    s.cancel k reason base = .ok (({ o.released with status := reason.status }, o.releases base),
      s.write (.order k (some o)) (s.tables.eraseOrder k)) :=
  Check.bind_ok.2 ⟨_, removeOrder_ok.2 ⟨found, rfl⟩, rfl⟩

/-- Stored orders expire one after the other. -/
theorem expireOrders_exact {l : List Order} (stored : ∀ o ∈ l, s.order? o.id = some o)
    (distinct : (l.map (·.id)).Nodup) (base : Denom) (sweep : Sweep) :
    ∃ s', expireOrders base sweep (l.map (·.id)) s = .ok (sweep.after base [] l) s' ∧
      s.tables.Aside s'.tables ∧
      ∀ k, s'.order? k = if k ∈ l.map (·.id) then none else s.order? k := by
  induction l generalizing s sweep with
  | nil => exact ⟨s, by rw [Sweep.after_nil]; rfl, .refl _, by simp⟩
  | cons o rest ih =>
      rw [List.map_cons, List.nodup_cons] at distinct
      have cancelled := cancel_of_found (stored o List.mem_cons_self) .delist base
      have erased : ∀ k, (s.write (.order o.id (some o)) (s.tables.eraseOrder o.id)).order? k =
          if o.id = k then none else s.order? k := by
        intro k
        rw [order?, write, Tables.eraseOrder_orders, Maps.getElem?_erase, order?]
      have still : ∀ x ∈ rest,
          (s.write (.order o.id (some o)) (s.tables.eraseOrder o.id)).order? x.id = some x := by
        intro x mem
        have other : o.id ≠ x.id := fun same => distinct.1 (same ▸ List.mem_map_of_mem mem)
        rw [erased, if_neg other]
        exact stored x (.tail o mem)
      obtain ⟨s', run, aside, left⟩ := ih still distinct.2 (sweep.after base [] [o])
      refine ⟨s', Action.bind_ok.2 ⟨_, _, Action.take_ok.2 cancelled, ?_⟩,
        (Tables.aside_eraseOrder _ _).trans aside, fun k => ?_⟩
      · have next : sweep.after base [] (o :: rest) =
            (sweep.after base [] [o]).after base [] rest := by
          rw [Sweep.after_after]
          rfl
        rw [next, ← run]
        simp [Sweep.after, Order.expired, CancelReason.status]
      · rw [left, erased, List.map_cons]
        by_cases same : o.id = k
        · simp [same]
        · simp [same, Ne.symm same]

/-- Without the orders of one market, the others have theirs. -/
theorem ordersOf_of_expired (wf : s.tables.WellFormed) (wf' : s'.tables.WellFormed)
    (left : ∀ k, s'.order? k =
      if k ∈ (s.tables.ordersOf p).map (·.id) then none else s.order? k) :
    s'.tables.ordersOf p = [] ∧ ∀ q ≠ p, s'.tables.ordersOf q = s.tables.ordersOf q := by
  constructor
  · refine List.eq_nil_iff_forall_not_mem.2 fun o mem => ?_
    obtain ⟨found, market⟩ := wf'.mem_ordersOf.1 mem
    have found : s'.order? o.id = some o := found
    rw [left] at found
    split at found
    · cases found
    · next absent => exact absent (List.mem_map_of_mem (wf.mem_ordersOf.2 ⟨found, market⟩))
  · intro q other
    refine wf.ordersOf_eq wf' fun o market => ?_
    have kept := left o.id
    rw [order?, order?] at kept
    rw [kept]
    split
    · next mem =>
        refine ⟨fun gone => absurd gone (Option.some_ne_none o).symm,
          fun found => absurd ?_ other⟩
        obtain ⟨x, mem, id⟩ := List.mem_map.1 mem
        obtain ⟨found', market'⟩ := wf.mem_ordersOf.1 mem
        rw [show x.id = o.id from id, found] at found'
        obtain rfl := Option.some.inj found'
        exact market.symm.trans market'
    · exact Iff.rfl

/-- A market leaves with its orders. -/
theorem delist_exact (wf : s.tables.WellFormed) (base : Denom) (sweep : Sweep) (p : PairId) :
    ∃ s', delist base sweep p s = .ok (sweep.after base [p] (s.tables.ordersOf p)) s' ∧
      Cleared [p] [] s s' := by
  obtain ⟨t, expired, aside, left⟩ := expireOrders_exact (l := s.tables.ordersOf p)
    (fun o mem => (wf.mem_ordersOf.1 mem).1) (wf.nodup_ordersOf p) base sweep
  have wft : t.tables.WellFormed := ((upkeep_extends.expireOrders _ _).ok expired wf).1
  obtain ⟨bare, others⟩ := ordersOf_of_expired wf wft left
  obtain ⟨out, s', removal⟩ := removePair_total (wft.indexed_eq_empty bare)
  have wf' : s'.tables.WellFormed := (removePair_extends removal wft).1
  obtain ⟨-, orders, usedIds, pairs⟩ := removePair_ok removal
  have same : ∀ q, s'.tables.ordersOf q = t.tables.ordersOf q := fun q =>
    wft.ordersOf_eq wf' fun o _ => by rw [orders]
  have listed : ∀ q, s'.pair? q = if p = q then none else s.pair? q := fun q => by
    rw [pair?, pairs, Maps.getElem?_erase, aside.pairs, pair?]
  refine ⟨s', Action.bind_ok.2 ⟨s, s, rfl, Action.bind_ok.2 ⟨_, t, expired,
    Action.bind_ok.2 ⟨out, s', Action.take_ok.2 removal, ?_⟩⟩⟩, wf', fun q other => ?_,
    fun q mem => ?_, fun r => ?_, usedIds.trans aside.usedIds⟩
  · simp [Sweep.after, pure, EStateM.pure]
  · have other : q ≠ p := by simpa using other
    exact ⟨(same q).trans (others q other), by rw [listed, if_neg other.symm]⟩
  · obtain rfl := List.mem_singleton.1 mem
    exact ⟨(same q).trans bare, by rw [listed, if_pos rfl]⟩
  · rw [removePair_delists removal, aside.delists, List.mem_singleton]
    simp

theorem removeDelist_cleared (wf : s.tables.WellFormed) (r : DelistRequest) :
    Cleared [] [r] s (s.removeDelist r).2 := by
  have wf' := (removeDelist_extends s r wf).1
  refine ⟨wf', fun p _ => ?_, by simp, fun k => ?_, ?_⟩
  · rw [pair?, removeDelist_tables]
    exact ⟨rfl, rfl⟩
  · rw [removeDelist_tables, Std.ExtTreeSet.mem_erase, Ne, Std.LawfulEqCmp.compare_eq_iff_eq,
      List.mem_singleton, eq_comm]
    simp [and_comm]
  · rw [removeDelist_tables]

/-- The listed markets that the requests name, each once, by their first requests. -/
def departing (s : Store) (requests : List DelistRequest) : List PairId :=
  ((requests.map (·.pair)).filter fun p => s.hasPair p).eraseDups

/-- What is left to depart after some markets were removed. -/
theorem Cleared.departing_eq (cleared : Cleared gone used s s') (rest : List DelistRequest) :
    s'.departing rest =
      ((rest.map (·.pair)).filter fun p => s.hasPair p && decide (p ∉ gone)).eraseDups := by
  rw [departing]
  congr 2
  funext p
  rw [hasPair_eq, hasPair_eq, cleared.pair?_eq]
  by_cases left : p ∈ gone <;> simp [left]

theorem departing_cons_of_listed (listed : s.hasPair r.pair) (cleared : Cleared [r.pair] used s s')
    (rest : List DelistRequest) : s.departing (r :: rest) = r.pair :: s'.departing rest := by
  rw [cleared.departing_eq, departing, List.map_cons, List.filter_cons_of_pos listed,
    List.eraseDups_cons, List.filter_filter]
  congr 3
  funext p
  rw [Bool.and_comm]
  by_cases same : p = r.pair <;> simp [same]

theorem departing_cons_of_gone (gone : ¬s.hasPair r.pair) (rest : List DelistRequest) :
    s.departing (r :: rest) = s.departing rest := by
  rw [departing, List.map_cons, List.filter_cons_of_neg gone, departing]

theorem mem_departing {requests : List DelistRequest} :
    p ∈ s.departing requests ↔ s.hasPair p ∧ ∃ r ∈ requests, r.pair = p := by
  rw [departing, List.mem_eraseDups, List.mem_filter, List.mem_map, and_comm]

/-- What departs later has the orders that it had. -/
theorem Cleared.flatMap_ordersOf (cleared : Cleared gone used s s')
    (requests : List DelistRequest) :
    (s'.departing requests).flatMap s'.tables.ordersOf =
      (s'.departing requests).flatMap s.tables.ordersOf := by
  refine List.flatMap_congr fun p mem => ?_
  have here := (mem_departing.1 mem).1
  have stays : p ∉ gone := fun left => by
    rw [hasPair_eq, (cleared.removed p left).2] at here
    cases here
  rw [(cleared.kept p stays).1]

/-- Requests are carried out in turn: a market leaves with the first that names it. -/
theorem carryOut_exact (wf : s.tables.WellFormed) (base : Denom) (sweep : Sweep)
    (requests : List DelistRequest) :
    ∃ s', carryOut base sweep requests s =
        .ok (sweep.after base (s.departing requests)
          ((s.departing requests).flatMap s.tables.ordersOf)) s' ∧
      Cleared (s.departing requests) requests s s' := by
  induction requests generalizing s sweep with
  | nil => exact ⟨s, congrArg (EStateM.Result.ok · s) Sweep.after_nil.symm, .refl wf⟩
  | cons r rest ih =>
      -- The request is used up and the rest carried out, whether or not its market was there.
      have used : ∀ {sweep₁ gone t}, Cleared gone [] s t → ∃ s', (do
            modify fun s => (s.removeDelist r).2
            carryOut base sweep₁ rest : Action Store Sweep) t =
              .ok (sweep₁.after base (t.departing rest)
                ((t.departing rest).flatMap s.tables.ordersOf)) s' ∧
            Cleared (gone ++ t.departing rest) (r :: rest) s s' := by
        intro sweep₁ gone t cleared
        have noted := removeDelist_cleared cleared.tables r
        have same : (t.removeDelist r).2.departing rest = t.departing rest := by
          rw [noted.departing_eq, departing]
          simp
        have cleared := cleared.append noted
        obtain ⟨s', run, cleared'⟩ := ih noted.tables sweep₁
        rw [cleared.flatMap_ordersOf] at run
        rw [same] at run cleared'
        refine ⟨s', Action.bind_ok.2 ⟨⟨⟩, _, Action.modify_ok.2 rfl, run⟩, ?_⟩
        simpa using cleared.append cleared'
      by_cases listed : s.hasPair r.pair
      · obtain ⟨t, first, cleared⟩ := delist_exact wf base sweep r.pair
        obtain ⟨s', later, cleared'⟩ := used cleared
        rw [departing_cons_of_listed listed cleared]
        refine ⟨s', Action.bind_ok.2 ⟨s, s, rfl, ?_⟩, cleared'⟩
        rw [Sweep.after_after] at later
        simp only [listed, ↓reduceIte]
        exact Action.bind_ok.2 ⟨_, t, first, later⟩
      · obtain ⟨s', run, cleared⟩ := used (.refl wf)
        rw [departing_cons_of_gone listed]
        refine ⟨s', Action.bind_ok.2 ⟨s, s, rfl, ?_⟩, cleared⟩
        simp only [listed]
        exact Action.bind_ok.2 ⟨sweep, s, rfl, run⟩

end Removing

section Order

/-- The first of the requests that name the market. -/
def Earliest (s : Store) (p : PairId) (r : DelistRequest) : Prop :=
  r ∈ s.tables.delists ∧ r.pair = p ∧
    ∀ r' ∈ s.tables.delists, r'.pair = p → (compare r r').isLE

theorem Earliest.unique {r' : DelistRequest} (first : s.Earliest p r) (first' : s.Earliest p r') :
    ¬compare r r' = .lt := fun less =>
  Std.OrientedCmp.not_isLE_of_lt less (first'.2.2 r first.1 first.2.1)

/-- In ascending requests, the first ones of their markets name these once. -/
theorem exists_leads {l : List DelistRequest} (sorted : l.Pairwise fun r r' => compare r r' = .lt)
    (P : PairId → Bool) :
    ∃ leads : List DelistRequest, leads.Sublist l ∧
      leads.map (·.pair) = ((l.map (·.pair)).filter P).eraseDups ∧
      ∀ r ∈ leads, ∀ r' ∈ l, r'.pair = r.pair → (compare r r').isLE := by
  induction l generalizing P with
  | nil => exact ⟨[], .refl _, rfl, by simp⟩
  | cons r rest ih =>
      obtain ⟨below, sorted⟩ := List.pairwise_cons.1 sorted
      rw [List.map_cons]
      by_cases holds : P r.pair
      · -- The later requests for the market of the first are passed over.
        obtain ⟨leads, sub, names, first⟩ := ih sorted fun p => P p && !p == r.pair
        refine ⟨r :: leads, sub.cons_cons r, ?_, fun x mem x' mem' same => ?_⟩
        · rw [List.filter_cons_of_pos holds, List.eraseDups_cons, List.filter_filter, List.map_cons,
            names]
          simp only [Bool.and_comm]
        · obtain rfl | mem := List.mem_cons.1 mem
          · obtain rfl | mem' := List.mem_cons.1 mem'
            · exact Ordering.isLE_of_eq_eq Std.ReflCmp.compare_self
            · exact Ordering.isLE_of_eq_lt (below x' mem')
          · have kept : x.pair ∈ ((rest.map (·.pair)).filter
                fun p => P p && !p == r.pair).eraseDups := names ▸ List.mem_map_of_mem mem
            rw [List.mem_eraseDups, List.mem_filter] at kept
            obtain rfl | mem' := List.mem_cons.1 mem'
            · simp [same] at kept
            · exact first x mem x' mem' same
      · obtain ⟨leads, sub, names, first⟩ := ih sorted P
        refine ⟨leads, sub.cons r, ?_, fun x mem x' mem' same => ?_⟩
        · rw [List.filter_cons_of_neg holds, names]
        · have kept : x.pair ∈ ((rest.map (·.pair)).filter P).eraseDups :=
            names ▸ List.mem_map_of_mem mem
          rw [List.mem_eraseDups, List.mem_filter] at kept
          obtain rfl | mem' := List.mem_cons.1 mem'
          · exact absurd (same ▸ kept.2) holds
          · exact first x mem x' mem' same

/-- Markets depart in the order of their earliest requests. -/
theorem departing_ordered (s : Store) (now : Int) :
    (s.departing (s.tables.dueDelists now)).Pairwise fun p q =>
      ∃ r r', s.Earliest p r ∧ s.Earliest q r' ∧ compare r r' = .lt := by
  have sorted : s.tables.delists.toList.Pairwise fun r r' => compare r r' = .lt :=
    s.tables.delists.ordered_toList
  -- Those that are not due come after those that are.
  obtain ⟨due, -, later⟩ : (s.tables.dueDelists now).Pairwise (fun r r' => compare r r' = .lt) ∧
      _ ∧ ∀ r ∈ s.tables.dueDelists now, ∀ r' ∈ s.tables.delists.toList.dropWhile fun r =>
        r.isDue now, compare r r' = .lt := by
    rw [Tables.dueDelists, ← List.pairwise_append, List.takeWhile_append_dropWhile]
    exact sorted
  obtain ⟨leads, sub, names, first⟩ := exists_leads due fun p => s.hasPair p
  have earliest : ∀ r ∈ leads, s.Earliest r.pair r := by
    intro r mem
    have isDue := sub.subset mem
    refine ⟨(Tables.mem_dueDelists.1 isDue).1, rfl, fun r' mem' same => ?_⟩
    rw [← Std.ExtTreeSet.mem_toList,
      ← List.takeWhile_append_dropWhile (l := s.tables.delists.toList) (p := fun r => r.isDue now),
      List.mem_append] at mem'
    obtain mem' | mem' := mem'
    · exact first r mem r' mem' same
    · exact Ordering.isLE_of_eq_lt (later r isDue r' mem')
  rw [departing, ← names, List.pairwise_map]
  exact (due.sublist sub).imp_of_mem fun mem mem' less =>
    ⟨_, _, earliest _ mem, earliest _ mem', less⟩

theorem nodup_departing (s : Store) (now : Int) :
    (s.departing (s.tables.dueDelists now)).Nodup := by
  refine (s.departing_ordered now).imp ?_
  rintro p _ ⟨r, r', first, first', less⟩ rfl
  exact first.unique first' less

end Order

section Exact

/-- The market is listed, and some request that names it is due. -/
def Doomed (s : Store) (now : Int) (p : PairId) : Prop :=
  (s.pair? p).isSome ∧ ∃ r ∈ s.tables.delists, r.pair = p ∧ r.effectiveTime ≤ now

/-- What is left of a store by a sweep. -/
structure Purged (now : Int) (s s' : Store) : Prop where
  pairs : ∀ p q, s'.pair? p = some q ↔ s.pair? p = some q ∧ ¬s.Doomed now p
  orders : ∀ k o, s'.order? k = some o ↔ s.order? k = some o ∧ ¬s.Doomed now o.pair
  requests : ∀ r, r ∈ s'.tables.delists ↔
    r ∈ s.tables.delists ∧ ¬r.effectiveTime ≤ now ∧ ¬s.Doomed now r.pair
  usedIds : s'.tables.usedIds = s.tables.usedIds

/-- What is reported of a sweep: the markets that left, by their earliest requests, their orders,
and the return of what these held. -/
structure Reported (now : Int) (base : Denom) (s : Store) (sweep : Sweep) : Prop where
  delisted : ∀ p, p ∈ sweep.delisted ↔ s.Doomed now p
  once : sweep.delisted.Nodup
  ordered : sweep.delisted.Pairwise fun p q =>
    ∃ r r', s.Earliest p r ∧ s.Earliest q r' ∧ compare r r' = .lt
  cancelled : sweep.cancelled.Perm
    ((s.resting.filter fun o => o.pair ∈ sweep.delisted).map Order.expired)
  returns : ∀ e ∈ sweep.effects, ∃ owner coin, e = .unfreeze owner coin
  returned : ∀ x d, Effect.unfreezes sweep.effects x d =
    Order.escrow (s.resting.filter fun o => o.pair ∈ sweep.delisted) base x d

theorem mem_departing_due :
    p ∈ s.departing (s.tables.dueDelists now) ↔ s.Doomed now p := by
  rw [mem_departing, hasPair_eq, Doomed]
  simp only [Tables.mem_dueDelists, DelistRequest.isDue, decide_eq_true_eq]
  refine and_congr_right fun _ => exists_congr fun r => ?_
  tauto

/-- The orders of some markets, one market after the other. -/
theorem perm_flatMap_ordersOf (wf : s.tables.WellFormed) (distinct : gone.Nodup) :
    (gone.flatMap s.tables.ordersOf).Perm (s.resting.filter fun o => o.pair ∈ gone) := by
  have apart : (gone.flatMap s.tables.ordersOf).Nodup := by
    refine List.nodup_flatMap.2 ⟨fun p _ => .of_map _ (wf.nodup_ordersOf p), ?_⟩
    refine distinct.imp fun {p q} ne o mem mem' => ne ?_
    exact (wf.mem_ordersOf.1 mem).2.symm.trans (wf.mem_ordersOf.1 mem').2
  refine (List.perm_ext_iff_of_nodup apart ((List.Nodup.of_map _ (nodup_resting wf)).filter _)).2
    fun o => ?_
  rw [List.mem_flatMap, List.mem_filter, mem_resting wf, decide_eq_true_eq]
  constructor
  · rintro ⟨p, mem, own⟩
    obtain ⟨found, rfl⟩ := wf.mem_ordersOf.1 own
    exact ⟨found, mem⟩
  · rintro ⟨found, mem⟩
    exact ⟨o.pair, mem, wf.mem_ordersOf.2 ⟨found, rfl⟩⟩

/-- What the release of orders returns is what they held. -/
theorem unfreezes_releases (orders : List Order) (base : Denom) (x : Address) (d : Denom) :
    Effect.unfreezes (orders.flatMap fun o => o.releases base) x d =
      Order.escrow orders base x d := by
  induction orders with
  | nil => rfl
  | cons o rest ih =>
      rw [List.flatMap_cons, Effect.unfreezes_append, ih, Order.escrow_cons,
        Effect.unfreezes_of_releases Effect.releases_unfreeze, Order.debits_releases]

theorem reported_after (wf : s.tables.WellFormed) (now : Int) (base : Denom) :
    Reported now base s (({} : Sweep).after base (s.departing (s.tables.dueDelists now))
      ((s.departing (s.tables.dueDelists now)).flatMap s.tables.ordersOf)) := by
  have distinct := s.nodup_departing now
  have left := perm_flatMap_ordersOf wf distinct
  refine ⟨fun p => ?_, ?_, ?_, ?_, ?_, fun x d => ?_⟩ <;>
    simp only [Sweep.after, List.nil_append]
  · exact mem_departing_due
  · exact distinct
  · exact s.departing_ordered now
  · exact left.map Order.expired
  · intro e mem
    obtain ⟨o, -, mem⟩ := List.mem_flatMap.1 mem
    exact Effect.releases_unfreeze e mem
  · exact (unfreezes_releases _ base x d).trans (Order.escrow_perm left)

/-- Nothing is done if no request is due. -/
theorem sweepDue_idle (none : s.tables.dueDelists now = []) (base : Denom) :
    sweepDue now base s = .ok {} s := by
  refine Action.bind_ok.2 ⟨s, s, rfl, ?_⟩
  rw [none]
  rfl

/-- A sweep never fails. -/
theorem sweepDue_exact (wf : s.tables.WellFormed) (now : Int) (base : Denom) :
    ∃ sweep s', sweepDue now base s = .ok sweep s' ∧
      Cleared sweep.delisted (s.tables.dueDelists now) s s' ∧ Reported now base s sweep := by
  obtain ⟨s', run, cleared⟩ := carryOut_exact wf base {} (s.tables.dueDelists now)
  refine ⟨_, s', Action.bind_ok.2 ⟨s, s, rfl, run⟩, ?_, reported_after wf now base⟩
  rwa [Sweep.after, List.nil_append]

theorem Cleared.purged (cleared : Cleared gone (s.tables.dueDelists now) s s')
    (wf : s.tables.WellFormed) (left : ∀ p, p ∈ gone ↔ s.Doomed now p) : Purged now s s' where
  pairs p q := by
    rw [cleared.pair?_eq, ← left]
    split
    · next left => simp [left]
    · next stays => simp [stays]
  orders k o := by rw [cleared.order?_eq_some wf, left]
  requests r := by
    rw [cleared.requests, left, Tables.mem_dueDelists, DelistRequest.isDue, decide_eq_true_eq]
    tauto
  usedIds := cleared.usedIds

theorem sweepDue_ok (wf : s.tables.WellFormed) (run : sweepDue now base s = .ok sweep s') :
    Cleared sweep.delisted (s.tables.dueDelists now) s s' ∧ Reported now base s sweep := by
  obtain ⟨sweep', s'', run', exact⟩ := sweepDue_exact wf now base
  obtain ⟨rfl, rfl⟩ := EStateM.Result.ok.inj (run.symm.trans run')
  exact exact

/-- Afterwards no request is due, now or before. -/
theorem Purged.dueDelists (purged : Purged now s s') {now' : Int} (le : now' ≤ now) :
    s'.tables.dueDelists now' = [] := by
  refine List.eq_nil_iff_forall_not_mem.2 fun r mem => ?_
  obtain ⟨mem, due⟩ := Tables.mem_dueDelists.1 mem
  exact ((purged.requests r).1 mem).2.1 ((of_decide_eq_true due).trans le)

/-- A sweep never fails. It removes exactly the markets with due requests, and what names them, and
a second sweep at a time that is not later finds nothing to do. -/
theorem sweep_exact (reachable : s.Reachable) (now : Int) (base : Denom) :
    ∃ sweep s', sweepDue now base s = .ok sweep s' ∧ Purged now s s' ∧
      Reported now base s sweep ∧
      ∀ now' ≤ now, ∀ base', sweepDue now' base' s' = .ok {} s' := by
  have wf := reachable.sound.tables
  obtain ⟨sweep, s', run, cleared, reported⟩ := sweepDue_exact wf now base
  have purged := cleared.purged wf reported.delisted
  exact ⟨sweep, s', run, purged, reported, fun now' le base' =>
    sweepDue_idle (purged.dueDelists le) base'⟩

section Crowded

/-- A sell in one market and a buy in another. -/
def stockOffer : Order where
  id := ⟨"a-1-0"⟩
  sender := ⟨"a"⟩
  sequence := 1
  pair := ⟨"btc/cet"⟩
  side := .sell
  kind := .limit
  timeInForce := .goodTillExpire
  price := 5
  precision := 0
  quantity := 7
  remaining := 7
  frozenFee := 1
  frozenPrincipal := 7
  dealStock := 0
  dealMoney := 0
  height := 1
  status := .opened

def etherBid : Order :=
  { stockOffer with
    id := ⟨"b-1-0"⟩, sender := ⟨"b"⟩, pair := ⟨"eth/cet"⟩, side := .buy, frozenPrincipal := 35 }

/-- Two markets with an order each. The first has a request that is due at 12 and one that is not,
the second one that is not, and a due one is for a market that is not there. -/
def crowded : Store :=
  let btc : Pair := ⟨"btc", "cet", ⟨"a"⟩, 0, .zero, 1, 0⟩
  let s := ((({} : Store).setPair btc).setPair { btc with stock := "eth" })
  let s := [stockOffer, etherBid].foldl
    (fun s o => (s.write (.idUsed o.id) (s.tables.useId o.id)).write (.order o.id none)
      ((s.tables.useId o.id).insertOrder o)) s
  [⟨20, ⟨"btc/cet"⟩⟩, ⟨10, ⟨"btc/cet"⟩⟩, ⟨15, ⟨"eth/cet"⟩⟩, ⟨11, ⟨"ltc/cet"⟩⟩].foldl
    (fun s r => (s.putDelist r).2) s

theorem crowded_reachable : crowded.Reachable := by
  have listed := Reachable.write
    (.write .empty (.setPair {} ⟨"btc", "cet", ⟨"a"⟩, 0, .zero, 1, 0⟩))
    (.setPair _ ⟨"eth", "cet", ⟨"a"⟩, 0, .zero, 1, 0⟩)
  have placed := Reachable.write (.write listed (.putOrder (o := stockOffer)
    (putOrder_ok.2 ⟨by decide, by decide, rfl⟩))) (.putOrder (o := etherBid)
    (putOrder_ok.2 ⟨by decide, by decide, rfl⟩))
  exact .write (.write (.write (.write placed (.putDelist _ _)) (.putDelist _ _))
    (.putDelist _ _)) (.putDelist _ _)

/-- The first market leaves with both its requests, and the second stays with its order. -/
theorem crowded_swept : ∃ sweep s', sweepDue 12 "cet" crowded = .ok sweep s' ∧
    (⟨"btc/cet"⟩ ∈ sweep.delisted ∧ ⟨"eth/cet"⟩ ∉ sweep.delisted) ∧
    (⟨20, ⟨"btc/cet"⟩⟩ ∉ s'.tables.delists ∧ ⟨15, ⟨"eth/cet"⟩⟩ ∈ s'.tables.delists) ∧
    s'.order? etherBid.id = some etherBid ∧ sweepDue 12 "cet" s' = .ok {} s' := by
  obtain ⟨sweep, s', run, purged, reported, again⟩ := sweep_exact crowded_reachable 12 "cet"
  have first : crowded.Doomed 12 ⟨"btc/cet"⟩ :=
    ⟨by decide +kernel, ⟨10, ⟨"btc/cet"⟩⟩, by decide +kernel, rfl, by decide⟩
  have second : ¬crowded.Doomed 12 ⟨"eth/cet"⟩ := by
    rintro ⟨-, r, mem, same, due⟩
    have late : ∀ r ∈ crowded.tables.delists.toList, r.pair = ⟨"eth/cet"⟩ →
        ¬r.effectiveTime ≤ 12 := by decide +kernel
    exact late r (Std.ExtTreeSet.mem_toList.2 mem) same due
  refine ⟨sweep, s', run, ⟨(reported.delisted _).2 first, fun mem => second
    ((reported.delisted _).1 mem)⟩, ⟨fun mem => ?_, (purged.requests _).2 ⟨?_, by decide, second⟩⟩,
    (purged.orders _ _).2 ⟨by decide +kernel, second⟩, again 12 (le_refl 12) "cet"⟩
  · exact ((purged.requests _).1 mem).2.2 first
  · decide +kernel

end Crowded

end Exact

end Store

end Bourse
