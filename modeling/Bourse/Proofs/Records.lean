import Bourse.Proofs.BlockEnd
import Bourse.Proofs.Placement
import Bourse.Proofs.Soundness
import Bourse.Proofs.Tally

/-!
# What each step does to the stored orders

An order that rests is copied into a book, changed there and written back, or it is removed.

* `Accounted`: every order left is an earlier one after the trades between, and every other order
  was filled by them or removed; steps add up (`Accounted.trans`), and orders may stand beside
  (`Accounted.frame`);
* `matchPairs_accounted`, `takeOnce_accounted`, `cancel_accounted`, `Cleared.accounted`: so it is
  for each way in which orders change;
* `Intact.accounted`: and for every input of a market.
-/

namespace Bourse

/-- Trades took the orders of `start` to those left, but for some that were removed. -/
structure Accounted [Build] (start left : List Order) (trades : List Trade)
    (removed : Order → Prop) : Prop where
  kept : ∀ o' ∈ left, o'.remaining ≠ 0 ∧ ∃ o ∈ start, o' = o.after trades
  ended : ∀ o ∈ start, (∃ o' ∈ left, o'.id = o.id) ∨ (o.after trades).remaining = 0 ∨ removed o
  gone : ∀ o ∈ start, removed o → ∀ o' ∈ left, o'.id ≠ o.id
  fits : ∀ o ∈ start, Trade.stockOf trades o.id ≤ o.remaining
  counts : ∀ o ∈ start, o.Counts trades
  names : ∀ t ∈ trades, ∀ k, t.Names k → ∃ o ∈ start, o.id = k
  moving : ∀ t ∈ trades, t.quantity ≠ 0

namespace Accounted

variable [Build] {start mid left all after : List Order} {trades more : List Trade}
  {removed removed' : Order → Prop} {o o₀ : Order}

/-- Some orders are removed, and there is no trade. -/
theorem of_subset (unfilled : ∀ o ∈ start, o.remaining ≠ 0) (distinct : (start.map (·.id)).Nodup)
    (stays : ∀ o, o ∈ left ↔ o ∈ start ∧ ¬removed o) : Accounted start left [] removed where
  kept o mem := ⟨unfilled o ((stays o).1 mem).1, o, ((stays o).1 mem).1, rfl⟩
  ended o mem := by
    by_cases gone : removed o
    · exact .inr (.inr gone)
    · exact .inl ⟨o, (stays o).2 ⟨mem, gone⟩, rfl⟩
  gone o mem gone o' mem' same := by
    obtain ⟨there, stays⟩ := (stays o').1 mem'
    exact stays (List.inj_on_of_nodup_map distinct there mem same ▸ gone)
  fits _ _ := Nat.zero_le _
  counts _ _ := Order.counts_of_idle (by simp)
  names := by simp
  moving := by simp

theorem refl (unfilled : ∀ o ∈ start, o.remaining ≠ 0) :
    Accounted start start [] fun _ => False where
  kept o mem := ⟨unfilled o mem, o, mem, rfl⟩
  ended o mem := .inl ⟨o, mem, rfl⟩
  gone _ _ gone := gone.elim
  fits _ _ := Nat.zero_le _
  counts _ _ := Order.counts_of_idle (by simp)
  names := by simp
  moving := by simp

theorem mono (accounted : Accounted start left trades removed)
    (same : ∀ o ∈ start, removed o ↔ removed' o) : Accounted start left trades removed' where
  kept := accounted.kept
  ended o mem := (accounted.ended o mem).imp_right (.imp_right (same o mem).1)
  gone o mem gone := accounted.gone o mem ((same o mem).2 gone)
  fits := accounted.fits
  counts := accounted.counts
  names := accounted.names
  moving := accounted.moving

/-- Trades name no other order. -/
theorem idle (accounted : Accounted start left trades removed)
    (absent : ∀ o' ∈ start, o'.id ≠ o.id) : ∀ t ∈ trades, ¬t.Names o.id := by
  intro t mem named
  obtain ⟨o', mem', same⟩ := accounted.names t mem o.id named
  exact absent o' mem' same

theorem words (accounted : Accounted start left trades removed)
    (words : ∀ o ∈ start, o.remaining < Word.size) : ∀ o ∈ left, o.remaining < Word.size := by
  intro o mem
  obtain ⟨-, o₀, mem₀, rfl⟩ := accounted.kept o mem
  have word := words o₀ mem₀
  have := Order.remaining_after (accounted.fits o₀ mem₀) word
  omega

section Distinct

variable (accounted : Accounted start mid trades removed) (distinct : (start.map (·.id)).Nodup)

include accounted distinct

/-- What is left under an id is the earlier order of that id after the trades. -/
theorem eq_after (mem : o ∈ mid) (mem₀ : o₀ ∈ start) (same : o.id = o₀.id) :
    o = o₀.after trades := by
  obtain ⟨-, o₁, mem₁, rfl⟩ := accounted.kept o mem
  rw [List.inj_on_of_nodup_map distinct mem₁ mem₀ (Order.id_after.symm.trans same)]

/-- An order is left, or what comes later does not name it. -/
theorem left_or_idle (second : Accounted mid left more removed') (mem : o ∈ start) :
    o.after trades ∈ mid ∨
      (∀ o' ∈ mid, o'.id ≠ o.id) ∧ ∀ t ∈ more, ¬t.Names (o.after trades).id := by
  by_cases there : ∃ o' ∈ mid, o'.id = o.id
  · obtain ⟨o', mem', same⟩ := there
    exact .inl (accounted.eq_after distinct mem' mem same ▸ mem')
  · have absent : ∀ o' ∈ mid, o'.id ≠ o.id := fun o' mem' same => there ⟨o', mem', same⟩
    rw [Order.id_after]
    exact .inr ⟨absent, second.idle absent⟩

/-- One step after the other. -/
theorem trans (second : Accounted mid left more removed')
    (words : ∀ o ∈ start, o.remaining < Word.size) :
    Accounted start left (trades ++ more) fun o => removed o ∨ removed' (o.after trades) where
  kept o' mem := by
    obtain ⟨unfilled, o₁, mem₁, rfl⟩ := second.kept o' mem
    obtain ⟨-, o, here, rfl⟩ := accounted.kept o₁ mem₁
    exact ⟨unfilled, o, here, Order.after_append.symm⟩
  ended o mem := by
    rw [Order.after_append]
    obtain still | ⟨absent, idle⟩ := accounted.left_or_idle distinct second mem
    · have ended := second.ended _ still
      rw [Order.id_after] at ended
      exact ended.imp_right (.imp_right .inr)
    · rw [Order.after_of_idle idle]
      obtain ⟨o', mem', same⟩ | filled | gone := accounted.ended o mem
      · exact absurd same (absent o' mem')
      · exact .inr (.inl filled)
      · exact .inr (.inr (.inl gone))
  gone o mem gone o' mem' same := by
    obtain ⟨-, o₁, mem₁, rfl⟩ := second.kept o' mem'
    rw [Order.id_after] at same
    obtain gone | gone := gone
    · exact accounted.gone o mem gone o₁ mem₁ same
    · obtain rfl := accounted.eq_after distinct mem₁ mem same
      exact second.gone _ mem₁ gone _ mem' Order.id_after
  fits o mem := by
    refine Order.fits_append (accounted.fits o mem) (words o mem) ?_
    obtain still | ⟨-, idle⟩ := accounted.left_or_idle distinct second mem
    · exact Order.id_after ▸ second.fits _ still
    · rw [Order.id_after] at idle
      rw [Trade.stockOf, Trade.sumOf_of_idle idle]
      exact Nat.zero_le _
  counts o mem := by
    refine (accounted.counts o mem).append ?_
    obtain still | ⟨-, idle⟩ := accounted.left_or_idle distinct second mem
    · exact second.counts _ still
    · exact Order.counts_of_idle idle
  names t mem k named := by
    obtain mem | mem := List.mem_append.1 mem
    · exact accounted.names t mem k named
    · obtain ⟨o₁, mem₁, rfl⟩ := second.names t mem k named
      obtain ⟨-, o, mem, rfl⟩ := accounted.kept o₁ mem₁
      exact ⟨o, mem, Order.id_after.symm⟩
  moving t mem := (List.mem_append.1 mem).elim (accounted.moving t) (second.moving t)

end Distinct

/-- Other orders may stand beside. -/
theorem frame (accounted : Accounted start left trades removed)
    (distinct : (all.map (·.id)).Nodup) (unfilled : ∀ o ∈ all, o.remaining ≠ 0)
    (subset : ∀ o ∈ start, o ∈ all)
    (beside : ∀ o, o ∈ after ↔ o ∈ left ∨ o ∈ all ∧ ∀ o' ∈ start, o'.id ≠ o.id) :
    Accounted all after trades fun o => o ∈ start ∧ removed o where
  kept o' mem := by
    obtain mem | ⟨mem, absent⟩ := (beside o').1 mem
    · obtain ⟨unfilled, o, mem, same⟩ := accounted.kept o' mem
      exact ⟨unfilled, o, subset o mem, same⟩
    · exact ⟨unfilled o' mem, o', mem, (Order.after_of_idle (accounted.idle absent)).symm⟩
  ended o mem := by
    by_cases inside : ∃ o' ∈ start, o'.id = o.id
    · obtain ⟨o', mem', same⟩ := inside
      obtain rfl := List.inj_on_of_nodup_map distinct (subset o' mem') mem same
      obtain ⟨o₁, still, same⟩ | filled | gone := accounted.ended o' mem'
      · exact .inl ⟨o₁, (beside o₁).2 (.inl still), same⟩
      · exact .inr (.inl filled)
      · exact .inr (.inr ⟨mem', gone⟩)
    · exact .inl ⟨o, (beside o).2 (.inr ⟨mem, fun o' mem' same => inside ⟨o', mem', same⟩⟩), rfl⟩
  gone o _ gone o' mem' same := by
    obtain ⟨here, gone⟩ := gone
    obtain still | ⟨-, absent⟩ := (beside o').1 mem'
    · exact accounted.gone o here gone o' still same
    · exact absent o here same.symm
  fits o mem := by
    by_cases inside : ∃ o' ∈ start, o'.id = o.id
    · obtain ⟨o', mem', same⟩ := inside
      obtain rfl := List.inj_on_of_nodup_map distinct (subset o' mem') mem same
      exact accounted.fits o' mem'
    · rw [Trade.stockOf, Trade.sumOf_of_idle
        (accounted.idle fun o' mem' same => inside ⟨o', mem', same⟩)]
      exact Nat.zero_le _
  counts o mem := by
    by_cases inside : ∃ o' ∈ start, o'.id = o.id
    · obtain ⟨o', mem', same⟩ := inside
      obtain rfl := List.inj_on_of_nodup_map distinct (subset o' mem') mem same
      exact accounted.counts o' mem'
    · exact Order.counts_of_idle
        (accounted.idle fun o' mem' same => inside ⟨o', mem', same⟩)
  names t mem k named := by
    obtain ⟨o, mem, same⟩ := accounted.names t mem k named
    exact ⟨o, subset o mem, same⟩
  moving := accounted.moving

end Accounted

theorem Drawn.names {start orders : List Order} {trades : List Trade}
    (drawn : Drawn start orders trades) :
    ∀ t ∈ trades, ∀ k, t.Names k → ∃ o ∈ start, o.id = k := by
  intro t mem k named
  obtain ⟨buyer, mem, seller, mem', between⟩ := drawn.parties t mem
  exact (between.names.1 named).elim (⟨buyer, mem, ·⟩) (⟨seller, mem', ·⟩)

namespace Pass

variable [Build] {b₀ : Book} {t : Order}

/-- What is left of the orders of a pass are those still open, but for some. -/
theorem Recording.accounted {start orders left : List Order} {p : Pass} {removed : Order → Prop}
    (recording : Recording start orders p) (distinct : (start.map (·.id)).Nodup)
    (names : ∀ t ∈ p.crossing.trades, ∀ k, t.Names k → ∃ o ∈ start, o.id = k)
    (stays : ∀ o, o ∈ left ↔ o ∈ orders ∧ o.remaining ≠ 0 ∧ ¬removed o)
    (lasting : ∀ o, removed (o.after p.crossing.trades) ↔ removed o) :
    Accounted start left p.crossing.trades removed where
  kept o mem := by
    obtain ⟨mem, unfilled, -⟩ := (stays o).1 mem
    exact ⟨unfilled, recording.origin mem unfilled⟩
  ended o mem := by
    by_cases filled : (o.after p.crossing.trades).remaining = 0
    · exact .inr (.inl filled)
    by_cases gone : removed o
    · exact .inr (.inr gone)
    have booked : o.after p.crossing.trades ∈ orders := by
      rw [← Fill.close_of_open filled]
      exact recording.orders.mem_iff.2 (List.mem_map_of_mem mem)
    exact .inl ⟨_, (stays _).2 ⟨booked, filled, mt (lasting o).1 gone⟩, Order.id_after⟩
  gone o mem gone o' mem' same := by
    obtain ⟨mem', unfilled, stays⟩ := (stays o').1 mem'
    obtain ⟨o₁, mem₁, rfl⟩ := recording.origin mem' unfilled
    obtain rfl := List.inj_on_of_nodup_map distinct mem₁ mem (Order.id_after.symm.trans same)
    exact stays ((lasting o₁).2 gone)
  fits := recording.fits
  counts := recording.counts
  names := names
  moving := recording.moving

/-- A pass over a book leaves the orders in it. -/
theorem resting_accounted (sound : b₀.Sound) (words : ∀ o ∈ b₀.all, o.remaining < Word.size)
    (v : Venue) (seq : Nat) : Accounted b₀.all (resting v seq b₀).book.all
      (resting v seq b₀).crossing.trades fun _ => False := by
  refine (resting_recording sound words v seq).accounted sound.ids
    (resting_trading sound v seq).drawn.names (fun o => ?_) fun _ => Iff.rfl
  rw [← (resting_from sound v seq).open_orders, List.mem_filter]
  simp [Order.isFilled]

/-- And a pass of an order over a book, which leaves with the pass. -/
theorem incoming_accounted (sound : b₀.Sound) (v : Venue) (seq : Nat) (pair : t.pair = b₀.pair)
    (unfilled : t.remaining ≠ 0) (distinct : ((t :: b₀.all).map (·.id)).Nodup)
    (words : ∀ o ∈ t :: b₀.all, o.remaining < Word.size) :
    Accounted (t :: b₀.all) (incoming v seq b₀ t).1.book.all (incoming v seq b₀ t).1.crossing.trades
      fun o => o.id = t.id := by
  have start := incoming_from sound v seq pair
  refine (incoming_recording sound v seq pair unfilled distinct words).accounted distinct
    (incoming_trading sound v seq pair distinct).drawn.names (fun o => ?_)
    fun o => by rw [Order.id_after]
  have away : ∀ o ∈ (incoming v seq b₀ t).1.book.all, o.id ≠ t.id := fun o mem same => by
    have known : o.id ∈ b₀.all.map (·.id) := start.known.2 (.inl (List.mem_map_of_mem mem))
    rw [same] at known
    exact (List.nodup_cons.1 distinct).1 known
  have taker := Order.id_of_terms (incoming_terms sound v seq pair)
  constructor
  · intro mem
    have booked := start.open_orders.symm ▸ mem
    obtain ⟨here, unfilled⟩ := List.mem_filter.1 booked
    exact ⟨.tail _ here, by simpa [Order.isFilled] using unfilled, away o mem⟩
  · rintro ⟨mem, unfilled, other⟩
    obtain rfl | mem := List.mem_cons.1 mem
    · exact absurd taker other
    · rw [← start.open_orders, List.mem_filter]
      exact ⟨mem, by simpa [Order.isFilled] using unfilled⟩

end Pass

namespace Store

variable [Build] {s s' : Store} {v : Venue} {seq seq' : Nat} {pair : PairId} {base : Denom}

section Matching

variable (wf : s.tables.WellFormed) (unfilled : ∀ o ∈ s.resting, o.remaining ≠ 0)
  (words : ∀ o ∈ s.resting, o.remaining < Word.size)

include wf unfilled words

/-- What the matching of a market does to the stored orders. -/
theorem matchPair_accounted {c : Crossing} (run : matchPair v seq pair s = .ok (c, seq') s') :
    Accounted s.resting s'.resting c.trades fun _ => False := by
  have wf' := ((upkeep_extends.matchPair v seq pair).ok run wf).1
  obtain ⟨b₀, load, rfl, -, written⟩ := matchPair_ok run
  have sound := (Book.ofOrders_ok load).1
  have booked := loaded_resting wf load
  have passed := Pass.resting_accounted sound (fun o mem => words o (booked o mem)) v seq
  obtain ⟨bare, rfl⟩ | ⟨-, written⟩ := written
  · rw [show (Pass.resting v seq b₀).finish.trades = [] from bare]
    exact .refl unfilled
  · exact (passed.frame (nodup_resting wf) unfilled booked fun o =>
      writeBack_resting wf wf' load (resting_from sound v seq) written).mono (by simp)

theorem matchPairs_accounted {pairs : List PairId} {batch : Batch}
    (run : matchPairs v seq pairs s = .ok (batch, seq') s') :
    Accounted s.resting s'.resting batch.trades fun _ => False := by
  induction pairs generalizing s seq batch with
  | nil =>
      obtain ⟨rfl, rfl, rfl⟩ := matchPairs_nil_ok.1 run
      exact .refl unfilled
  | cons id rest ih =>
      obtain ⟨c, seq₁, t, more, first, later, rfl⟩ := matchPairs_cons_ok.1 run
      have wf' := ((upkeep_extends.matchPair v seq id).ok first wf).1
      have matched := matchPair_accounted wf unfilled words first
      have rest := ih wf' (fun o mem => (matched.kept o mem).1) (matched.words words) later
      exact (matched.trans (nodup_resting wf) rest words).mono (by simp)

end Matching

/-- An order that is cancelled leaves, and no other. -/
theorem cancel_accounted {id : OrderId} {reason : CancelReason} {out : Order × List Effect}
    (wf : s.tables.WellFormed) (unfilled : ∀ o ∈ s.resting, o.remaining ≠ 0)
    (run : s.cancel id reason base = .ok (out, s')) :
    Accounted s.resting s'.resting [] fun o => o.id = id := by
  obtain ⟨o, found, -, rfl⟩ := cancel_ok run
  obtain rfl := wf.order_id id o found
  have perm := resting_removeOrder (removeOrder_ok.2 ⟨found, rfl⟩)
  have distinct := (perm.map (·.id)).nodup_iff.1 (nodup_resting wf)
  rw [List.map_cons, List.nodup_cons] at distinct
  refine .of_subset unfilled (nodup_resting wf) fun o' => ?_
  rw [perm.mem_iff, List.mem_cons]
  constructor
  · exact fun mem => ⟨.inr mem, fun same => distinct.1 (List.mem_map.2 ⟨o', mem, same⟩)⟩
  · rintro ⟨rfl | mem, other⟩
    · exact absurd rfl other
    · exact mem

/-- Those of the markets that are removed leave. -/
theorem Cleared.accounted {gone : List PairId} {used : List DelistRequest}
    (cleared : Cleared gone used s s') (wf : s.tables.WellFormed)
    (unfilled : ∀ o ∈ s.resting, o.remaining ≠ 0) :
    Accounted s.resting s'.resting [] fun o => o.pair ∈ gone := by
  refine .of_subset unfilled (nodup_resting wf) fun o => ?_
  rw [mem_resting cleared.tables, mem_resting wf]
  exact cleared.order?_eq_some wf

end Store

namespace Ledger

variable {l l' : Ledger} {tokens : Tokens} {params : Params} {header : Header} {height : Nat}
  {done : Executed} {a : Admission} {report : Report} {batch : Batch}

section Steps

variable (wf : l.store.tables.WellFormed) (unfilled : ∀ o ∈ l.store.resting, o.remaining ≠ 0)

include wf unfilled

omit unfilled in
/-- An order of a new id has another one than those that rest. -/
theorem nodup_beside {o : Order} (unused : o.id ∉ l.store.tables.usedIds) :
    ((l.store.resting ++ [o]).map (·.id)).Nodup := by
  have fresh : ∀ o' ∈ some o, o'.id ∉ l.store.tables.usedIds := by simpa using unused
  exact Store.nodup_admitted (Store.nodup_resting wf)
    (fun o mem => Store.used_of_resting wf mem) fresh

/-- A new order rests beside the others. -/
theorem rest_accounted [Build] (positive : a.order.remaining ≠ 0) (run : rest a l = .ok done l') :
    Accounted (l.store.resting ++ [a.order]) l'.store.resting done.batch.trades
      fun _ => False := by
  obtain ⟨s, funds, stored, -, batch, rfl⟩ := rest_ok run
  have perm : s.resting.Perm (l.store.resting ++ [a.order]) :=
    (Store.resting_putOrder stored).trans (List.perm_append_singleton _ _).symm
  obtain ⟨unused, -, -⟩ := Store.putOrder_ok.1 stored
  rw [batch]
  refine .of_subset (fun o mem => ?_) (nodup_beside wf unused) fun o => ?_
  · obtain mem | mem := List.mem_append.1 mem
    · exact unfilled o mem
    · exact List.mem_singleton.1 mem ▸ positive
  · rw [not_false_eq_true, and_true]
    exact perm.mem_iff

/-- An immediate order is matched and leaves. -/
theorem takeOnce_accounted [Build] (words : ∀ o ∈ l.store.resting, o.remaining < Word.size)
    (positive : a.order.remaining ≠ 0) (word : a.order.remaining < Word.size)
    (run : takeOnce a params height l = .ok done l') :
    Accounted (l.store.resting ++ [a.order]) l'.store.resting done.batch.trades
      fun o => o.id = a.order.id := by
  have wf' := ((takeOnce_atomic a).store.ok run wf).1
  obtain ⟨s₁, b₀, c, s₂, _, _, claimed, loaded, ended, written, -, -, batch, rfl⟩ := takeOnce_ok run
  obtain rfl := Pass.matchIncoming_outcome ended
  obtain ⟨unused, -, rfl⟩ := Store.claimId_ok.1 claimed
  obtain ⟨sound, pair, -⟩ := Book.ofOrders_ok loaded
  have wf₁ := wf.useId a.order.id
  have start := incoming_from sound (venue params height) l.nextFill pair.symm
  have away : ∀ o ∈ l.store.resting, a.order.id ≠ o.id := fun o mem same =>
    unused (same ▸ Store.used_of_resting wf mem)
  have booked : ∀ o ∈ b₀.all, o ∈ l.store.resting := fun o mem =>
    (Store.loaded_resting wf₁ loaded _ mem :)
  have distinct : ((a.order :: b₀.all).map (·.id)).Nodup := by
    refine List.nodup_cons.2 ⟨fun mem => ?_, sound.ids⟩
    obtain ⟨o, mem, same⟩ := List.mem_map.1 mem
    exact away o (booked o mem) same.symm
  have passed := Pass.incoming_accounted sound (venue params height) l.nextFill pair.symm positive
    distinct (List.forall_mem_cons.2 ⟨word, fun o mem => words o (booked o mem)⟩)
  have all := nodup_beside wf unused
  rw [batch, finishTaker_trades]
  refine (passed.frame all ?_ ?_ fun o => ?_).mono fun o mem => ?_
  · simpa [or_imp, forall_and] using ⟨unfilled, positive⟩
  · simpa using fun o mem => .inl (booked o mem)
  · rw [Store.writeBack_resting wf₁ wf' loaded start written, List.forall_mem_cons,
      List.mem_append, List.mem_singleton]
    refine or_congr_right ⟨fun ⟨mem, absent⟩ => ⟨.inl mem, away o mem, absent⟩, ?_⟩
    rintro ⟨mem | rfl, other, absent⟩
    · exact ⟨mem, absent⟩
    · exact absurd rfl other
  · refine and_iff_right_of_imp fun same => ?_
    rw [List.inj_on_of_nodup_map all mem (List.mem_append_right _ List.mem_cons_self) same]
    exact List.mem_cons_self

omit wf unfilled in
/-- An order is cancelled by its own sender. -/
theorem cancelOrder_owned {m : CancelOrder} (run : cancelOrder m params l = .ok done l') :
    ∃ o, l.store.order? m.order = some o ∧ o.sender = m.sender := by
  obtain ⟨_, _, step, run⟩ := Action.bind_ok.1 run
  obtain ⟨rfl, rfl⟩ := Action.get_ok.1 step
  obtain ⟨owned, -⟩ := Action.guard_ok.1 run
  cases found : l.store.order? m.order with
  | none => simp [found] at owned
  | some o => exact ⟨o, rfl, by simpa [found] using owned⟩

/-- A block end matches orders, and removes those of the markets that it delists. -/
theorem endBlock_accounted [Build] (words : ∀ o ∈ l.store.resting, o.remaining < Word.size)
    (run : endBlock params header l = .ok (report, batch) l') :
    Accounted l.store.resting l'.store.resting batch.trades fun o => o.pair ∈ report.delisted := by
  obtain ⟨due, matched, nextFill, s₁, sweep, s₂, clearing, -, passed, swept, -, rfl, rfl, rfl⟩ :=
    endBlock_ok.1 run
  have wf₁ := ((Store.upkeep_extends.matchPairs _ due _).ok passed wf).1
  have matching := Store.matchPairs_accounted wf unfilled words passed
  have sweeping := (Store.sweepDue_ok wf₁ swept).1.accounted wf₁
    fun o mem => (matching.kept o mem).1
  refine (matching.trans (Store.nodup_resting wf) sweeping words).mono fun o _ => ?_
  rw [false_or, Order.pair_of_terms Order.terms_after]
  rfl

end Steps

end Ledger

/-- What a message holds is a word. -/
def Input.InRange : Input → Prop
  | deliver msg => msg.InRange
  | beginBlock _ | endBlock _ | setPair _ | accounts _ | params _ | tokens _ => True

namespace Market

/-- What takes an order out at a moment, filled or not: its sender cancels it, its market is
delisted, or it is immediate. -/
def Moment.Removes [Build] (x : Moment) (o : Order) : Prop :=
  match x.input with
  | .deliver (.cancelOrder c) =>
      (x.market.deliver (.cancelOrder c)).1.success = true ∧ c.order = o.id ∧ c.sender = o.sender
  | .deliver (.placeOrder p) => p.timeInForce = .immediateOrCancel ∧ x.assigned? = some o.id
  | .endBlock header =>
      ∃ report, (x.market.endBlock header).1 = .ok report ∧ o.pair ∈ report.delisted
  | _ => False

/-- Whatever rests is open, and its remainder a word. -/
structure Open (m : Market) : Prop where
  unfilled : ∀ o ∈ m.ledger.store.resting, o.remaining ≠ 0
  words : ∀ o ∈ m.ledger.store.resting, o.remaining < Word.size

variable {m m' : Market} {msg : Message} {done : Executed} {removed : Order → Prop} {i : Input}

/-- A step that leaves the orders alone. -/
theorem Open.same [Build] (unmet : m.Open)
    (orders : m'.ledger.store.tables.orders = m.ledger.store.tables.orders)
    (idle : ∀ o, ¬removed o) :
    Accounted (m.ledger.store.resting ++ (none : Option Order).toList) m'.ledger.store.resting []
      removed := by
  rw [Option.toList_none, List.append_nil, show m'.ledger.store.resting = m.ledger.store.resting
    from congrArg Std.ExtTreeMap.values orders]
  exact (Accounted.refl unmet.unfilled).mono fun o _ => iff_of_false id (idle o)

section Apply

variable [Build] (intact : m.Intact) (unmet : m.Open)

include intact unmet

/-- What a placement does to the orders that is not refused. -/
theorem Intact.place_accounted {p : PlaceOrder} (typed : (Message.placeOrder p).InRange)
    (checked : (Message.placeOrder p).check = .ok ())
    (run : m.apply (.placeOrder p) = (.ok done, m')) :
    Accounted (m.ledger.store.resting ++ (m.gate (.placeOrder p)).toList)
      m'.ledger.store.resting done.batch.trades (Moment.Removes ⟨m, .deliver (.placeOrder p)⟩) := by
  have event := eventOf_ok checked run
  obtain ⟨l, acted, rfl⟩ := Market.apply_ok run
  have wf := intact.opened
  obtain ⟨pair, a, found, passed, acted⟩ := Ledger.placeOrder_ok acted
  have gate : m.gate (.placeOrder p) = some a.order := gate_placeOrder found passed
  have named : Moment.assigned? ⟨m, .deliver (.placeOrder p)⟩ = some a.order.id := by
    rw [Moment.assigned?, Market.event, event, gate]
    rfl
  simp only [Message.check, Check.bind_ok, Check.guard_ok] at checked
  obtain ⟨-, -, -, -, -, -, positive, -⟩ := checked
  obtain ⟨principal, fee, -, -, -, -, order⟩ := pass_ok passed
  have positive : a.order.remaining ≠ 0 := order ▸ positive
  have word : a.order.remaining < Word.size := order ▸ typed
  rw [gate]
  obtain ⟨kind, acted⟩ | ⟨kind, acted⟩ := acted
  · refine (Ledger.rest_accounted wf unmet.unfilled positive acted).mono fun o _ => ?_
    simp [Moment.Removes, kind]
  · refine (Ledger.takeOnce_accounted wf unmet.unfilled unmet.words positive word acted).mono
        fun o _ => ?_
    simp [Moment.Removes, kind, named, eq_comm]

/-- What a cancellation does to the orders that is not refused. -/
theorem Intact.cancel_accounted {c : CancelOrder}
    (accepted : (m.deliver (.cancelOrder c)).1.success = true)
    (run : m.apply (.cancelOrder c) = (.ok done, m')) :
    Accounted (m.ledger.store.resting ++ (none : Option Order).toList) m'.ledger.store.resting
      done.batch.trades (Moment.Removes ⟨m, .deliver (.cancelOrder c)⟩) := by
  obtain ⟨l, acted, rfl⟩ := Market.apply_ok run
  have wf := intact.opened
  obtain ⟨o, found, owned⟩ := Ledger.cancelOrder_owned acted
  obtain ⟨out, s, clearing, cancelled, -, batch, rfl⟩ := Ledger.cancelOrder_ok acted
  rw [batch, Option.toList_none, List.append_nil]
  refine (Store.cancel_accounted wf unmet.unfilled cancelled).mono fun o' mem => ?_
  have stored := (Store.mem_resting wf).1 mem
  constructor
  · intro named
    rw [named, found] at stored
    obtain rfl := Option.some.inj stored
    exact ⟨accepted, named.symm, owned.symm⟩
  · exact fun removes => removes.2.1.symm

/-- What a message does to the orders that is not refused. -/
theorem Intact.apply_accounted (typed : msg.InRange) (checked : msg.check = .ok ())
    (accepted : (m.deliver msg).1.success = true) (run : m.apply msg = (.ok done, m')) :
    Accounted (m.ledger.store.resting ++ (m.gate msg).toList) m'.ledger.store.resting
      done.batch.trades (Moment.Removes ⟨m, .deliver msg⟩) := by
  cases msg with
  | createPair c =>
      obtain ⟨l, acted, rfl⟩ := Market.apply_ok run
      obtain ⟨p, created, batch⟩ := Ledger.execute_create_ok acted
      obtain ⟨s, funds, -, listed, -, rfl⟩ := Ledger.create_ok created
      obtain ⟨-, rfl⟩ := Store.insertPair_ok.1 listed
      rw [batch]
      exact unmet.same rfl fun _ => id
  | delistPair c =>
      obtain ⟨l, acted, rfl⟩ := Market.apply_ok run
      obtain ⟨r, s, scheduled, batch, rfl⟩ := Ledger.execute_delist_ok acted
      obtain ⟨-, -, -, -, -, same⟩ := Store.scheduleDelist_ok scheduled
      rw [batch]
      exact unmet.same (congrArg Tables.orders same :) fun _ => id
  | raisePrecision c =>
      obtain ⟨l, acted, rfl⟩ := Market.apply_ok run
      obtain ⟨out, s, raised, batch, rfl⟩ := Ledger.execute_raise_ok acted
      obtain ⟨pair, -, -, -, rfl⟩ := Store.raisePrecision_ok raised
      rw [batch]
      exact unmet.same rfl fun _ => id
  | placeOrder p => exact intact.place_accounted unmet typed checked run
  | cancelOrder c => exact intact.cancel_accounted unmet accepted run

end Apply

/-- What an input does to the orders. -/
theorem Intact.accounted [Build] (intact : m.Intact) (unmet : m.Open) (typed : i.InRange) :
    Accounted (m.ledger.store.resting ++ (m.event i).admitted.toList)
      (m.after i).ledger.store.resting (m.event i).batch.trades (Moment.Removes ⟨m, i⟩) := by
  cases i with
  | beginBlock | setPair | accounts | params | tokens => exact unmet.same rfl fun _ => id
  | deliver msg =>
      obtain ⟨refused, same, nothing⟩ | ⟨done, checked, accepted, run⟩ := intact.deliver_cases msg
      · have same : m.after (.deliver msg) = m := same
        have nothing : m.event (.deliver msg) = {} := nothing
        rw [same, nothing]
        refine unmet.same rfl fun o removes => ?_
        cases msg with
        | createPair | delistPair | raisePrecision => exact removes
        | placeOrder p => simp [Moment.Removes, Moment.assigned?, nothing] at removes
        | cancelOrder c => simp [Moment.Removes, refused] at removes
      · rw [Market.event, eventOf_ok checked run]
        exact intact.apply_accounted unmet typed checked accepted run
  | endBlock header =>
      obtain ⟨fault, failed, same, idle⟩ | ⟨report, batch, l, ended, acted, same, event⟩ :=
        intact.after_endBlock header
      · rw [same, idle]
        refine unmet.same rfl fun o removes => ?_
        simp [Moment.Removes, failed] at removes
      · rw [same, event, Option.toList_none, List.append_nil]
        refine (Ledger.endBlock_accounted intact.opened unmet.unfilled unmet.words acted).mono
          fun o _ => ?_
        simp [Moment.Removes, ended]

end Market

end Bourse
