import Bourse.Proofs.Leftover
import Bourse.Proofs.Tally

/-!
# A matching pass is complete and loses nothing

* `Trade.Counted`: trades bear the numbers from a first one on, in words, which a checked build does
  not leave;
* `Pass.Marked`: of the orders booked, those are touched that have less left than at the start;
* `resting_bounded`, `incoming_bounded`: every fill takes one order out of the pass, so there are
  fewer trades than orders;
* `pass_complete`: what came of a pass, and what is left of its orders and booked.
-/

namespace Bourse

namespace Trade

/-- The trades bear the numbers from `seq` on, and `next` is the one after them. -/
structure Counted [Build] (seq : Nat) (trades : List Trade) (next : Nat) : Prop where
  numbers : trades.map (·.fillSeq) = (List.range trades.length).map (Word.wrapAdd seq)
  next : next = Word.wrapAdd seq trades.length
  room : Build.isChecked = true → seq + trades.length < Word.size

variable {t : Trade} {trades : List Trade} {seq next : Nat} {side : Side} {k : OrderId}

theorem counted_nil [Build] (word : seq < Word.size) : Counted seq [] seq :=
  ⟨rfl, (Nat.mod_eq_of_lt word).symm, fun _ => word⟩

theorem Counted.concat [Build] (counted : Counted seq trades next) (own : t.fillSeq = next)
    (room : Build.isChecked = true → next + 1 < Word.size) :
    Counted seq (trades ++ [t]) (Word.wrapAdd next 1) := by
  refine ⟨?_, ?_, fun checked => ?_⟩
  · rw [List.map_append, counted.numbers, List.length_append, List.length_singleton,
      List.range_succ, List.map_append, List.map_singleton, List.map_singleton, own, counted.next]
  · rw [counted.next, List.length_append, List.length_singleton]
    simp only [Word.wrapAdd, Nat.mod_add_mod, Nat.add_assoc]
  · have left := room checked
    rw [counted.next, Word.wrapAdd_of_lt (counted.room checked)] at left
    rw [List.length_append, List.length_singleton]
    exact left

/-- In a checked build, and elsewhere as long as the words reach, the numbers follow each other
without a gap. -/
theorem Counted.consecutive [Build] (counted : Counted seq trades next)
    (fits : Build.isChecked = true ∨ seq + trades.length < Word.size) :
    trades.map (·.fillSeq) = List.range' seq trades.length ∧ next = seq + trades.length := by
  have fits := fits.elim counted.room fun fits => fits
  refine ⟨?_, counted.next.trans (Word.wrapAdd_of_lt fits)⟩
  rw [counted.numbers, List.range'_eq_map_range]
  refine List.map_congr_left fun i mem => Word.wrapAdd_of_lt ?_
  have less := List.mem_range.1 mem
  omega

/-- A trade names its order of either side. -/
theorem names_iff (side : Side) :
    t.Names k ↔ t.orderOf side = k ∨ t.orderOf side.opposite = k := by
  rw [Names, orderOf, orderOf]
  cases t.takerSide <;> cases side <;> simp [Side.opposite, or_comm]

/-- What trades took from an order that they do not name on the other side. -/
theorem stockOf_eq_takenFrom (apart : ∀ t ∈ trades, t.orderOf side.opposite ≠ k) :
    stockOf trades k = takenFrom side trades k := by
  rw [stockOf, sumOf, takenFrom]
  refine congrArg List.sum (List.map_congr_left fun t mem => ?_)
  simp [names_iff side, apart t mem]

end Trade

/-- What became of an order of a side that is served, if trades do not name it on the other side. -/
theorem Serving.stock {side : Side} {start gone now : List Order} {trades : List Trade} {o : Order}
    (serving : Serving side start gone now trades) (distinct : (start.map (·.id)).Nodup)
    (mem : o ∈ start) (apart : ∀ t ∈ trades, t.orderOf side.opposite ≠ o.id) :
    ∃ o' ∈ gone ++ now, o'.terms = o.terms ∧
      o'.remaining + Trade.stockOf trades o.id = o.remaining := by
  obtain ⟨front, back, rfl⟩ := List.mem_iff_append.1 mem
  obtain ⟨_, o', _, split, -, left, -⟩ := forall₂_append_cons (serving.accounts distinct).flip
  refine ⟨o', by simp [split], left.terms, ?_⟩
  rw [Trade.stockOf_eq_takenFrom apart]
  exact left.taken

/-- No order stands on both sides of a book. -/
theorem Book.Sound.apart {b : Book} {side : Side} {o : Order} (sound : b.Sound)
    (mem : o ∈ b.orders side) : o.id ∉ (b.orders side.opposite).map (·.id) := by
  have ids := ((b.all_perm side).map (·.id)).nodup_iff.1 sound.ids
  rw [List.map_append, List.nodup_append] at ids
  exact fun mem' => ids.2.2 o.id (List.mem_map_of_mem mem) o.id mem' rfl

namespace Pass

variable {v : Venue} {b₀ : Book} {p p' : Pass} {side : Side} {x o t t' : Order}
  {rest : List Order} {seq : Nat}

section Marked

/-- Of the orders booked, those are touched that have less left than at the start; the others are as
they were. -/
def Marked (b₀ : Book) (p : Pass) : Prop := ∀ o ∈ p.book.all, ∃ o₀ ∈ b₀.all, o.id = o₀.id ∧
  (o = o₀ ∧ o.id ∉ p.touched ∨ o.remaining < o₀.remaining ∧ o.id ∈ p.touched)

theorem marked_start (b₀ : Book) (seq : Nat) : (start b₀ seq).Marked b₀ :=
  fun o mem => ⟨o, mem, rfl, .inl ⟨rfl, Std.ExtTreeSet.not_mem_empty⟩⟩

/-- A best order of which less is left is touched unless it leaves the book. -/
theorem Marked.settled (marked : p.Marked b₀) (start : From b₀ p)
    (distinct : (b₀.all.map (·.id)).Nodup) (settled : Settled side x o rest p p')
    (front : p.book.orders side = x :: rest) (same : o.terms = x.terms)
    (less : o.remaining < x.remaining) : p'.Marked b₀ := by
  intro y mem
  have id : o.id = x.id := Order.id_of_terms same
  obtain ⟨rfl, unfilled⟩ | ⟨mem, behind⟩ := settled.booked front mem
  · obtain ⟨x₀, mem₀, origin, state⟩ := marked x (mem_all_of_front front)
    have le : x.remaining ≤ x₀.remaining := by
      obtain ⟨rfl, -⟩ | ⟨less, -⟩ := state
      · exact le_rfl
      · exact less.le
    exact ⟨x₀, mem₀, id.trans origin,
      .inr ⟨less.trans_le le, settled.mem_touched.2 (.inl ⟨rfl, unfilled⟩)⟩⟩
  · have ne : y.id ≠ o.id := id ▸ start.behind distinct front behind
    have touched : y.id ∈ p'.touched ↔ y.id ∈ p.touched := by
      rw [settled.mem_touched]
      simp [ne]
    rw [touched]
    exact marked y mem

/-- What is written back is what is booked and not as it was. -/
theorem Marked.mem_updated (marked : p.Marked b₀) (start : From b₀ p)
    (distinct : (b₀.all.map (·.id)).Nodup) :
    o ∈ p.finish.updated ↔ o ∈ p.book.all ∧ o ∉ b₀.all := by
  have booked := (start.apart distinct).1
  have listed : o ∈ p.finish.updated ↔ o ∈ p.book.all ∧ o.id ∈ p.touched := by
    rw [finish_updated, List.mem_filterMap]
    constructor
    · rintro ⟨k, mem, found⟩
      obtain ⟨inBook, rfl⟩ := (Book.find?_eq_some booked).1 found
      exact ⟨inBook, Std.ExtTreeSet.mem_toList.1 mem⟩
    · rintro ⟨inBook, mem⟩
      exact ⟨o.id, Std.ExtTreeSet.mem_toList.2 mem,
        (Book.find?_eq_some booked).2 ⟨inBook, rfl⟩⟩
  rw [listed]
  refine and_congr_right fun mem => ?_
  obtain ⟨o₀, mem₀, id, ⟨rfl, untouched⟩ | ⟨less, touched⟩⟩ := marked o mem
  · simp [untouched, mem₀]
  · have changed : o ∉ b₀.all := fun mem => by
      rw [List.inj_on_of_nodup_map distinct mem mem₀ id] at less
      exact less.false
    simp [touched, changed]

theorem nodup_updated (start : From b₀ p) (distinct : (b₀.all.map (·.id)).Nodup) :
    p.finish.updated.Nodup := by
  have booked := (start.apart distinct).1
  have ids : p.touched.toList.Nodup :=
    p.touched.ordered_toList.imp fun less same => by simp [same] at less
  rw [finish_updated]
  refine ids.filterMap fun k l o found found' => ?_
  exact ((Book.find?_eq_some booked).1 found).2.symm.trans
    ((Book.find?_eq_some booked).1 found').2

end Marked

end Pass

/-- A fill bears the number that is next. -/
theorem Fill.execute_fillSeq [Build] {v : Venue} {seq : Nat} {maker : Side} {price : Decimal}
    {buyer seller : Order} {f : Fill} (run : execute v seq maker price buyer seller = .ok f) :
    f.trade.fillSeq = seq :=
  congrArg FillKey.seq (execute_key run).2

theorem Fill.taking_fillSeq [Build] {v : Venue} {seq : Nat} {t x : Order} {f : Fill}
    (run : taking v seq t x = .ok f) :
    f.trade.fillSeq = seq ∧ (Build.isChecked = true → seq + 1 < Word.size) := by
  obtain ⟨-, run⟩ | ⟨-, run⟩ := taking_ok.1 run
  · exact ⟨execute_fillSeq run, execute_next run⟩
  · exact ⟨execute_fillSeq run, execute_next run⟩

namespace Pass

variable [Build] {v : Venue} {b₀ : Book} {p p' : Pass} {t t₁ t₂ : Order} {seq : Nat}

/-- A pass keeps track of the orders that it changed and of the numbers of its trades. -/
structure Tracks (b₀ : Book) (seq : Nat) (p : Pass) : Prop where
  marked : p.Marked b₀
  counted : Trade.Counted seq p.crossing.trades p.nextFill

theorem tracks_start (word : seq < Word.size) : Tracks b₀ seq (start b₀ seq) :=
  ⟨marked_start b₀ seq, Trade.counted_nil word⟩

variable (sound : b₀.Sound) (words : ∀ o ∈ b₀.all, o.remaining < Word.size)

include sound words

section Resting

theorem restingStep_tracks (start : From b₀ p) (serves : p.Serves b₀) (tracks : p.Tracks b₀ seq)
    (step : restingStep v p = some (.ok p')) : p'.Tracks b₀ seq := by
  obtain ⟨bid, bids, ask, asks, f, frontBid, frontAsk, -, run, bought, sold, rfl⟩ :=
    restingStep_takes sound words start serves step
  -- The bid is written back first, then the ask.
  have first := start.addFill f
  have settledBid := settleBest_settled first.proper frontBid f.buyer
  have second := first.settled sound.ids settledBid frontBid bought.terms
    (Fill.execute_closed run).1
  have frontAsk' : ((p.addFill f).settleBest .buy f.buyer).book.orders .sell = ask :: asks :=
    settledBid.opposite.trans frontAsk
  have settledAsk := settleBest_settled second.proper frontAsk' f.seller
  have bidMarked := Marked.settled (p := p.addFill f) tracks.marked first sound.ids settledBid
    frontBid bought.terms bought.drained.less
  refine ⟨bidMarked.settled second sound.ids settledAsk frontAsk' sold.terms sold.drained.less, ?_⟩
  rw [settledAsk.trades, settledBid.trades, settledAsk.nextFill, settledBid.nextFill]
  exact tracks.counted.concat (Fill.execute_fillSeq run) (Fill.execute_next run)

theorem resting_tracks (word : seq < Word.size) (v : Venue) : (resting v seq b₀).Tracks b₀ seq :=
  (resting_induction (P := fun p => p.Tracks b₀ seq) sound words (tracks_start word)
    fun _ _ start serves tracks step =>
      restingStep_tracks sound words start serves tracks step).2

/-- Every fill takes an order out of the book, the last one of two at least. -/
theorem resting_bounded (v : Venue) (seq : Nat) :
    (resting v seq b₀).crossing.trades = [] ∨
      (resting v seq b₀).crossing.trades.length < b₀.all.length := by
  refine (resting_induction (P := fun p =>
    p.crossing.trades.length + p.book.all.length ≤ b₀.all.length ∧
      (p.crossing.trades = [] ∨ p.crossing.trades.length < b₀.all.length)) sound words
    ⟨by simp [start], .inl rfl⟩ fun p p' start _ ⟨bound, _⟩ step => ?_).2.2
  obtain ⟨less, two⟩ := restingStep_shrinks start.proper step
  obtain ⟨-, _, _, _, f, filled⟩ := restingStep_filled sound start step
  rw [filled.trades, List.length_append, List.length_singleton]
  exact ⟨by omega, .inr (by omega)⟩

end Resting

section Incoming

variable (fits : t.remaining < Word.size)

include fits

theorem incomingStep_tracks (feeds : Feeds b₀ t p t₁) (tracks : p.Tracks b₀ seq)
    (step : incomingStep v (p, t₁) = some (.ok (p', t₂))) : p'.Tracks b₀ seq := by
  obtain ⟨x, rest, f, front, -, run, -, -, theirs, settled⟩ :=
    incomingStep_takes sound words fits feeds step
  refine ⟨Marked.settled (p := p.addFill f) tracks.marked (feeds.from_book.addFill f) sound.ids
    settled front theirs.terms theirs.drained.less, ?_⟩
  rw [settled.trades, settled.nextFill]
  obtain ⟨number, next⟩ := Fill.taking_fillSeq run
  exact tracks.counted.concat number next

theorem incoming_tracks (word : seq < Word.size) (v : Venue) :
    (incoming v seq b₀ t).1.Tracks b₀ seq :=
  (incoming_induction (Q := fun p _ => p.Tracks b₀ seq) sound words fits (tracks_start word)
    fun _ _ _ _ feeds tracks step => incomingStep_tracks sound words fits feeds tracks step).2

/-- Every fill but the last one takes an order out of the other side. -/
theorem incoming_bounded (v : Venue) (seq : Nat) :
    (incoming v seq b₀ t).1.crossing.trades.length ≤ (b₀.orders t.side.opposite).length := by
  refine (incoming_induction (Q := fun p t₁ =>
    (t₁.remaining ≠ 0 → p.crossing.trades.length + (p.book.orders t.side.opposite).length ≤
      (b₀.orders t.side.opposite).length) ∧
    p.crossing.trades.length ≤ (b₀.orders t.side.opposite).length) sound words fits
    ⟨by simp [start], by simp [start]⟩ fun p p' t₁ t₂ feeds ⟨bound, _⟩ step => ?_).2.2
  obtain ⟨unfilled, counted, full, shrinks⟩ := incomingStep_shrinks feeds.from_book.proper step
  rw [Order.side_of_terms feeds.terms] at full shrinks
  have bound := bound unfilled
  exact ⟨fun left => by omega, by omega⟩

end Incoming

end Pass

/-- A pass split the orders of the book `b` into those filled and those that `b'` has booked, wrote
back what is booked and not as it was, and took from every order what its trades say. -/
structure Crossing.Complete (b : Book) (c : Crossing) (b' : Book) : Prop where
  ids : ((c.filled ++ b'.all).map (·.id)).Perm (b.all.map (·.id))
  filled : ∀ o ∈ c.filled, o.remaining = 0
  booked : ∀ o ∈ b'.all, o.remaining ≠ 0
  updated : ∀ o, o ∈ c.updated ↔ o ∈ b'.all ∧ o ∉ b.all
  once : c.updated.Nodup
  taken : ∀ o ∈ b.all, ∃ o' ∈ c.filled ++ b'.all, o'.terms = o.terms ∧
    o'.remaining + Trade.stockOf c.trades o.id = o.remaining

namespace Pass

variable {v : Venue} {b₀ : Book} {p : Pass} {t t' : Order} {seq : Nat}

theorem From.complete (start : From b₀ p) (distinct : (b₀.all.map (·.id)).Nodup)
    (marked : p.Marked b₀) (taken : ∀ o ∈ b₀.all, ∃ o' ∈ p.crossing.filled ++ p.book.all,
      o'.terms = o.terms ∧ o'.remaining + Trade.stockOf p.crossing.trades o.id = o.remaining) :
    p.finish.Complete b₀ p.book where
  ids := by
    have ids := ids_of_terms start.terms
    rw [orders] at ids
    exact (List.perm_append_comm.map _).trans ids
  filled o mem := (start.filled o mem).1
  booked := start.unfilled
  updated _ := marked.mem_updated start distinct
  once := nodup_updated start distinct
  taken := taken

/-- What a pass over a book took from its orders is what its trades say. -/
theorem Serves.taken {o : Order} (sound : b₀.Sound) (serves : p.Serves b₀) (mem : o ∈ b₀.all) :
    ∃ o' ∈ p.crossing.filled ++ p.book.all, o'.terms = o.terms ∧
      o'.remaining + Trade.stockOf p.crossing.trades o.id = o.remaining := by
  obtain ⟨side, mem⟩ := Book.mem_all_iff.1 mem
  obtain ⟨o', mem', left⟩ := (serves side).stock (sound.distinct side) mem fun r made named =>
    sound.apart mem (named ▸ (serves side.opposite).names_mem (sound.distinct _) r made)
  refine ⟨o', ?_, left⟩
  rw [List.mem_append, List.mem_filter] at mem'
  exact List.mem_append.2 (mem'.imp And.left fun booked => Book.mem_all_iff.2 ⟨side, booked⟩)

section Feeds

variable (feeds : Feeds b₀ t p t') (sound : b₀.Sound) (fresh : ∀ o ∈ b₀.all, o.id ≠ t.id)

include feeds sound fresh

/-- The same of a pass of an order that is not in the book. -/
theorem Feeds.taken_booked {o : Order} (mem : o ∈ b₀.all) :
    ∃ o' ∈ p.crossing.filled ++ p.book.all, o'.terms = o.terms ∧
      o'.remaining + Trade.stockOf p.crossing.trades o.id = o.remaining := by
  have others : ∀ r ∈ p.crossing.trades, r.orderOf t.side ≠ o.id := fun r made named =>
    fresh o mem (named.symm.trans (feeds.names r made))
  obtain own | other := (Side.exists_iff t.side).1 (Book.mem_all_iff.1 mem)
  · have unnamed : ∀ r ∈ p.crossing.trades, r.orderOf t.side.opposite ≠ o.id := fun r made named =>
      sound.apart own (named ▸ feeds.other.names_mem (sound.distinct _) r made)
    refine ⟨o, List.mem_append_right _ (Book.mem_all_iff.2 ⟨t.side, feeds.own ▸ own⟩), rfl, ?_⟩
    rw [Trade.stockOf_eq_takenFrom unnamed, Trade.takenFrom_of_idle others]
    rfl
  · obtain ⟨o', mem', left⟩ := feeds.other.stock (sound.distinct _) other
      (by simpa [Side.opposite_opposite] using others)
    refine ⟨o', ?_, left⟩
    rw [List.mem_append] at mem' ⊢
    exact mem'.imp_right fun booked => Book.mem_all_iff.2 ⟨_, booked⟩

/-- And of that order itself. -/
theorem Feeds.taken_incoming :
    t'.remaining + Trade.stockOf p.crossing.trades t.id = t.remaining := by
  have unnamed : ∀ r ∈ p.crossing.trades, r.orderOf t.side.opposite ≠ t.id := by
    intro r made named
    obtain ⟨x, booked, id⟩ := List.mem_map.1 (feeds.other.names_mem (sound.distinct _) r made)
    exact fresh x (Book.mem_all_iff.2 ⟨_, booked⟩) (id.trans named)
  rw [Trade.stockOf_eq_takenFrom unnamed]
  exact feeds.taken

end Feeds

end Pass

namespace Book

section Completeness

variable {b : Book}

/-- A pass that does not fail is complete and loses nothing. It makes no trade if a side is empty,
and otherwise fewer than there are orders. It leaves a book that is not crossed, or, if it is of one
order, fills that or leaves nothing booked that it crosses. Its trades bear the numbers from `seq`
on, and the next one comes after them: in a checked build always, in a release build as long as
these are words. -/
theorem pass_complete [Build] (v : Venue) (seq : Nat) (word : seq < Word.size) (sound : b.Sound)
    (sorted : b.Sorted) (words : ∀ o ∈ b.all, o.remaining < Word.size) :
    (∀ c, (matchResting v seq b).outcome = .ok c →
      c.Complete b (matchResting v seq b).book ∧
      ((∃ side, b.orders side = []) → c.trades = []) ∧
      ((∀ side, b.orders side ≠ []) →
        c.trades.length + 1 ≤ (b.orders .buy).length + (b.orders .sell).length) ∧
      (matchResting v seq b).book.isCrossed = false ∧
      (Build.isChecked = true ∨ seq + c.trades.length < Word.size →
        c.trades.map (·.fillSeq) = List.range' seq c.trades.length ∧
        (matchResting v seq b).nextFill = seq + c.trades.length)) ∧
    ∀ t : Order, t.remaining < Word.size → (∀ o ∈ b.all, o.id ≠ t.id) →
      ∀ c, (matchIncoming v seq b t).1.outcome = .ok c →
        c.Complete b (matchIncoming v seq b t).1.book ∧
        ((matchIncoming v seq b t).2.terms = t.terms ∧
          (matchIncoming v seq b t).2.remaining + Trade.stockOf c.trades t.id = t.remaining) ∧
        c.trades.length ≤ (b.orders t.side.opposite).length ∧
        ((matchIncoming v seq b t).2.remaining = 0 ∨
          ∀ y ∈ (matchIncoming v seq b t).1.book.orders t.side.opposite,
            (matchIncoming v seq b t).2.crosses y = false) ∧
        (Build.isChecked = true ∨ seq + c.trades.length < Word.size →
          c.trades.map (·.fillSeq) = List.range' seq c.trades.length ∧
          (matchIncoming v seq b t).1.nextFill = seq + c.trades.length) := by
  constructor
  · intro c ended
    have uncrossed := Pass.resting_isCrossed sound sorted words ended
    obtain rfl := Pass.matchResting_outcome ended
    have start := resting_from sound v seq
    have serves := Pass.resting_serves sound words v seq
    have tracks := Pass.resting_tracks sound words word v
    refine ⟨start.complete sound.ids tracks.marked fun o mem => serves.taken sound mem,
      fun ⟨side, bare⟩ => ?_, fun full => ?_, uncrossed, tracks.counted.consecutive⟩
    · have named := (serves side).names_mem (sound.distinct side)
      rw [bare] at named
      exact List.eq_nil_iff_forall_not_mem.2 fun r made => by simpa using named r made
    · have buys := List.length_pos_of_ne_nil (full .buy)
      have sells := List.length_pos_of_ne_nil (full .sell)
      obtain none | less := Pass.resting_bounded sound words v seq
      · have none : (Pass.resting v seq b).finish.trades = [] := none
        rw [none, List.length_nil]
        omega
      · rw [Book.all, List.length_append] at less
        exact less
  · intro t fits fresh c ended
    have misses := Pass.incoming_misses sound sorted words fits ended
    obtain rfl := Pass.matchIncoming_outcome ended
    have feeds := Pass.incoming_feeds sound words fits v seq
    have tracks := Pass.incoming_tracks sound words fits word v
    exact ⟨feeds.from_book.complete sound.ids tracks.marked
        fun o mem => feeds.taken_booked sound fresh mem,
      ⟨feeds.terms, feeds.taken_incoming sound fresh⟩,
      Pass.incoming_bounded sound words fits v seq, misses, tracks.counted.consecutive⟩

section Contested

attribute [local instance] Build.checked

/-- Three trades, numbered from 7 on, and one. -/
theorem contested_complete :
    (∃ c, (matchResting ⟨3, ⟨"c"⟩, "cet"⟩ 7 contested).outcome = .ok c ∧ c.trades.length = 3 ∧
      c.Complete contested (matchResting ⟨3, ⟨"c"⟩, "cet"⟩ 7 contested).book ∧
      (matchResting ⟨3, ⟨"c"⟩, "cet"⟩ 7 contested).book.isCrossed = false ∧
      c.trades.map (·.fillSeq) = [7, 8, 9] ∧
      (matchResting ⟨3, ⟨"c"⟩, "cet"⟩ 7 contested).nextFill = 10) ∧
    ∃ c, (matchIncoming ⟨3, ⟨"c"⟩, "cet"⟩ 7 contested shortBid).1.outcome = .ok c ∧
      c.trades.length = 1 ∧
      c.Complete contested (matchIncoming ⟨3, ⟨"c"⟩, "cet"⟩ 7 contested shortBid).1.book ∧
      (matchIncoming ⟨3, ⟨"c"⟩, "cet"⟩ 7 contested shortBid).2.remaining +
        Trade.stockOf c.trades shortBid.id = 9 ∧
      (matchIncoming ⟨3, ⟨"c"⟩, "cet"⟩ 7 contested shortBid).1.nextFill = 8 := by
  obtain ⟨resting, incoming⟩ := pass_complete ⟨3, ⟨"c"⟩, "cet"⟩ 7 (by decide +kernel)
    (ofOrders_ok contested_booked).1 (ofOrders_sorted contested_booked) (by decide +kernel)
  constructor
  · have ended : ((matchResting ⟨3, ⟨"c"⟩, "cet"⟩ 7 contested).outcome >>=
        fun c => pure c.trades.length) = .ok 3 := by decide +kernel
    obtain ⟨c, ended, length⟩ := Check.bind_ok.1 ended
    have length := Check.pure_ok.1 length
    obtain ⟨complete, -, -, uncrossed, numbers⟩ := resting c ended
    rw [length] at numbers
    obtain ⟨numbers, next⟩ := numbers (.inl rfl)
    exact ⟨c, ended, length, complete, uncrossed, numbers, next⟩
  · have ended : ((matchIncoming ⟨3, ⟨"c"⟩, "cet"⟩ 7 contested shortBid).1.outcome >>=
        fun c => pure c.trades.length) = .ok 1 := by decide +kernel
    obtain ⟨c, ended, length⟩ := Check.bind_ok.1 ended
    have length := Check.pure_ok.1 length
    obtain ⟨complete, taken, -, -, numbers⟩ :=
      incoming shortBid (by decide +kernel) (by decide +kernel) c ended
    rw [length] at numbers
    exact ⟨c, ended, length, complete, taken.2, (numbers (.inl rfl)).2⟩

end Contested

end Completeness

end Book

end Bourse
