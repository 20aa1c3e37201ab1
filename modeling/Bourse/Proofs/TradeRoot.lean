import Bourse.Proofs.Notation
import Bourse.Trade.Root
import Mathlib.Data.List.Forall2

/-!
# What the root of a list of trades commits to

* `Digest.word_append_inj`, `lengthAndBytes_append_inj`: words and texts are told from what follows
  them, words by their size and texts by the length in front;
* `head_append_inj`, `tail_append_inj`: so are the fields before the price of a trade, and those
  after;
* `rootMessage_commits`: lists with the same message are equally long and agree in every field,
  unless they run together: the text of a price has no length in front, and may run into what
  follows it;
* `shifted_same_message`: this happens.
-/

namespace Bourse

namespace Digest

variable {n k : ℕ} {s s' : String} {u v : List UInt8}

section Words

@[simp] theorem length_wordBytes (n : ℕ) : (wordBytes n).length = 8 := by simp [wordBytes]

/-- So many low bytes tell a number up to that power. -/
theorem mod_of_bytes {m : ℕ}
    (same : ∀ i < m, UInt8.ofNat (n / 256 ^ i) = UInt8.ofNat (k / 256 ^ i)) :
    n % 256 ^ m = k % 256 ^ m := by
  induction m with
  | zero => rw [pow_zero, Nat.mod_one, Nat.mod_one]
  | succ m ih =>
      have byte : n / 256 ^ m % 256 = k / 256 ^ m % 256 :=
        congrArg UInt8.toNat (same m m.lt_succ_self)
      rw [Nat.mod_pow_succ, Nat.mod_pow_succ, byte, ih fun i less => same i (by omega)]

theorem wordBytes_inj (word : n < Word.size) (word' : k < Word.size)
    (same : wordBytes n = wordBytes k) : n = k := by
  have bytes := List.map_inj_left.1 same
  have low : n % 256 ^ 8 = k % 256 ^ 8 :=
    mod_of_bytes fun i less => bytes i (List.mem_range.2 less)
  have size : 256 ^ 8 = Word.size := by decide
  rwa [size, Nat.mod_eq_of_lt word, Nat.mod_eq_of_lt word'] at low

theorem word_append_inj (word : n < Word.size) (word' : k < Word.size)
    (same : wordBytes n ++ u = wordBytes k ++ v) : n = k ∧ u = v := by
  obtain ⟨bytes, rest⟩ := List.append_inj same (by simp)
  exact ⟨wordBytes_inj word word' bytes, rest⟩

end Words

section Texts

theorem toList_loop (bytes : ByteArray) (i : ℕ) (acc : List UInt8) :
    ByteArray.toList.loop bytes i acc = acc.reverse ++ bytes.data.toList.drop i := by
  fun_induction ByteArray.toList.loop bytes i acc with
  | case1 i acc less ih =>
      have entry : bytes.get! i = bytes.data.toList[i] := getElem!_pos bytes.data i less
      rw [ih, List.reverse_cons, List.append_assoc, entry, List.singleton_append,
        List.getElem_cons_drop]
  | case2 i acc done =>
      have all : bytes.data.toList.length ≤ i := Nat.le_of_not_lt done
      rw [List.drop_of_length_le all, List.append_nil]

theorem toList_eq (bytes : ByteArray) : bytes.toList = bytes.data.toList := toList_loop bytes 0 []

theorem textBytes_inj (same : textBytes s = textBytes s') : s = s' := by
  rw [textBytes, textBytes, toList_eq, toList_eq] at same
  exact String.toByteArray_inj.1 (ByteArray.ext (Array.toList_inj.1 same))

end Texts

/-- Fields that are told from what follows them are so one after the other. -/
theorem flatMap_append_inj {α : Type} {f : α → List UInt8} {P : α → Prop} {as bs : List α}
    (inj : ∀ {a b u v}, P a → P b → f a ++ u = f b ++ v → a = b ∧ u = v)
    (left : ∀ a ∈ as, P a) (right : ∀ b ∈ bs, P b) (length : as.length = bs.length)
    (same : as.flatMap f ++ u = bs.flatMap f ++ v) : as = bs ∧ u = v := by
  induction as generalizing bs with
  | nil =>
      rw [List.eq_nil_of_length_eq_zero length.symm] at same ⊢
      exact ⟨rfl, same⟩
  | cons a as ih =>
      obtain ⟨b, bs, rfl⟩ := List.exists_cons_of_length_eq_add_one length.symm
      rw [List.forall_mem_cons] at left right
      rw [List.flatMap_cons, List.flatMap_cons, List.append_assoc, List.append_assoc] at same
      obtain ⟨rfl, later⟩ := inj left.1 right.1 same
      obtain ⟨rfl, rest⟩ := ih left.2 right.2 (Nat.succ.inj length) later
      exact ⟨rfl, rest⟩

end Digest

namespace Trade

open Digest

variable {x y : Trade} {a b : List Trade} {u v : List UInt8}

section Definitions

/-- The words before the price. -/
def numbers (t : Trade) : List ℕ := [t.height, t.fillSeq]

def texts (t : Trade) : List String :=
  [t.pair.text, t.makerOrder.text, t.takerOrder.text, t.maker.text, t.taker.text]

/-- The words after the price. -/
def amounts (t : Trade) : List ℕ := [t.quantity, t.money, t.makerFee, t.takerFee]

/-- The fields of the trade have the sizes that they are encoded with. -/
structure Encodable (t : Trade) : Prop where
  id : t.id.bytes.length = 16
  numbers : ∀ n ∈ t.numbers, n < Word.size
  texts : ∀ s ∈ t.texts, (textBytes s).length < Word.size
  amounts : ∀ n ∈ t.amounts, n < Word.size

instance (t : Trade) : Decidable t.Encodable :=
  decidable_of_iff (_ ∧ _ ∧ _ ∧ _)
    ⟨fun ⟨id, numbers, texts, amounts⟩ => ⟨id, numbers, texts, amounts⟩,
      fun h => ⟨h.id, h.numbers, h.texts, h.amounts⟩⟩

/-- The trades are the same but for price, side and amounts. -/
structure SameNames (x y : Trade) : Prop where
  id : x.id = y.id
  height : x.height = y.height
  fillSeq : x.fillSeq = y.fillSeq
  pair : x.pair = y.pair
  makerOrder : x.makerOrder = y.makerOrder
  takerOrder : x.takerOrder = y.takerOrder
  maker : x.maker = y.maker
  taker : x.taker = y.taker

/-- The trades are the same but for the side of the taker and the scale of the price. -/
structure Agrees (x y : Trade) : Prop extends SameNames x y where
  price : x.price.value = y.price.value
  quantity : x.quantity = y.quantity
  money : x.money = y.money
  makerFee : x.makerFee = y.makerFee
  takerFee : x.takerFee = y.takerFee

/-- The price as it is encoded. -/
def priceBytes (t : Trade) : List UInt8 := textBytes t.price.normalize.text

/-- One price is the beginning of the other. -/
def Ambiguous (x y : Trade) : Prop :=
  x.priceBytes ≠ y.priceBytes ∧ (x.priceBytes <+: y.priceBytes ∨ y.priceBytes <+: x.priceBytes)

instance : Decidable (Ambiguous x y) := inferInstanceAs (Decidable (_ ∧ _))

/-- The lists agree up to two trades, not the last ones, whose prices tell nothing of where they
end. -/
def RunTogether (a b : List Trade) : Prop :=
  ∃ past x more past' y more', a = past ++ x :: more ∧ b = past' ++ y :: more' ∧ more ≠ [] ∧
    List.Forall₂ Agrees past past' ∧ SameNames x y ∧ Ambiguous x y

end Definitions

section Fields

theorem lengthAndBytes_append_inj {s s' : String} (short : (textBytes s).length < Word.size)
    (short' : (textBytes s').length < Word.size)
    (same : lengthAndBytes s ++ u = lengthAndBytes s' ++ v) : s = s' ∧ u = v := by
  rw [lengthAndBytes, lengthAndBytes, List.append_assoc, List.append_assoc] at same
  obtain ⟨length, same⟩ := word_append_inj short short' same
  obtain ⟨bytes, rest⟩ := List.append_inj same length
  exact ⟨textBytes_inj bytes, rest⟩

/-- The fields before the price. -/
def head (t : Trade) : List UInt8 :=
  t.id.bytes ++ (t.numbers.flatMap wordBytes ++ t.texts.flatMap lengthAndBytes)

/-- The fields after the price. -/
def tail (t : Trade) : List UInt8 := t.amounts.flatMap wordBytes

theorem encode_append (t : Trade) (u : List UInt8) :
    t.encode ++ u = t.head ++ (t.priceBytes ++ (t.tail ++ u)) := by
  simp [encode, head, priceBytes, tail, numbers, texts, amounts]

theorem length_tail (t : Trade) : t.tail.length = 32 := by simp [tail, amounts]

variable (left : x.Encodable) (right : y.Encodable)

include left right

theorem head_append_inj (same : x.head ++ u = y.head ++ v) : SameNames x y ∧ u = v := by
  simp only [head, List.append_assoc] at same
  obtain ⟨id, same⟩ := List.append_inj same (left.id.trans right.id.symm)
  obtain ⟨numbers, same⟩ :=
    flatMap_append_inj word_append_inj left.numbers right.numbers rfl same
  obtain ⟨texts, same⟩ :=
    flatMap_append_inj lengthAndBytes_append_inj left.texts right.texts rfl same
  simp only [Trade.numbers, Trade.texts, List.cons.injEq, and_true] at numbers texts
  obtain ⟨height, fillSeq⟩ := numbers
  obtain ⟨pair, makerOrder, takerOrder, maker, taker⟩ := texts
  exact ⟨⟨congrArg TradeId.mk id, height, fillSeq, congrArg PairId.mk pair,
    congrArg OrderId.mk makerOrder, congrArg OrderId.mk takerOrder, congrArg Address.mk maker,
    congrArg Address.mk taker⟩, same⟩

theorem tail_append_inj (same : x.tail ++ u = y.tail ++ v) : x.amounts = y.amounts ∧ u = v :=
  flatMap_append_inj word_append_inj left.amounts right.amounts rfl same

/-- A trade is told from what follows it, or its price and that of the other run into it. -/
theorem encode_append_inj (same : x.encode ++ u = y.encode ++ v) :
    SameNames x y ∧ (Agrees x y ∧ u = v ∨ Ambiguous x y ∧ u.length ≠ v.length) := by
  rw [encode_append, encode_append] at same
  obtain ⟨names, same⟩ := head_append_inj left right same
  refine ⟨names, ?_⟩
  by_cases price : x.priceBytes = y.priceBytes
  · rw [price] at same
    obtain ⟨amounts, rest⟩ := tail_append_inj left right (List.append_cancel_left same)
    simp only [Trade.amounts, List.cons.injEq, and_true] at amounts
    obtain ⟨quantity, money, makerFee, takerFee⟩ := amounts
    exact .inl ⟨⟨names, Decimal.value_of_text (textBytes_inj price), quantity, money, makerFee,
      takerFee⟩, rest⟩
  · refine .inr ⟨⟨price, ?_⟩, fun length => price ?_⟩
    · exact List.prefix_or_prefix_of_prefix ⟨x.tail ++ u, rfl⟩ ⟨y.tail ++ v, same.symm⟩
    · -- Prices with as many bytes behind them have as many bytes.
      refine (List.append_inj' same ?_).1
      rw [List.length_append, List.length_append, length_tail, length_tail, length]

end Fields

theorem agree_or_runTogether (left : ∀ t ∈ a, t.Encodable) (right : ∀ t ∈ b, t.Encodable)
    (length : a.length = b.length) (same : a.flatMap encode = b.flatMap encode) :
    List.Forall₂ Agrees a b ∨ RunTogether a b := by
  induction a generalizing b with
  | nil =>
      rw [List.eq_nil_of_length_eq_zero length.symm]
      exact .inl .nil
  | cons x a ih =>
      obtain ⟨y, b, rfl⟩ := List.exists_cons_of_length_eq_add_one length.symm
      rw [List.forall_mem_cons] at left right
      obtain ⟨names, ⟨agrees, rest⟩ | ⟨ambiguous, apart⟩⟩ := encode_append_inj left.1 right.1 same
      · obtain agree | ⟨past, x', more, past', y', more', rfl, rfl, later⟩ :=
          ih left.2 right.2 (Nat.succ.inj length) rest
        · exact .inl (.cons agrees agree)
        · obtain ⟨some, before, at'⟩ := later
          exact .inr ⟨x :: past, x', more, y :: past', y', more', rfl, rfl, some,
            .cons agrees before, at'⟩
      · refine .inr ⟨[], x, a, [], y, b, rfl, rfl, ?_, .nil, names, ambiguous⟩
        rintro rfl
        rw [List.eq_nil_of_length_eq_zero (Nat.succ.inj length).symm] at apart
        exact apart rfl

/-- Lists with the same message are equally long, and agree in every field up to two prices, not
those of the last trades, of which one is the beginning of the other. -/
theorem rootMessage_commits (left : ∀ t ∈ a, t.Encodable) (right : ∀ t ∈ b, t.Encodable)
    (short : a.length < Word.size) (short' : b.length < Word.size)
    (same : rootMessage a = rootMessage b) :
    a.length = b.length ∧ (List.Forall₂ Agrees a b ∨ RunTogether a b) := by
  rw [rootMessage, rootMessage, List.append_assoc, List.append_assoc] at same
  obtain ⟨length, trades⟩ := word_append_inj short short' (List.append_cancel_left same)
  exact ⟨length, agree_or_runTogether left right length trades⟩

theorem not_runTogether (clear : ∀ x ∈ a, ∀ y ∈ b, ¬Ambiguous x y) : ¬RunTogether a b := by
  rintro ⟨past, x, more, past', y, more', rfl, rfl, -, -, -, ambiguous⟩
  exact clear x (by simp) y (by simp) ambiguous

/-- A trade at the price 1 that is otherwise blank. -/
def blank : Trade where
  id := ⟨List.replicate 16 0⟩
  height := 0
  fillSeq := 0
  pair := ⟨""⟩
  makerOrder := ⟨""⟩
  maker := ⟨""⟩
  takerOrder := ⟨""⟩
  taker := ⟨""⟩
  takerSide := .buy
  price := .ofNat 1
  quantity := 0
  money := 0
  makerFee := 0
  takerFee := 0

/-- The price 1 is the price 1.00, and the text of neither runs into that of 25. -/
theorem scaled_commits :
    rootMessage [blank, { blank with price := .ofNat 25 }] =
        rootMessage [{ blank with price := ⟨false, 100, 2⟩ }, { blank with price := .ofNat 25 }] ∧
      List.Forall₂ Agrees [blank, { blank with price := .ofNat 25 }]
        [{ blank with price := ⟨false, 100, 2⟩ }, { blank with price := .ofNat 25 }] := by
  have same : rootMessage [blank, { blank with price := .ofNat 25 }] =
      rootMessage [{ blank with price := ⟨false, 100, 2⟩ }, { blank with price := .ofNat 25 }] := by
    decide +kernel
  have commits := rootMessage_commits (by decide +kernel) (by decide +kernel) (by decide)
    (by decide) same
  exact ⟨same, commits.2.resolve_right (not_runTogether (by decide +kernel))⟩

def nulls (n : ℕ) : String := String.ofList (List.replicate n (Char.ofNat 0))

def unshifted : List Trade :=
  [{ blank with quantity := 53 },
    { blank with pair := ⟨nulls 25 ++ "!" ++ nulls 7⟩, price := .ofNat 15 }]

/-- The trades of `unshifted` with every field a byte later, from the first quantity to the second
price. -/
def shifted : List Trade :=
  [{ blank with price := .ofNat 15 },
    { blank with
      fillSeq := 33 * 2 ^ (56 : ℕ), taker := ⟨nulls 32 ++ "1"⟩, price := .ofNat 5 }]

/-- The digit that the quantity 53 starts with is read as one of the price. -/
theorem shifted_same_message : (∀ t ∈ unshifted, t.Encodable) ∧ (∀ t ∈ shifted, t.Encodable) ∧
    rootMessage unshifted = rootMessage shifted ∧ ¬List.Forall₂ Agrees unshifted shifted := by
  refine ⟨by decide +kernel, by decide +kernel, by decide +kernel, fun agree => ?_⟩
  have quantity := (List.forall₂_cons.1 agree).1.quantity
  exact absurd quantity (by decide)

end Trade

end Bourse
