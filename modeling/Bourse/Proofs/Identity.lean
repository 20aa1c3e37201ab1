import Bourse.Proofs.OrderId
import Bourse.Proofs.Refund

/-!
# Order ids are read as they were written

* `Text.Digits`, `Text.Unsigned`, `Text.Signed`: the texts of numbers and what they write;
  `word?_eq_some` and `signedWord?_eq_some`: those in range are what is read;
* `parts?_eq_some`: an id has parts if it ends in two such texts behind the last two separators, and
  something stands in front of them;
* `parts?_negative`: under a negative version no id can be read, since the separator in front of the
  sign leaves nothing for the sequence;
* `ids_faithful`: ids tell everything apart, and those of admitted orders can be read again.
-/

namespace Bourse.Text

variable {text : List Char} {c : Char} {n start : Nat} {i : Int}

/-- Digits, at least one, that write a number; leading zeros are allowed. -/
structure Digits (text : List Char) (n : Nat) : Prop where
  nonempty : text ≠ []
  digits : ∀ c ∈ text, c.isDigit = true
  value : Nat.ofDigitChars 10 text 0 = n

/-- The texts of a natural number. -/
inductive Unsigned : List Char → Nat → Prop
  | plain {text : List Char} {n : Nat} : Digits text n → Unsigned text n
  | plus {text : List Char} {n : Nat} : Digits text n → Unsigned ('+' :: text) n

/-- The texts of an integer. -/
inductive Signed : List Char → Int → Prop
  | unsigned {text : List Char} {n : Nat} : Unsigned text n → Signed text n
  | minus {text : List Char} {n : Nat} : Digits text n → Signed ('-' :: text) (-n)

theorem digit?_eq_some : digit? c = some n ↔ c.isDigit = true ∧ c.toNat - '0'.toNat = n := by
  by_cases digit : c.isDigit = true
  · rw [digit?_of_isDigit digit]
    simp [digit]
  · have outside : ¬('0' ≤ c ∧ c ≤ '9') := fun range =>
      digit (by simpa only [Char.isDigit, Bool.and_eq_true, decide_eq_true_eq])
    simp [digit?, outside, digit]

theorem digitsFrom?_eq_some : digitsFrom? start text = some n ↔
    (∀ c ∈ text, c.isDigit = true) ∧ Nat.ofDigitChars 10 text start = n := by
  refine ⟨fun read => ?_, fun ⟨digits, value⟩ => value ▸ digitsFrom?_of_digits digits start⟩
  have digits : ∀ c ∈ text, c.isDigit = true := by
    induction text generalizing start with
    | nil => exact nofun
    | cons c rest ih =>
        obtain ⟨d, digit, read⟩ := Option.bind_eq_some_iff.1 read
        exact List.forall_mem_cons.2 ⟨(digit?_eq_some.1 digit).1, ih read⟩
  exact ⟨digits, Option.some.inj ((digitsFrom?_of_digits digits start).symm.trans read)⟩

theorem digits?_eq_some : digits? text = some n ↔ Digits text n := by
  cases text with
  | nil => exact ⟨nofun, fun written => absurd rfl written.nonempty⟩
  | cons c rest =>
      rw [digits?, digitsFrom?_eq_some]
      · exact ⟨fun ⟨digits, value⟩ => ⟨nofun, digits, value⟩,
          fun written => ⟨written.digits, written.value⟩⟩
      · exact nofun

/-- A number is written with no sign. -/
theorem Digits.head_ne {rest : List Char} (written : Digits (c :: rest) n)
    (sign : c.isDigit = false) : False := by
  rw [written.digits c List.mem_cons_self] at sign
  cases sign

theorem guard_eq_some {α : Type} {o : Option α} {P : α → Prop} [DecidablePred P] {a : α} :
    (o.bind fun i => if P i then some i else none) = some a ↔ o = some a ∧ P a := by
  rw [Option.bind_eq_some_iff]
  constructor
  · rintro ⟨i, found, kept⟩
    split at kept
    · next holds =>
        obtain rfl := Option.some.inj kept
        exact ⟨found, holds⟩
    · cases kept
  · rintro ⟨found, holds⟩
    exact ⟨a, found, if_pos holds⟩

/-- Exactly the texts of the words are read as words. -/
theorem word?_eq_some : word? text = some n ↔ Unsigned text n ∧ n < Word.size := by
  unfold word?
  rw [Option.bind_eq_bind, guard_eq_some, digits?_eq_some]
  apply and_congr_left
  intro _
  split
  · constructor
    · exact .plus
    · rintro (plain | plus)
      · exact (plain.head_ne (by decide)).elim
      · exact plus
  · next unsigned =>
      constructor
      · exact .plain
      · rintro (plain | plus)
        · exact plain
        · exact absurd rfl (unsigned _)

/-- And exactly those of the signed words as signed words. -/
theorem signedWord?_eq_some : signedWord? text = some i ↔
    Signed text i ∧ -(2 ^ (63 : Nat)) ≤ i ∧ i < 2 ^ (63 : Nat) := by
  unfold signedWord?
  dsimp only [Option.bind_eq_bind]
  split <;> rw [guard_eq_some (P := fun i => -(2 ^ (63 : Nat)) ≤ i ∧ i < 2 ^ (63 : Nat))] <;>
    refine and_congr_left fun _ => ?_
  · simp only [Option.map_eq_some_iff, Option.bind_eq_some_iff, digits?_eq_some]
    constructor
    · rintro ⟨_, ⟨n, written, ⟨⟩⟩, rfl⟩
      exact .minus written
    · rintro (plain | minus)
      · cases plain with
        | plain plain => exact (plain.head_ne (by decide)).elim
      · exact ⟨_, ⟨_, minus, rfl⟩, rfl⟩
  · simp only [Option.map_eq_some_iff, digits?_eq_some]
    constructor
    · rintro ⟨n, written, rfl⟩
      exact .unsigned (.plus written)
    · rintro (plain | _)
      cases plain with
      | plain plain => exact (plain.head_ne (by decide)).elim
      | plus plus => exact ⟨_, plus, rfl⟩
  · next noMinus noPlus _ =>
      simp only [Option.map_eq_some_iff, digits?_eq_some]
      constructor
      · rintro ⟨n, written, rfl⟩
        exact .unsigned (.plain written)
      · rintro (plain | minus)
        · cases plain with
          | plain plain => exact ⟨_, plain, rfl⟩
          | plus plus => exact absurd rfl (noPlus _)
        · exact absurd rfl (noMinus _)

end Bourse.Text

namespace Bourse.OrderId

variable {id : OrderId} {x : Address} {seq : Nat} {version : Int}

/-- The parts of an id stand before, between and behind its last two separators. -/
theorem parts?_eq_some : id.parts? = some (x, seq, version) ↔
    x.text ≠ "" ∧ ∃ s v, id.text.toList = x.text.toList ++ separator :: (s ++ separator :: v) ∧
      separator ∉ s ∧ separator ∉ v ∧ Text.word? s = some seq ∧
      Text.signedWord? v = some version := by
  simp only [parts?, Option.bind_eq_bind, Option.bind_eq_some_iff, Prod.exists,
    Text.splitLast?_eq_some]
  constructor
  · rintro ⟨front, v, ⟨text, absent⟩, sender, s, ⟨rfl, absent'⟩, _, read, _, read', named⟩
    split at named
    · cases named
    · next named' =>
        simp only [pure, Option.some.injEq, Prod.mk.injEq] at named
        obtain ⟨rfl, rfl, rfl⟩ := named
        refine ⟨fun empty => named' ?_, s, v, ?_, absent', absent, read', read⟩
        · simpa using empty
        · simpa using text
  · rintro ⟨named, s, v, text, absent', absent, read', read⟩
    refine ⟨x.text.toList ++ separator :: s, v, ⟨by simpa using text, absent⟩, x.text.toList, s,
      ⟨rfl, absent'⟩, version, read, seq, read', ?_⟩
    rw [if_neg (by simpa using named)]
    simp

/-- The sign of a negative version is a separator, with nothing between it and the one before. -/
theorem parts?_negative (negative : version < 0) : (assemble x seq version).parts? = none := by
  have nothing : Text.word? [] = none := rfl
  rw [parts?, splitLast?_assemble]
  simp [splitLast?_front, negative, nothing]

/-- An order that is admitted under valid parameters has an id that a cancellation may name. -/
theorem check_cancel_of_pass {m : PlaceOrder} {params : Params} {pair : Pair}
    {reference : Decimal} {tokens : Tokens} {accounts : Accounts} {height : Nat} {a : Admission}
    {y : Address} (named : m.sender.text ≠ "") (named' : y.text ≠ "")
    (word : m.sequence < Word.size) (valid : params.Valid)
    (run : m.pass params pair reference tokens accounts height = .ok a) :
    (Message.cancelOrder ⟨y, a.order.id⟩).check = .ok () := by
  obtain ⟨_, _, -, -, -, -, order⟩ := pass_ok run
  have id : a.order.id = assemble m.sender m.sequence params.chainIdVersion := by
    rw [order]
    rfl
  have parsed := parts?_assemble named word valid.version_nonneg valid.version
  rw [← id] at parsed
  exact Message.check_cancelOrder (by simpa [Address.isEmpty] using named') parsed

/-- Different senders, sequences or versions make different ids, whatever the sender is. For a
sender that is not empty, a sequence that is a word and a version that is a signed word and not
negative, the parts of the id are these three; so an order that is admitted for such a sender under
valid parameters has an id that a cancellation may name. Under a negative version an id has no
parts. An id has parts exactly if it ends in two separators, each with the text of a number in range
and no further separator behind it, and something stands in front of them. -/
theorem ids_faithful :
    (∀ (x y : Address) (seq seq' : Nat) (version version' : Int),
      assemble x seq version = assemble y seq' version' ↔
        x = y ∧ seq = seq' ∧ version = version') ∧
    (∀ (x : Address) (seq : Nat) (version : Int), x.text ≠ "" → seq < Word.size → 0 ≤ version →
      version < 2 ^ (63 : Nat) → (assemble x seq version).parts? = some (x, seq, version)) ∧
    (∀ (m : PlaceOrder) (params : Params) (pair : Pair) (reference : Decimal) (tokens : Tokens)
      (accounts : Accounts) (height : Nat) (a : Admission), m.sender.text ≠ "" →
      m.sequence < Word.size → params.Valid →
      m.pass params pair reference tokens accounts height = .ok a →
      ∀ y : Address, y.text ≠ "" → (Message.cancelOrder ⟨y, a.order.id⟩).check = .ok ()) ∧
    (∀ (x : Address) (seq : Nat) (version : Int), version < 0 →
      (assemble x seq version).parts? = none) ∧
    ∀ (id : OrderId) (x : Address) (seq : Nat) (version : Int),
      id.parts? = some (x, seq, version) ↔ x.text ≠ "" ∧ ∃ s v : List Char,
        id.text.toList = x.text.toList ++ '-' :: (s ++ '-' :: v) ∧ '-' ∉ s ∧ '-' ∉ v ∧
        (Text.Unsigned s seq ∧ seq < Word.size) ∧
        Text.Signed v version ∧ -(2 ^ (63 : Nat)) ≤ version ∧ version < 2 ^ (63 : Nat) := by
  refine ⟨fun _ _ _ _ _ _ => assemble_inj, fun _ _ _ => parts?_assemble,
    fun _ _ _ _ _ _ _ _ named word valid run _ named' =>
      check_cancel_of_pass named named' word valid run,
    fun _ _ _ => parts?_negative, fun id x seq version => ?_⟩
  simp only [parts?_eq_some, Text.word?_eq_some, Text.signedWord?_eq_some]
  rfl

section Hyphened

/-- A bid of a sender whose name reads like a name and a sequence. -/
def hyphenedBid : PlaceOrder :=
  ⟨⟨"a-1"⟩, 2, "btc/cet", .limit, 0, 6, 7, .buy, .goodTillExpire⟩

/-- Its id is read from the right, and is not that of a first order of `a` under version 2. With a
negative version nothing is read, and numbers may be written with a sign in front. -/
theorem hyphenedBid_faithful :
    (assemble ⟨"a-1"⟩ 2 0).text = "a-1-2-0" ∧
      (assemble ⟨"a-1"⟩ 2 0).parts? = some (⟨"a-1"⟩, 2, 0) ∧
      assemble ⟨"a-1"⟩ 2 0 ≠ assemble ⟨"a"⟩ 1 2 ∧
      (∃ a, hyphenedBid.pass .default ⟨"btc", "cet", ⟨"a"⟩, 8, .zero, 1, 0⟩ .zero {}
          (({} : Accounts).set ⟨"a-1"⟩ "cet" ⟨1000042, 0⟩) 1 = .ok a ∧
        (Message.cancelOrder ⟨⟨"a-1"⟩, a.order.id⟩).check = .ok ()) ∧
      (assemble ⟨"a-1"⟩ 2 (-3)).parts? = none ∧
      (⟨"a-+2-+03"⟩ : OrderId).parts? = some (⟨"a"⟩, 2, 3) := by
  obtain ⟨inj, reads, cancels, negative, exact⟩ := ids_faithful
  have passed : ((hyphenedBid.pass .default ⟨"btc", "cet", ⟨"a"⟩, 8, .zero, 1, 0⟩ .zero {}
      (({} : Accounts).set ⟨"a-1"⟩ "cet" ⟨1000042, 0⟩) 1).toOption).isSome = true := by
    decide +kernel
  obtain ⟨a, run⟩ := Option.isSome_iff_exists.1 passed
  have run := Check.toOption_eq_some.1 run
  have valid : Params.Valid .default := ⟨by decide +kernel, by decide⟩
  refine ⟨by decide +kernel, reads _ _ _ (by decide) (by decide) (by decide) (by decide), ?_,
    ⟨a, run, cancels _ _ _ _ _ _ _ _ (by decide) (by decide) valid run _ (by decide)⟩,
    negative _ _ _ (by decide), ?_⟩
  · rw [Ne, inj]
    decide
  · have two : Text.Digits ['2'] 2 := ⟨by decide, List.forall_mem_singleton.2 rfl, rfl⟩
    have three : Text.Digits ['0', '3'] 3 :=
      ⟨by decide, List.forall_mem_cons.2 ⟨rfl, List.forall_mem_singleton.2 rfl⟩, rfl⟩
    exact (exact _ _ _ _).2 ⟨by decide, ['+', '2'], ['+', '0', '3'], by decide, by decide,
      by decide, ⟨.plus two, by decide⟩, .unsigned (.plus three), by decide, by decide⟩

end Hyphened

end Bourse.OrderId
