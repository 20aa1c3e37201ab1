import Bourse.Order.Id
import Mathlib.Data.List.Basic

/-!
# An order id names its sender, sequence and version

A sender may hold separators, and the separator is also the sign of a negative version; the numbers
hold none, so the text is still taken apart from the right (`assemble_inj`). Under a version that is
not negative the parts of an id can be read again (`parts?_assemble`).
-/

namespace Bourse.OrderId

variable {x y : Address} {seq seq' : Nat} {version version' : Int}

theorem toDigits_inj {n k : Nat} (same : Nat.toDigits 10 n = Nat.toDigits 10 k) : n = k := by
  have values := congrArg (Nat.ofDigitChars 10 · 0) same
  simpa only [Nat.ofDigitChars_ten_toDigits] using values

theorem separator_not_mem (n : Nat) : separator ∉ Nat.toDigits 10 n := by
  intro mem
  have digit : separator.isDigit = true :=
    Nat.isDigit_of_mem_toDigits (by decide) (Nat.le_refl 10) mem
  exact absurd digit (by decide)

/-- The sign of a version is a separator. -/
def sign (version : Int) : List Char := if version < 0 then [separator] else []

theorem sign_comm (version : Int) (text : List Char) :
    separator :: (sign version ++ text) = sign version ++ separator :: text := by
  rw [sign]
  split <;> rfl

theorem toList_version (version : Int) :
    (toString version).toList = sign version ++ Nat.toDigits 10 version.natAbs := by
  cases version with
  | ofNat k => exact (congrArg String.toList Nat.toString_eq_repr).trans Nat.toList_repr
  | negSucc k =>
      have negative : sign (Int.negSucc k) = "-".toList :=
        (if_pos (Int.negSucc_lt_zero k)).trans (by decide)
      change ("-" ++ toString (k + 1)).toList = _
      rw [String.toList_append, Nat.toString_eq_repr, Nat.toList_repr, negative]
      rfl

/-- What stands in front of the last number of an id: nothing comes between the sequence and the
sign of the version. -/
def front (x : Address) (seq : Nat) (version : Int) : List Char :=
  x.text.toList ++ separator :: (Nat.toDigits 10 seq ++ sign version)

theorem splitLast?_assemble (x : Address) (seq : Nat) (version : Int) :
    Text.splitLast? separator (assemble x seq version).text.toList =
      some (front x seq version, Nat.toDigits 10 version.natAbs) := by
  have sep : separator.toString.toList = [separator] := by decide
  have text : (assemble x seq version).text.toList =
      front x seq version ++ separator :: Nat.toDigits 10 version.natAbs := by
    simp only [assemble, front, String.toList_append, toList_version, sep, Nat.toString_eq_repr,
      Nat.toList_repr, List.append_assoc, List.cons_append, List.nil_append, sign_comm]
  rw [text]
  exact Text.splitLast?_append (separator_not_mem _)

theorem splitLast?_front (x : Address) (seq : Nat) (version : Int) :
    Text.splitLast? separator (front x seq version) =
      some (if version < 0 then (front x seq 0, []) else (x.text.toList, Nat.toDigits 10 seq)) := by
  by_cases negative : version < 0
  · have text : front x seq version = front x seq 0 ++ [separator] := by
      simp [front, sign, negative]
    rw [text, if_pos negative]
    exact Text.splitLast?_append List.not_mem_nil
  · have text : front x seq version = x.text.toList ++ separator :: Nat.toDigits 10 seq := by
      simp [front, sign, negative]
    rw [text, if_neg negative]
    exact Text.splitLast?_append (separator_not_mem seq)

theorem front_inj (same : front x seq version = front y seq' version') :
    x = y ∧ seq = seq' ∧ (version < 0 ↔ version' < 0) := by
  have split := congrArg (Text.splitLast? separator) same
  simp only [splitLast?_front, Option.some.injEq] at split
  have named : ∀ {x y : Address} {seq seq' : Nat}, (x.text.toList, Nat.toDigits 10 seq) =
      (y.text.toList, Nat.toDigits 10 seq') → x = y ∧ seq = seq' := by
    rintro ⟨text⟩ ⟨text'⟩ seq seq' same
    obtain ⟨text, number⟩ := Prod.mk.inj same
    exact ⟨congrArg Address.mk (String.toList_injective text), toDigits_inj number⟩
  split at split <;> split at split
  · next negative negative' =>
      have split := congrArg (Text.splitLast? separator) (Prod.mk.inj split).1
      simp only [splitLast?_front, Int.lt_irrefl, ↓reduceIte, Option.some.injEq] at split
      obtain ⟨sender, sequence⟩ := named split
      exact ⟨sender, sequence, iff_of_true negative negative'⟩
  · exact absurd (Prod.mk.inj split).2.symm Nat.toDigits_ne_nil
  · exact absurd (Prod.mk.inj split).2 Nat.toDigits_ne_nil
  · next positive positive' =>
      obtain ⟨sender, sequence⟩ := named split
      exact ⟨sender, sequence, iff_of_false positive positive'⟩

/-- Different senders, sequences or versions give different ids. -/
theorem assemble_inj : assemble x seq version = assemble y seq' version' ↔
    x = y ∧ seq = seq' ∧ version = version' := by
  refine ⟨fun same => ?_, fun ⟨sender, sequence, same⟩ => by rw [sender, sequence, same]⟩
  have split := congrArg (fun id : OrderId => Text.splitLast? separator id.text.toList) same
  simp only [splitLast?_assemble, Option.some.injEq, Prod.mk.injEq] at split
  obtain ⟨sender, sequence, signs⟩ := front_inj split.1
  have magnitude : version.natAbs = version'.natAbs := toDigits_inj split.2
  exact ⟨sender, sequence, by omega⟩

end Bourse.OrderId

namespace Bourse.Text

variable {text : List Char}

theorem digit?_of_isDigit {c : Char} (digit : c.isDigit = true) :
    digit? c = some (c.toNat - '0'.toNat) := by
  simp only [Char.isDigit, Bool.and_eq_true, decide_eq_true_eq] at digit
  exact if_pos digit

/-- Digits are read as the number that they write. -/
theorem digitsFrom?_of_digits (digits : ∀ c ∈ text, c.isDigit = true) (start : Nat) :
    digitsFrom? start text = some (Nat.ofDigitChars 10 text start) := by
  induction text generalizing start with
  | nil => rfl
  | cons c rest ih =>
      rw [List.forall_mem_cons] at digits
      rw [digitsFrom?, digit?_of_isDigit digits.1, Nat.ofDigitChars_cons]
      exact ih digits.2 _

theorem digits?_toDigits (n : Nat) : digits? (Nat.toDigits 10 n) = some n := by
  have digits : ∀ c ∈ Nat.toDigits 10 n, c.isDigit = true := fun _ mem =>
    Nat.isDigit_of_mem_toDigits (by decide) (Nat.le_refl 10) mem
  have read := digitsFrom?_of_digits digits 0
  rw [Nat.ofDigitChars_ten_toDigits] at read
  rw [← read]
  have written : Nat.toDigits 10 n ≠ [] := Nat.toDigits_ne_nil
  cases text : Nat.toDigits 10 n with
  | nil => exact absurd text written
  | cons => rfl

/-- No number is written with a sign. -/
theorem toDigits_ne_sign {n : Nat} {c : Char} {rest : List Char} (sign : c.isDigit = false) :
    Nat.toDigits 10 n ≠ c :: rest := by
  intro text
  have mem : c ∈ Nat.toDigits 10 n := text ▸ List.mem_cons_self
  rw [Nat.isDigit_of_mem_toDigits (by decide) (Nat.le_refl 10) mem] at sign
  cases sign

theorem word?_toDigits {n : Nat} (word : n < Word.size) : word? (Nat.toDigits 10 n) = some n := by
  unfold word?
  split
  · next text => exact absurd text (toDigits_ne_sign (by decide))
  · rw [digits?_toDigits]
    exact if_pos word

theorem signedWord?_toDigits {n : Nat} (word : n < 2 ^ (63 : Nat)) :
    signedWord? (Nat.toDigits 10 n) = some (n : Int) := by
  have least : -(2 ^ (63 : Nat)) ≤ (n : Int) := by omega
  have most : (n : Int) < 2 ^ (63 : Nat) := by omega
  unfold signedWord?
  split
  · next text => exact absurd text (toDigits_ne_sign (by decide))
  · next text => exact absurd text (toDigits_ne_sign (by decide))
  · rw [digits?_toDigits, Option.map_some, Option.bind_eq_bind, Option.bind_some,
      Int.ofNat_eq_natCast]
    beta_reduce
    rw [if_pos ⟨least, most⟩]

end Bourse.Text

namespace Bourse.OrderId

variable {x : Address} {seq : Nat} {version : Int}

/-- The id of an order can be taken apart, unless its sender is empty or its version negative. -/
theorem parts?_assemble (named : x.text ≠ "") (word : seq < Word.size) (positive : 0 ≤ version)
    (small : version < 2 ^ (63 : Nat)) :
    (assemble x seq version).parts? = some (x, seq, version) := by
  have read : Text.signedWord? (Nat.toDigits 10 version.natAbs) = some version := by
    rw [Text.signedWord?_toDigits (by omega), Int.natAbs_of_nonneg positive]
  rw [parts?, splitLast?_assemble]
  simp [splitLast?_front, Int.not_lt.2 positive, read, Text.word?_toDigits word, named]

end Bourse.OrderId
