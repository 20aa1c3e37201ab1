import Bourse.Pair.Basic
import Mathlib.Data.List.Basic

/-!
# A symbol names one market

* `PairId.Spells`: a symbol with one separator, and what stands on either side of it;
* `parse_ok_iff`, `parse_error_iff`: exactly such symbols are read, all others are refused by name;
* `Spells.parts`: the texts on the two sides are the stock and the money of the id;
* `spells_join_iff`: the id that two texts make spells these or nothing;
* `symbols_exact`: hence an id that can be read stands for one stock and one money, in that order.
-/

namespace Bourse.PairId

variable {symbol : String} {stock money a b : Denom} {id : PairId} {fault : Fault}

/-- The symbol has one separator, between two different texts that are not empty. -/
structure Spells (symbol : String) (stock money : Denom) : Prop where
  text : symbol = stock ++ "/" ++ money
  single : symbol.toList.count '/' = 1
  stock_nonempty : stock ≠ ""
  money_nonempty : money ≠ ""
  differ : stock ≠ money

theorem toList_join (stock money : Denom) :
    (join stock money).text.toList = stock.toList ++ separator :: money.toList := by
  simp [join]

theorem split_join (absent : separator ∉ stock.toList) :
    Text.splitFirst? separator (join stock money).text.toList =
      some (stock.toList, money.toList) :=
  Text.splitFirst?_eq_some.2 ⟨toList_join stock money, absent⟩

theorem join_parts (absent : separator ∉ stock.toList) :
    (join stock money).stock = stock ∧ (join stock money).money = money := by
  simp [PairId.stock, PairId.money, split_join absent]

/-- If there is one separator, it is the one that joins the two texts. -/
theorem count_join : (join stock money).text.toList.count separator = 1 ↔
    separator ∉ stock.toList ∧ separator ∉ money.toList := by
  rw [toList_join, List.count_append, List.count_cons_self, ← List.count_eq_zero,
    ← List.count_eq_zero]
  omega

theorem spells_join : Spells (join stock money).text stock money ↔
    stock ≠ "" ∧ money ≠ "" ∧ separator ∉ stock.toList ∧ separator ∉ money.toList ∧
      stock ≠ money := by
  constructor
  · intro spelt
    obtain ⟨absent, absent'⟩ := count_join.1 spelt.single
    exact ⟨spelt.stock_nonempty, spelt.money_nonempty, absent, absent', spelt.differ⟩
  · rintro ⟨given, given', absent, absent', differ⟩
    exact ⟨rfl, count_join.2 ⟨absent, absent'⟩, given, given', differ⟩

theorem Spells.parts (spelt : Spells symbol stock money) :
    (⟨symbol⟩ : PairId).stock = stock ∧ (⟨symbol⟩ : PairId).money = money := by
  obtain rfl : symbol = (join stock money).text := spelt.text
  exact join_parts (count_join.1 spelt.single).1

/-- What the id of two texts spells is these texts. -/
theorem spells_join_iff :
    (∃ stock money, Spells (join a b).text stock money) ↔ Spells (join a b).text a b := by
  refine ⟨fun ⟨stock, money, spelt⟩ => ?_, fun spelt => ⟨a, b, spelt⟩⟩
  obtain ⟨rfl, rfl⟩ := spelt.parts
  have parts : (join a b).stock = a ∧ (join a b).money = b :=
    join_parts (count_join.1 spelt.single).1
  rwa [parts.1, parts.2] at spelt

theorem Spells.swap (spelt : Spells (join a b).text a b) : Spells (join b a).text b a := by
  obtain ⟨given, given', absent, absent', differ⟩ := spells_join.1 spelt
  exact spells_join.2 ⟨given', given, absent', absent, differ.symm⟩

/-- What is asked of the two sides of the first separator makes it the only one. -/
theorem ofSymbol?_join (absent : separator ∉ a.toList) :
    ofSymbol? (join a b).text = some id ↔ id = join a b ∧ Spells (join a b).text a b := by
  have kept : Spells (join a b).text a b ↔
      ¬(a.toList = [] ∨ b.toList = [] ∨ separator ∈ b.toList ∨ a.toList = b.toList) := by
    simp only [spells_join, String.toList_eq_nil_iff, String.toList_inj, not_or, absent,
      not_false_iff, true_and, ne_eq]
  rw [ofSymbol?, split_join absent, kept]
  dsimp only
  split
  · next refused => exact iff_of_false nofun fun ⟨_, kept⟩ => kept refused
  · next kept =>
      rw [Option.some.injEq, and_iff_left kept]
      exact eq_comm

theorem ofSymbol?_eq_some :
    ofSymbol? symbol = some id ↔ id = ⟨symbol⟩ ∧ ∃ stock money, Spells symbol stock money := by
  cases found : Text.splitFirst? separator symbol.toList with
  | none =>
      have unspelt : ¬∃ stock money, Spells symbol stock money := by
        rintro ⟨stock, money, spelt⟩
        obtain rfl : symbol = (join stock money).text := spelt.text
        rw [split_join (count_join.1 spelt.single).1] at found
        cases found
      simp [ofSymbol?, found, unspelt]
  | some sides =>
      obtain ⟨text, absent⟩ := Text.splitFirst?_eq_some.1 found
      obtain rfl : symbol = (join (String.ofList sides.1) (String.ofList sides.2)).text :=
        String.toList_injective (by simp [toList_join, text])
      rw [ofSymbol?_join (by simpa using absent), spells_join_iff]

theorem ofSymbol?_eq_none :
    ofSymbol? symbol = none ↔ ¬∃ stock money, Spells symbol stock money := by
  rw [Option.eq_none_iff_forall_ne_some]
  simp [ofSymbol?_eq_some]

theorem parse_ok_iff :
    parse symbol = .ok id ↔ id = ⟨symbol⟩ ∧ ∃ stock money, Spells symbol stock money := by
  rw [← ofSymbol?_eq_some, parse]
  cases ofSymbol? symbol <;> simp

theorem parse_error_iff :
    parse symbol = .error fault ↔
      fault = .badSymbol symbol ∧ ¬∃ stock money, Spells symbol stock money := by
  rw [← ofSymbol?_eq_none, parse]
  cases ofSymbol? symbol <;> simp [eq_comm]

/-- A symbol names the market with that text. -/
theorem parse_ok (parsed : parse symbol = .ok id) : id = ⟨symbol⟩ := (parse_ok_iff.1 parsed).1

/-- The id that two texts make is read if it spells them. -/
theorem parse_join_ok :
    parse (join a b).text = .ok id ↔ id = join a b ∧ Spells (join a b).text a b := by
  rw [parse_ok_iff, spells_join_iff]

theorem parts_of_parse (parsed : parse (join stock money).text = .ok id) :
    id.stock = stock ∧ id.money = money := by
  obtain ⟨rfl, spelt⟩ := parse_join_ok.1 parsed
  exact spelt.parts

/-- The id that two symbols make is read as a market if they are not empty, differ, and have no
separator in them. -/
theorem parse_join : (∃ id, parse (join stock money).text = .ok id) ↔
    stock ≠ "" ∧ money ≠ "" ∧ separator ∉ stock.toList ∧ separator ∉ money.toList ∧
      stock ≠ money := by
  simp only [parse_join_ok, exists_eq_left]
  exact spells_join

/-- A symbol is read exactly if it has one separator, between two different texts that are not
empty; any other is refused by name. What is read has the text of the symbol, and its stock and its
money make that text again. Two texts make an id that is read exactly if they are not empty, differ
and have no separator in them, and then they are its stock and its money. So a market whose id is
read shares it with no market of another stock or another money, and turned around it is another
market, whose id is read too. -/
theorem symbols_exact :
    (∀ (symbol : String) (id : PairId), parse symbol = .ok id ↔
      id = ⟨symbol⟩ ∧ ∃ stock money, Spells symbol stock money) ∧
    (∀ (symbol : String) (fault : Fault), parse symbol = .error fault ↔
      fault = .badSymbol symbol ∧ ¬∃ stock money, Spells symbol stock money) ∧
    (∀ (symbol : String) (id : PairId), parse symbol = .ok id →
      (join id.stock id.money).text = symbol) ∧
    (∀ stock money : Denom, (∃ id, parse (join stock money).text = .ok id) ↔
      stock ≠ "" ∧ money ≠ "" ∧ '/' ∉ stock.toList ∧ '/' ∉ money.toList ∧ stock ≠ money) ∧
    (∀ (stock money : Denom) (id : PairId), parse (join stock money).text = .ok id →
      id.stock = stock ∧ id.money = money) ∧
    (∀ (p q : Pair) (id : PairId), parse p.id.text = .ok id → q.id = p.id →
      q.stock = p.stock ∧ q.money = p.money) ∧
    ∀ (stock money : Denom) (id : PairId), parse (join stock money).text = .ok id →
      ∃ turned, parse (join money stock).text = .ok turned ∧ turned ≠ id := by
  refine ⟨fun _ _ => parse_ok_iff, fun _ _ => parse_error_iff, fun symbol id parsed => ?_,
    fun _ _ => parse_join, fun _ _ _ => parts_of_parse, fun p q id parsed same => ?_,
    fun stock money id parsed => ?_⟩
  · obtain ⟨rfl, stock, money, spelt⟩ := parse_ok_iff.1 parsed
    rw [spelt.parts.1, spelt.parts.2]
    exact spelt.text.symm
  · have parsed' : parse q.id.text = .ok id := same ▸ parsed
    obtain ⟨stock, money⟩ := parts_of_parse parsed
    obtain ⟨stock', money'⟩ := parts_of_parse parsed'
    exact ⟨stock'.symm.trans stock, money'.symm.trans money⟩
  · obtain ⟨-, spelt⟩ := parse_join_ok.1 parsed
    have turned := parse_join_ok.2 ⟨rfl, spelt.swap⟩
    refine ⟨join money stock, turned, ?_⟩
    rintro rfl
    have same : money = stock := (parts_of_parse turned).1.symm.trans (parts_of_parse parsed).1
    exact spelt.differ same.symm

section Tether

def tether : Pair := ⟨"tusdt", "cet", ⟨"a"⟩, 8, .zero, 1, 0⟩

/-- The same market, listed again by somebody else. -/
def relisted : Pair := { tether with creator := ⟨"b"⟩, precision := 2, creationHeight := 7 }

/-- The id is read and taken apart, and a market that is listed under it later has the same symbols.
Turned around it names another market; with two separators, side by side or not, it names none. -/
theorem tether_symbols :
    parse tether.id.text = .ok ⟨"tusdt/cet"⟩ ∧
      (join (⟨"tusdt/cet"⟩ : PairId).stock (⟨"tusdt/cet"⟩ : PairId).money).text = "tusdt/cet" ∧
      (⟨"tusdt/cet"⟩ : PairId).stock = "tusdt" ∧ (⟨"tusdt/cet"⟩ : PairId).money = "cet" ∧
      (relisted.id = tether.id ∧ relisted.stock = tether.stock ∧ relisted.money = tether.money) ∧
      (∃ turned, parse "cet/tusdt" = .ok turned ∧ turned ≠ ⟨"tusdt/cet"⟩) ∧
      parse "tusdt//cet" = .error (.badSymbol "tusdt//cet") ∧
      ¬∃ id, parse (join "tusdt" "c/t").text = .ok id := by
  obtain ⟨reads, refuses, joins, makes, parts, alone, turns⟩ := symbols_exact
  have parsed : parse tether.id.text = .ok ⟨"tusdt/cet"⟩ :=
    (reads _ _).2 ⟨rfl, "tusdt", "cet", rfl, by decide, by decide, by decide, by decide⟩
  obtain ⟨stock, money⟩ := parts "tusdt" "cet" _ parsed
  refine ⟨parsed, joins _ _ parsed, stock, money, ⟨rfl, alone tether relisted _ parsed rfl⟩,
    turns "tusdt" "cet" _ parsed, ?_, ?_⟩
  · exact (refuses _ _).2 ⟨rfl, fun ⟨_, _, spelt⟩ => absurd spelt.single (by decide)⟩
  · rw [makes]
    decide

/-- An id that cannot be read may be made of different texts. -/
example : join "a" "b/c" = join "a/b" "c" ∧ join "" "/" = join "/" "" := by decide

end Tether

end Bourse.PairId
