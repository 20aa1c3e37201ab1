/-! Cutting a text at the first or at the last occurrence of a separator. -/

namespace Bourse.Text

/-- What stands before and after the first `sep`. -/
def splitFirst? (sep : Char) : List Char → Option (List Char × List Char)
  | [] => none
  | c :: rest =>
      if c = sep then some ([], rest)
      else (splitFirst? sep rest).map fun (before, after) => (c :: before, after)

/-- What stands before and after the last `sep`. -/
def splitLast? (sep : Char) : List Char → Option (List Char × List Char)
  | [] => none
  | c :: rest =>
      match splitLast? sep rest with
      | some (before, after) => some (c :: before, after)
      | none => if c = sep then some ([], rest) else none

theorem splitFirst?_eq_some {sep : Char} {text before after : List Char} :
    splitFirst? sep text = some (before, after) ↔ text = before ++ sep :: after ∧ sep ∉ before := by
  induction text generalizing before with
  | nil => simp [splitFirst?]
  | cons c rest ih =>
      by_cases h : c = sep
      · cases before <;> simp_all [splitFirst?, eq_comm]
      · cases before with
        | nil => simp [splitFirst?, h]
        | cons d before =>
            simp only [splitFirst?, h, ↓reduceIte, Option.map_eq_some_iff, Prod.exists,
              Prod.mk.injEq, List.cons.injEq, List.cons_append, List.mem_cons, not_or]
            constructor
            · rintro ⟨b, a, found, ⟨rfl, rfl⟩, rfl⟩
              exact ⟨⟨rfl, (ih.1 found).1⟩, fun e => h e.symm, (ih.1 found).2⟩
            · rintro ⟨⟨rfl, rfl⟩, _, absent⟩
              exact ⟨before, after, ih.2 ⟨rfl, absent⟩, ⟨rfl, rfl⟩, rfl⟩

theorem splitLast?_eq_none {sep : Char} {text : List Char} :
    splitLast? sep text = none ↔ sep ∉ text := by
  induction text with
  | nil => simp [splitLast?]
  | cons c rest ih =>
      simp only [splitLast?, List.mem_cons, not_or]
      cases found : splitLast? sep rest with
      | none => simp [ih.1 found, eq_comm]
      | some parts =>
          rw [found] at ih
          simp only [reduceCtorEq, false_iff, Decidable.not_not] at ih
          simp [ih]

theorem splitLast?_append {sep : Char} {before after : List Char} (absent : sep ∉ after) :
    splitLast? sep (before ++ sep :: after) = some (before, after) := by
  induction before with
  | nil => simp [splitLast?, splitLast?_eq_none.2 absent]
  | cons c before ih => simp [splitLast?, ih]

theorem splitLast?_eq_some {sep : Char} {text before after : List Char} :
    splitLast? sep text = some (before, after) ↔ text = before ++ sep :: after ∧ sep ∉ after := by
  refine ⟨fun found => ?_, fun ⟨eq, absent⟩ => eq ▸ splitLast?_append absent⟩
  induction text generalizing before with
  | nil => simp [splitLast?] at found
  | cons c rest ih =>
      simp only [splitLast?] at found
      cases inner : splitLast? sep rest with
      | none =>
          rw [inner] at found
          by_cases h : c = sep
          · simp only [h, ↓reduceIte, Option.some.injEq, Prod.mk.injEq] at found
            obtain ⟨rfl, rfl⟩ := found
            exact ⟨by simp [h], splitLast?_eq_none.1 inner⟩
          · simp [h] at found
      | some parts =>
          rw [inner] at found
          simp only [Option.some.injEq, Prod.mk.injEq] at found
          obtain ⟨rfl, rfl⟩ := found
          have := ih inner
          exact ⟨by simp [this.1], this.2⟩

end Bourse.Text
