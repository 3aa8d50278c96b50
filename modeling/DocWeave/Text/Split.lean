import DocWeave.Text.Blank

/-!
# Cutting texts

`splitWhere` cuts at every character of a class, `splitLast?` at the last occurrence of one
character; `lines` and `words` cut at line ends and at blanks.
-/

namespace DocWeave.Text

/-- Puts a character in front of the first piece. -/
def consHead (c : Char) : List (List Char) → List (List Char)
  | [] => [[c]]
  | piece :: rest => (c :: piece) :: rest

/-- The pieces between the characters that satisfy `p`: one more than there are such characters. -/
def splitWhere (p : Char → Bool) : List Char → List (List Char)
  | [] => [[]]
  | c :: cs => if p c then [] :: splitWhere p cs else consHead c (splitWhere p cs)

/-- What stands before and after the last occurrence of `d`. -/
def splitLast? (d : Char) : List Char → Option (List Char × List Char)
  | [] => none
  | c :: cs =>
    match splitLast? d cs with
    | some (before, after) => some (c :: before, after)
    | none => if c = d then some ([], cs) else none

/-- The text without `tail`, if it ends with it. -/
def dropEnd? (tail cs : List Char) : Option (List Char) :=
  if tail.isSuffixOf cs then some (cs.take (cs.length - tail.length)) else none

/-- The text without `head`, if it starts with it. -/
def dropStart? (head cs : List Char) : Option (List Char) :=
  if head.isPrefixOf cs then some (cs.drop head.length) else none

/-- A line without the carriage return at its end. -/
def dropCarriageReturn (line : List Char) : List Char :=
  (dropEnd? ['\r'] line).getD line

/-- The lines of a text. A line ends with a line feed, before which one carriage return is part of
the line end; the end of the text ends a last line that is not empty. -/
def lines (cs : List Char) : List (List Char) :=
  let pieces := splitWhere (· == '\n') cs
  let last := pieces.getLast?.getD []
  pieces.dropLast.map dropCarriageReturn ++ (if last.isEmpty then [] else [last])

/-- The maximal runs of characters that are not blank. -/
def words (cs : List Char) : List (List Char) :=
  (splitWhere isBlank cs).filter (!·.isEmpty)

/-- The words of a text with one space between neighbours. -/
def collapseBlanks (cs : List Char) : List Char :=
  List.intercalate [' '] (words cs)

theorem dropEnd?_eq_some_iff {tail cs front : List Char} :
    dropEnd? tail cs = some front ↔ cs = front ++ tail := by
  unfold dropEnd?
  split
  · rename_i h
    obtain ⟨start, rfl⟩ := List.isSuffixOf_iff_suffix.1 h
    simp
  · rename_i h
    simp only [reduceCtorEq, false_iff]
    rintro rfl
    exact h (List.isSuffixOf_iff_suffix.2 ⟨front, rfl⟩)

theorem dropStart?_eq_some_iff {head cs rest : List Char} :
    dropStart? head cs = some rest ↔ cs = head ++ rest := by
  unfold dropStart?
  split
  · rename_i h
    obtain ⟨rest', rfl⟩ := List.isPrefixOf_iff_prefix.1 h
    simp
  · rename_i h
    simp only [reduceCtorEq, false_iff]
    rintro rfl
    exact h (List.isPrefixOf_iff_prefix.2 ⟨rest, rfl⟩)

theorem splitWhere_ne_nil (p : Char → Bool) (cs : List Char) : splitWhere p cs ≠ [] := by
  cases cs with
  | nil => simp [splitWhere]
  | cons c cs =>
    unfold splitWhere
    split
    · simp
    · cases splitWhere p cs <;> simp [consHead]

theorem splitLast?_eq_none_iff {d : Char} {cs : List Char} :
    splitLast? d cs = none ↔ d ∉ cs := by
  induction cs with
  | nil => simp [splitLast?]
  | cons c cs ih =>
    unfold splitLast?
    split
    · rename_i heq
      have : ¬ d ∉ cs := fun h => by simp [ih.2 h] at heq
      simp [Classical.not_not.1 this]
    · rename_i heq
      have := ih.1 heq
      by_cases h : c = d
      · simp [h]
      · simp [h, this, Ne.symm h]

/-- The pieces of the last cut make up the text, and the second holds no further occurrence. -/
theorem eq_of_splitLast? {d : Char} {cs before after : List Char}
    (h : splitLast? d cs = some (before, after)) : cs = before ++ d :: after ∧ d ∉ after := by
  induction cs generalizing before with
  | nil => simp [splitLast?] at h
  | cons c cs ih =>
    unfold splitLast? at h
    split at h
    · rename_i b a heq
      obtain ⟨rfl, rfl⟩ : c :: b = before ∧ a = after := by simpa using h
      obtain ⟨rfl, hd⟩ := ih heq
      exact ⟨rfl, hd⟩
    · rename_i heq
      split at h
      · obtain ⟨rfl, rfl⟩ : [] = before ∧ cs = after := by simpa using h
        subst_vars
        exact ⟨rfl, splitLast?_eq_none_iff.1 heq⟩
      · simp at h

theorem splitLast?_eq_some_iff {d : Char} {cs before after : List Char} :
    splitLast? d cs = some (before, after) ↔ cs = before ++ d :: after ∧ d ∉ after := by
  constructor
  · exact eq_of_splitLast?
  · rintro ⟨rfl, hd⟩
    induction before with
    | nil => rw [List.nil_append, splitLast?, splitLast?_eq_none_iff.2 hd]; exact if_pos rfl
    | cons c before ih => rw [List.cons_append, splitLast?, ih]

end DocWeave.Text
