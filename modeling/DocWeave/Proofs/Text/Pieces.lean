import DocWeave.Text.Split

/-!
# Pieces, lines and words of a text

Cutting a text at a character gives the only list of pieces without that character that it joins
(`splitWhere_eq_iff`). The lines are such pieces (`lines_append_lineFeed`). The words of a text are
its longest stretches without a blank: `HasWords` says how they lie in the text, and `words_eq_iff`
that cutting finds them.
-/

namespace DocWeave.Text

variable {p : Char → Bool} {c d : Char} {cs gap w rest : List Char} {pieces ws : List (List Char)}

/-! ## Pieces -/

theorem splitWhere_eq_splitOnP (p : Char → Bool) (cs : List Char) :
    splitWhere p cs = cs.splitOnP p := by
  induction cs with
  | nil => rw [splitWhere, List.splitOnP_nil]
  | cons c cs ih =>
    rw [splitWhere, List.splitOnP_cons_eq_if_modifyHead, ih]
    split
    · rfl
    · have hne : cs.splitOnP p ≠ [] := List.splitOnP_ne_nil p cs
      cases h : cs.splitOnP p with
      | nil => exact (hne h).elim
      | cons piece pieces => rfl

theorem not_of_mem_splitWhere {piece : List Char} (h : piece ∈ splitWhere p cs) :
    ∀ c ∈ piece, p c = false := by
  induction cs generalizing piece with
  | nil =>
    rw [splitWhere, List.mem_singleton] at h
    subst h
    intro x hx
    cases hx
  | cons c cs ih =>
    unfold splitWhere at h
    split at h
    · rcases List.mem_cons.1 h with rfl | h
      · intro x hx
        cases hx
      · exact ih h
    · rename_i hc
      cases hs : splitWhere p cs with
      | nil => exact (splitWhere_ne_nil p cs hs).elim
      | cons first others =>
        rw [hs] at h ih
        rcases List.mem_cons.1 h with rfl | h
        · intro x hx
          rcases List.mem_cons.1 hx with rfl | hx
          · simpa using hc
          · exact ih List.mem_cons_self x hx
        · exact ih (List.mem_cons_of_mem _ h)

theorem splitWhere_eq_iff : splitWhere (· == d) cs = pieces ↔
    pieces ≠ [] ∧ [d].intercalate pieces = cs ∧ ∀ piece ∈ pieces, d ∉ piece := by
  have hsplit : splitWhere (· == d) cs = cs.splitOn d := splitWhere_eq_splitOnP _ cs
  constructor
  · rintro rfl
    refine ⟨splitWhere_ne_nil _ cs, ?_, fun piece hp hd => ?_⟩
    · rw [hsplit, List.intercalate_splitOn]
    · simpa using not_of_mem_splitWhere hp d hd
  · rintro ⟨hne, rfl, hfree⟩
    rw [hsplit, List.splitOn_intercalate d hfree hne]

/-- Texts that are cut at their first `d` are equal if both pieces are. -/
theorem append_cons_inj {xs ys us vs : List Char} (hx : d ∉ xs) (hy : d ∉ ys) :
    xs ++ d :: us = ys ++ d :: vs ↔ xs = ys ∧ us = vs := by
  induction xs generalizing ys with
  | nil =>
    cases ys with
    | nil => simp
    | cons y ys =>
      rw [List.mem_cons, not_or] at hy
      simp [hy.1]
  | cons x xs ih =>
    cases ys with
    | nil =>
      rw [List.mem_cons, not_or] at hx
      simp [Ne.symm hx.1]
    | cons y ys =>
      rw [List.mem_cons, not_or] at hx hy
      rw [List.cons_append, List.cons_append, List.cons.injEq, List.cons.injEq, ih hx.2 hy.2,
        and_assoc]

/-! ## Lines -/

theorem splitWhere_append_cons (hcs : d ∉ cs) :
    splitWhere (· == d) (cs ++ d :: rest) = cs :: splitWhere (· == d) rest := by
  have hfree : ∀ c ∈ cs, (c == d) = false := by
    intro c hc
    rw [beq_eq_false_iff_ne]
    rintro rfl
    exact hcs hc
  rw [splitWhere_eq_splitOnP, splitWhere_eq_splitOnP,
    List.splitOnP_append_cons (p := (· == d)) cs rest (beq_self_eq_true d),
    List.splitOnP_eq_singleton hfree, List.singleton_append]

theorem dropCarriageReturn_concat (cs : List Char) : dropCarriageReturn (cs ++ ['\r']) = cs := by
  rw [dropCarriageReturn, dropEnd?_eq_some_iff.2 rfl, Option.getD_some]

theorem dropCarriageReturn_of_getLast? (h : cs.getLast? ≠ some '\r') :
    dropCarriageReturn cs = cs := by
  cases hdrop : dropEnd? ['\r'] cs with
  | none => rw [dropCarriageReturn, hdrop, Option.getD_none]
  | some front =>
    rw [dropEnd?_eq_some_iff.1 hdrop, List.getLast?_concat] at h
    exact (h rfl).elim

theorem lines_of_not_mem (h : '\n' ∉ cs) : lines cs = if cs.isEmpty then [] else [cs] := by
  have hsplit : splitWhere (· == '\n') cs = [cs] :=
    splitWhere_eq_iff.2 ⟨List.cons_ne_nil cs [], by simp, by simpa using h⟩
  rw [lines, hsplit]
  rfl

/-- A line feed ends the first line. -/
theorem lines_append_lineFeed (h : '\n' ∉ cs) :
    lines (cs ++ '\n' :: rest) = dropCarriageReturn cs :: lines rest := by
  obtain ⟨piece, pieces, hrest⟩ :=
    List.exists_cons_of_ne_nil (splitWhere_ne_nil (· == '\n') rest)
  rw [lines, lines, splitWhere_append_cons h, hrest, List.getLast?_cons_cons,
    List.dropLast_cons_cons, List.map_cons, List.cons_append]

/-! ## Words -/

/-- A word stands behind a gap of blanks; the text ends behind it or goes on with a blank. -/
inductive HasWords : List Char → List (List Char) → Prop where
  | nil {cs : List Char} : (∀ c ∈ cs, isBlank c = true) → HasWords cs []
  | cons {gap w rest : List Char} {ws : List (List Char)} : (∀ c ∈ gap, isBlank c = true) →
    w ≠ [] → (∀ c ∈ w, isBlank c = false) → (∀ c ∈ rest.head?, isBlank c = true) →
    HasWords rest ws → HasWords (gap ++ w ++ rest) (w :: ws)

theorem words_cons_blank (hc : isBlank c = true) (cs : List Char) : words (c :: cs) = words cs := by
  rw [words, splitWhere, if_pos hc]
  rfl

theorem words_append_blanks (hgap : ∀ c ∈ gap, isBlank c = true) (cs : List Char) :
    words (gap ++ cs) = words cs := by
  induction gap with
  | nil => rfl
  | cons c gap ih =>
    rw [List.cons_append, words_cons_blank (hgap c List.mem_cons_self)]
    exact ih fun x hx => hgap x (List.mem_cons_of_mem _ hx)

theorem splitWhere_append_word (hw : ∀ c ∈ w, isBlank c = false) (cs : List Char) :
    splitWhere isBlank (w ++ cs) = (splitWhere isBlank cs).modifyHead (w ++ ·) := by
  obtain ⟨piece, pieces, hcs⟩ := List.exists_cons_of_ne_nil (splitWhere_ne_nil isBlank cs)
  rw [hcs, List.modifyHead_cons]
  induction w with
  | nil => exact hcs
  | cons c w ih =>
    have hc : ¬ isBlank c = true := by simp [hw c List.mem_cons_self]
    rw [List.cons_append, splitWhere, if_neg hc, ih fun x hx => hw x (List.mem_cons_of_mem _ hx)]
    rfl

/-- A word that a blank or the end of the text follows is the first one. -/
theorem words_append_word (hne : w ≠ []) (hw : ∀ c ∈ w, isBlank c = false)
    (hrest : ∀ c ∈ rest.head?, isBlank c = true) : words (w ++ rest) = w :: words rest := by
  have hkeep : (!w.isEmpty) = true := by simpa using hne
  rw [words, splitWhere_append_word hw]
  cases rest with
  | nil => simp [splitWhere, words, hne]
  | cons c rest =>
    rw [words_cons_blank (hrest c rfl), splitWhere, if_pos (hrest c rfl), List.modifyHead_cons,
      List.append_nil]
    exact List.filter_cons_of_pos hkeep

theorem HasWords.words_eq (h : HasWords cs ws) : words cs = ws := by
  induction h with
  | @nil cs hblank =>
    rw [← List.append_nil cs, words_append_blanks hblank]
    rfl
  | cons hgap hne hw hrest _ ih =>
    rw [List.append_assoc, words_append_blanks hgap, words_append_word hne hw hrest, ih]

theorem HasWords.cons_blank (hc : isBlank c = true) (h : HasWords cs ws) :
    HasWords (c :: cs) ws := by
  cases h with
  | nil hblank => exact .nil (List.forall_mem_cons.2 ⟨hc, hblank⟩)
  | @cons gap w rest ws hgap hne hw hrest h =>
    have : HasWords (c :: gap ++ w ++ rest) (w :: ws) :=
      .cons (List.forall_mem_cons.2 ⟨hc, hgap⟩) hne hw hrest h
    exact this

/-- Without a gap in front. -/
theorem HasWords.word (hne : w ≠ []) (hw : ∀ c ∈ w, isBlank c = false)
    (hrest : ∀ c ∈ rest.head?, isBlank c = true) (h : HasWords rest ws) :
    HasWords (w ++ rest) (w :: ws) := by
  have : HasWords ([] ++ w ++ rest) (w :: ws) := .cons nofun hne hw hrest h
  exact this

theorem hasWords_singleton (hne : w ≠ []) (hw : ∀ c ∈ w, isBlank c = false) : HasWords w [w] := by
  have : HasWords (w ++ []) [w] := HasWords.word hne hw nofun (.nil nofun)
  rwa [List.append_nil] at this

/-- A character in front of a word makes it longer; one in front of a blank is a word. -/
theorem HasWords.cons_char (hc : isBlank c = false) (h : HasWords cs ws) :
    ∃ ws, HasWords (c :: cs) ws := by
  by_cases hhead : ∀ x ∈ cs.head?, isBlank x = true
  · have hw : ∀ x ∈ [c], isBlank x = false := by simpa using hc
    exact ⟨[c] :: ws, h.word (List.cons_ne_nil c []) hw hhead⟩
  · cases h with
    | nil hblank => exact (hhead fun x hx => hblank x (List.mem_of_mem_head? hx)).elim
    | @cons gap w rest ws hgap hne hw hrest h =>
      cases gap with
      | nil =>
        exact ⟨(c :: w) :: ws,
          h.word (List.cons_ne_nil c w) (List.forall_mem_cons.2 ⟨hc, hw⟩) hrest⟩
      | cons x gap =>
        refine (hhead fun y hy => ?_).elim
        cases hy
        exact hgap _ List.mem_cons_self

theorem exists_hasWords (cs : List Char) : ∃ ws, HasWords cs ws := by
  induction cs with
  | nil => exact ⟨[], .nil nofun⟩
  | cons c cs ih =>
    obtain ⟨ws, h⟩ := ih
    cases hc : isBlank c with
    | true => exact ⟨ws, h.cons_blank hc⟩
    | false => exact h.cons_char hc

theorem words_eq_iff : words cs = ws ↔ HasWords cs ws := by
  refine ⟨?_, HasWords.words_eq⟩
  rintro rfl
  obtain ⟨ws, h⟩ := exists_hasWords cs
  rwa [h.words_eq]

theorem HasWords.mem (h : HasWords cs ws) (hw : w ∈ ws) : w ≠ [] ∧ ∀ c ∈ w, isBlank c = false := by
  induction h with
  | nil => cases hw
  | cons _ hne hfree _ _ ih =>
    rcases List.mem_cons.1 hw with rfl | hw
    · exact ⟨hne, hfree⟩
    · exact ih hw

/-! ## Collapsed blanks -/

/-- One space stands between neighbouring words of `cs` in `entry`, and nothing else. -/
def CollapsesTo (cs entry : List Char) : Prop :=
  ∃ ws, HasWords cs ws ∧ entry = [' '].intercalate ws

theorem collapseBlanks_eq_iff {entry : List Char} :
    collapseBlanks cs = entry ↔ CollapsesTo cs entry := by
  constructor
  · rintro rfl
    exact ⟨words cs, words_eq_iff.1 rfl, rfl⟩
  · rintro ⟨ws, h, rfl⟩
    rw [collapseBlanks, h.words_eq]

theorem hasWords_intercalate (h : ∀ w ∈ ws, w ≠ [] ∧ ∀ c ∈ w, isBlank c = false) :
    HasWords ([' '].intercalate ws) ws := by
  induction ws with
  | nil => exact .nil nofun
  | cons w ws ih =>
    obtain ⟨hne, hw⟩ := h w List.mem_cons_self
    have hws := ih fun x hx => h x (List.mem_cons_of_mem _ hx)
    cases ws with
    | nil =>
      rw [List.intercalate_singleton]
      exact hasWords_singleton hne hw
    | cons w' ws =>
      rw [List.intercalate_cons_cons, List.append_assoc]
      exact (hws.cons_blank (by decide)).word hne hw (by simp [isBlank])

/-- What is collapsed once stays as it is. -/
theorem collapseBlanks_collapseBlanks (cs : List Char) :
    collapseBlanks (collapseBlanks cs) = collapseBlanks cs :=
  collapseBlanks_eq_iff.2
    ⟨words cs, hasWords_intercalate fun _ hw => (words_eq_iff.1 rfl).mem hw, rfl⟩

/-- A text without blanks is its only word. -/
theorem collapseBlanks_of_forall (h : ∀ c ∈ cs, isBlank c = false) : collapseBlanks cs = cs := by
  cases cs with
  | nil => rfl
  | cons c cs =>
    exact collapseBlanks_eq_iff.2 ⟨[c :: cs], hasWords_singleton (List.cons_ne_nil c cs) h, by simp⟩

theorem HasWords.mem_of_mem {x : Char} (h : HasWords cs ws) (hw : w ∈ ws) (hx : x ∈ w) :
    x ∈ cs := by
  induction h with
  | nil => cases hw
  | cons _ _ _ _ _ ih =>
    rcases List.mem_cons.1 hw with rfl | hw
    · simp [hx]
    · simp [ih hw]

theorem mem_of_mem_intercalate {x : Char} (h : x ∈ [d].intercalate pieces) :
    x = d ∨ ∃ piece ∈ pieces, x ∈ piece := by
  induction pieces with
  | nil => cases h
  | cons piece pieces ih =>
    cases pieces with
    | nil => exact .inr ⟨piece, List.mem_cons_self, by simpa using h⟩
    | cons piece' pieces =>
      rw [List.intercalate_cons_cons, List.append_assoc, List.mem_append] at h
      rcases h with h | h
      · exact .inr ⟨piece, List.mem_cons_self, h⟩
      · rcases List.mem_cons.1 h with rfl | h
        · exact .inl rfl
        · refine (ih h).imp_right fun ⟨q, hq, hx⟩ => ⟨q, List.mem_cons_of_mem _ hq, hx⟩

theorem mem_of_mem_collapseBlanks {x : Char} (h : x ∈ collapseBlanks cs) : x = ' ' ∨ x ∈ cs :=
  (mem_of_mem_intercalate h).imp_right fun ⟨_, hw, hx⟩ => (words_eq_iff.1 rfl).mem_of_mem hw hx

end DocWeave.Text
