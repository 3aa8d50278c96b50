import DocWeave.Text.Blank
import Mathlib.Data.List.DropRight

/-!
# Trimmed texts

A text is `Trimmed` if no blank stands at its ends. Trimming a text gives the only trimmed text
that is left of it when blanks are taken off both ends (`trimChars_eq_iff`).
-/

namespace DocWeave.Text

variable {α : Type} {p : α → Bool} {xs front back : List α} {cs t : List Char}

/-! ## The end of a list -/

theorem dropEndWhile_eq_rdropWhile (p : α → Bool) (xs : List α) :
    dropEndWhile p xs = xs.rdropWhile p := rfl

/-- What is dropped satisfies `p`, and what is left does not end in such a member. -/
theorem dropEndWhile_eq_iff : dropEndWhile p xs = front ↔
    ∃ back, xs = front ++ back ∧ (∀ x ∈ back, p x = true) ∧
      ∀ x ∈ front.getLast?, p x = false := by
  rw [dropEndWhile_eq_rdropWhile]
  constructor
  · rintro rfl
    refine ⟨xs.rtakeWhile p, List.rdropWhile_append_rtakeWhile.symm,
      fun x hx => List.mem_rtakeWhile_imp hx, fun x hx => ?_⟩
    obtain ⟨hne, rfl⟩ := List.mem_getLast?_eq_getLast hx
    simpa using List.rdropWhile_last_not p xs hne
  · rintro ⟨back, rfl, hback, hfront⟩
    induction back using List.reverseRecOn with
    | nil =>
      rw [List.append_nil, List.rdropWhile_eq_self_iff]
      intro hne
      simpa using hfront _ (List.getLast_mem_getLast? hne)
    | append_singleton back x ih =>
      rw [← List.append_assoc, List.rdropWhile_concat_pos p _ x (hback x (by simp))]
      exact ih fun y hy => hback y (by simp [hy])

/-! ## Trimming -/

/-- No blank stands at the start or at the end. -/
structure Trimmed (cs : List Char) : Prop where
  head : ∀ c ∈ cs.head?, isBlank c = false
  last : ∀ c ∈ cs.getLast?, isBlank c = false

theorem trimmed_nil : Trimmed [] := ⟨nofun, nofun⟩

theorem trimChars_eq_iff : trimChars cs = t ↔
    Trimmed t ∧ ∃ before after, cs = before ++ t ++ after ∧ (∀ c ∈ before, isBlank c = true) ∧
      ∀ c ∈ after, isBlank c = true := by
  rw [trimChars, dropBlanksEnd, dropBlanks, dropEndWhile_eq_iff]
  constructor
  · rintro ⟨after, hrest, hafter, hlast⟩
    refine ⟨⟨fun c hc => ?_, hlast⟩, cs.takeWhile isBlank, after, ?_,
      fun c hc => List.mem_takeWhile_imp hc, hafter⟩
    · have hstart := List.head?_dropWhile_not isBlank cs
      have hhead : (cs.dropWhile isBlank).head? = some c := by
        rw [hrest, List.head?_append, Option.mem_def.1 hc, Option.some_or]
      rw [hhead] at hstart
      exact hstart
    · rw [List.append_assoc, ← hrest, List.takeWhile_append_dropWhile]
  · rintro ⟨ht, before, after, rfl, hbefore, hafter⟩
    rw [List.append_assoc, List.dropWhile_append_of_pos hbefore]
    cases t with
    | nil => exact ⟨[], by simpa using hafter, nofun, nofun⟩
    | cons c t =>
      have hc : ¬ isBlank c = true := by simp [ht.head c rfl]
      rw [List.cons_append, List.dropWhile_cons_of_neg hc]
      exact ⟨after, rfl, hafter, ht.last⟩

theorem trimmed_trimChars (cs : List Char) : Trimmed (trimChars cs) :=
  (trimChars_eq_iff.1 rfl).1

theorem exists_eq_of_trimChars (cs : List Char) :
    ∃ before after, cs = before ++ trimChars cs ++ after ∧ (∀ c ∈ before, isBlank c = true) ∧
      ∀ c ∈ after, isBlank c = true :=
  (trimChars_eq_iff.1 rfl).2

theorem Trimmed.trimChars_eq (h : Trimmed cs) : trimChars cs = cs :=
  trimChars_eq_iff.2 ⟨h, [], [], by simp, nofun, nofun⟩

theorem trimmed_iff : Trimmed cs ↔ trimChars cs = cs :=
  ⟨Trimmed.trimChars_eq, fun h => h ▸ trimmed_trimChars cs⟩

theorem trimChars_dropBlanks (cs : List Char) : trimChars (dropBlanks cs) = trimChars cs := by
  rw [trimChars, trimChars, dropBlanks, dropBlanks, List.dropWhile_idempotent]

/-- In front of a trimmed text only the blanks at the start go. -/
theorem trimChars_append (ht : Trimmed t) (hne : t ≠ []) (cs : List Char) :
    trimChars (cs ++ t) = dropBlanks cs ++ t := by
  refine trimChars_eq_iff.2 ⟨⟨fun c hc => ?_, fun c hc => ?_⟩, cs.takeWhile isBlank, [], ?_,
    fun c hc => List.mem_takeWhile_imp hc, nofun⟩
  · rw [List.head?_append, Option.mem_def, Option.or_eq_some_iff] at hc
    rcases hc with hc | ⟨-, hc⟩
    · have hstart := List.head?_dropWhile_not isBlank cs
      rw [← dropBlanks, hc] at hstart
      exact hstart
    · exact ht.head c hc
  · rw [List.getLast?_append_of_ne_nil _ hne] at hc
    exact ht.last c hc
  · rw [List.append_nil, ← List.append_assoc, dropBlanks, List.takeWhile_append_dropWhile]

theorem trimChars_eq_nil_iff : trimChars cs = [] ↔ ∀ c ∈ cs, isBlank c = true := by
  rw [trimChars_eq_iff]
  constructor
  · rintro ⟨-, before, after, rfl, hbefore, hafter⟩ c hc
    rw [List.append_nil, List.mem_append] at hc
    exact hc.elim (hbefore c) (hafter c)
  · exact fun h => ⟨trimmed_nil, cs, [], by simp, h, nofun⟩

/-- A text without any blank is trimmed. -/
theorem trimmed_of_forall (h : ∀ c ∈ cs, isBlank c = false) : Trimmed cs where
  head c hc := h c (List.mem_of_mem_head? hc)
  last c hc := h c (List.mem_of_mem_getLast? hc)

theorem trim_eq_self_iff {s : String} : trim s = s ↔ Trimmed s.toList := by
  rw [trim, trimmed_iff, ← String.toList_inj, String.toList_ofList]

theorem trim_trim (s : String) : trim (trim s) = trim s := by
  rw [trim_eq_self_iff, trim, String.toList_ofList]
  exact trimmed_trimChars _

/-! ## Texts without their blanks -/

/-- The characters that are not blank. -/
def nonBlanks (cs : List Char) : List Char :=
  cs.filter (!isBlank ·)

theorem nonBlanks_append (cs ds : List Char) :
    nonBlanks (cs ++ ds) = nonBlanks cs ++ nonBlanks ds :=
  List.filter_append ..

theorem nonBlanks_eq_nil (h : ∀ c ∈ cs, isBlank c = true) : nonBlanks cs = [] :=
  List.filter_eq_nil_iff.2 fun c hc => by simp [h c hc]

theorem nonBlanks_dropBlanks (cs : List Char) : nonBlanks (dropBlanks cs) = nonBlanks cs := by
  have hstart : nonBlanks (cs.takeWhile isBlank) = [] :=
    nonBlanks_eq_nil fun c hc => List.mem_takeWhile_imp hc
  calc nonBlanks (dropBlanks cs)
    _ = nonBlanks (cs.takeWhile isBlank ++ cs.dropWhile isBlank) := by
      rw [nonBlanks_append, hstart, List.nil_append, dropBlanks]
    _ = nonBlanks cs := by rw [List.takeWhile_append_dropWhile]

theorem nonBlanks_trimChars (cs : List Char) : nonBlanks (trimChars cs) = nonBlanks cs := by
  obtain ⟨before, after, heq, hbefore, hafter⟩ := exists_eq_of_trimChars cs
  calc nonBlanks (trimChars cs)
    _ = nonBlanks (before ++ trimChars cs ++ after) := by
      rw [nonBlanks_append, nonBlanks_append, nonBlanks_eq_nil hbefore, nonBlanks_eq_nil hafter,
        List.nil_append, List.append_nil]
    _ = nonBlanks cs := by rw [← heq]

end DocWeave.Text
