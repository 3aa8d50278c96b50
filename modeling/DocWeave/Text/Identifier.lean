import DocWeave.Text.Blank
import DocWeave.Text.Identifier.Ranges

/-!
# Identifiers

An identifier starts with `_`, `$` or an XID_Start character and goes on with `$` and
XID_Continue characters. `span?` cuts the longest identifier off the front of a text.
-/

namespace DocWeave.Text.Identifier

/-- Membership in one of the ranges. -/
def inRanges (ranges : List (Nat × Nat)) (n : Nat) : Bool :=
  ranges.any fun (low, high) => low ≤ n && n ≤ high

/-- A character that an identifier may start with. -/
def isStart (c : Char) : Bool :=
  c == '_' || c == '$' || inRanges startRanges c.toNat

/-- A character that an identifier may go on with. -/
def isPart (c : Char) : Bool :=
  c == '$' || inRanges startRanges c.toNat || inRanges continueRanges c.toNat

/-- The longest identifier at the front, if there is one, and what follows it. -/
def span? : List Char → Option (List Char × List Char)
  | [] => none
  | c :: cs => if isStart c then some (c :: cs.takeWhile isPart, cs.dropWhile isPart) else none

/-- Whether the text is one identifier. -/
def isIdentifier (cs : List Char) : Bool :=
  match cs with
  | [] => false
  | c :: cs => isStart c && cs.all isPart

theorem isPart_of_isStart {c : Char} (h : isStart c = true) : isPart c = true := by
  simp only [isStart, Bool.or_eq_true, beq_iff_eq] at h
  rcases h with (rfl | rfl) | h
  · decide +kernel
  · rfl
  · simp [isPart, h]

/-- The code points of the blanks are in neither table. -/
theorem inRanges_blank : ∀ n ∈ [0x09, 0x0a, 0x0b, 0x0c, 0x0d, 0x20, 0x85, 0xa0, 0x1680, 0x2000,
    0x2001, 0x2002, 0x2003, 0x2004, 0x2005, 0x2006, 0x2007, 0x2008, 0x2009, 0x200a, 0x2028, 0x2029,
    0x202f, 0x205f, 0x3000],
    inRanges startRanges n = false ∧ inRanges continueRanges n = false := by
  decide +kernel

theorem isPart_of_isBlank {c : Char} (h : isBlank c = true) : isPart c = false := by
  have hdollar : c ≠ '$' := by
    rintro rfl
    revert h
    decide
  simp only [isBlank, Bool.or_eq_true, Bool.and_eq_true, decide_eq_true_eq, beq_iff_eq] at h
  obtain ⟨hstart, hcontinue⟩ := inRanges_blank c.toNat (by
    simp only [List.mem_cons, List.not_mem_nil, or_false]
    omega)
  simp [isPart, hdollar, hstart, hcontinue]

/-- The characters that divide a reference are in no identifier. -/
theorem isPart_divider : ∀ c ∈ ['#', '(', ')', ','], isPart c = false := by
  have hall : ['#', '(', ')', ','].all (!isPart ·) = true := by decide +kernel
  simpa using hall

theorem eq_append_of_span? {cs name rest : List Char} (h : span? cs = some (name, rest)) :
    cs = name ++ rest := by
  cases cs with
  | nil => simp [span?] at h
  | cons c cs =>
    simp only [span?] at h
    split at h
    · obtain ⟨rfl, rfl⟩ : _ = name ∧ _ = rest := by simpa using h
      simp
    · simp at h

theorem isPart_of_isIdentifier {cs : List Char} (h : isIdentifier cs = true) :
    ∀ c ∈ cs, isPart c = true := by
  cases cs with
  | nil => nofun
  | cons c cs =>
    simp only [isIdentifier, Bool.and_eq_true, List.all_eq_true] at h
    exact List.forall_mem_cons.2 ⟨isPart_of_isStart h.1, h.2⟩

/-- An identifier has neither blanks nor anything that divides a reference. -/
theorem plain_of_isIdentifier {cs : List Char} (h : isIdentifier cs = true) :
    ∀ c ∈ cs, isBlank c = false ∧ c ≠ '#' ∧ c ≠ '(' ∧ c ≠ ')' := by
  intro c hc
  have hpart := isPart_of_isIdentifier h c hc
  have hne : ∀ x ∈ ['#', '(', ')', ','], c ≠ x := by
    rintro x hx rfl
    rw [isPart_divider c hx] at hpart
    cases hpart
  refine ⟨?_, hne _ (by simp), hne _ (by simp), hne _ (by simp)⟩
  rw [Bool.eq_false_iff]
  intro hblank
  rw [isPart_of_isBlank hblank] at hpart
  cases hpart

/-- What is cut off is an identifier that the next character does not go on with. -/
theorem span?_eq_some_iff {cs name rest : List Char} : span? cs = some (name, rest) ↔
    cs = name ++ rest ∧ isIdentifier name = true ∧ ∀ c ∈ rest.head?, isPart c = false := by
  constructor
  · intro h
    refine ⟨eq_append_of_span? h, ?_⟩
    cases cs with
    | nil => cases h
    | cons c cs =>
      rw [span?] at h
      split at h
      · rename_i hc
        cases h
        refine ⟨?_, fun x hx => ?_⟩
        · simp only [isIdentifier, Bool.and_eq_true, List.all_eq_true]
          exact ⟨hc, fun x hx => (List.all_eq_true.1 (List.all_takeWhile) x hx)⟩
        · have hstart := List.head?_dropWhile_not isPart cs
          rw [Option.mem_def.1 hx] at hstart
          exact hstart
      · cases h
  · rintro ⟨rfl, hname, hrest⟩
    cases name with
    | nil => cases hname
    | cons c name =>
      simp only [isIdentifier, Bool.and_eq_true, List.all_eq_true] at hname
      obtain ⟨hc, hparts⟩ := hname
      obtain ⟨htake, hdrop⟩ := takeWhile_dropWhile_append hparts hrest
      rw [List.cons_append, span?, if_pos hc, htake, hdrop]

end DocWeave.Text.Identifier
