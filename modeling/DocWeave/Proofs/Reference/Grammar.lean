import DocWeave.Proofs.Text.Pieces
import DocWeave.Proofs.Text.Trim
import DocWeave.Reference.Parser
import Mathlib.Data.List.Forall2

/-!
# The grammar of references

A member is written as an identifier, alone or with a list of types in parentheses that ends the
text. `MemberText` and `ParamList` say this without any reader, and `Reference.Reads` what a trimmed
text reads as: the first `#` that a member follows divides it. `Reference.parse_eq_iff` shows that
reading gives the one result that the grammar allows.
-/

namespace DocWeave

variable {cs before : List Char} {m : MemberRef}

/-- `inner`, cut at its commas, lists `params`: blanks are collapsed in every piece, and of the
pieces that are empty then those at the end do not count. -/
def ParamList (inner : List Char) (params : List String) : Prop :=
  ∃ pieces dropped, pieces ≠ [] ∧ [','].intercalate pieces = inner ∧
    (∀ piece ∈ pieces, ',' ∉ piece) ∧
    List.Forall₂ Text.CollapsesTo pieces (params.map String.toList ++ dropped) ∧
    (∀ entry ∈ dropped, entry = []) ∧ params.getLast? ≠ some ""

/-- How a member is written behind its `#`. -/
inductive MemberText : List Char → MemberRef → Prop where
  | alone {name : List Char} : Text.Identifier.isIdentifier name = true →
    MemberText name { name := String.ofList name }
  | call {name inner : List Char} {params : List String} :
    Text.Identifier.isIdentifier name = true → ParamList inner params →
    MemberText (name ++ '(' :: inner ++ [')'])
      { name := String.ofList name, params? := some params }

/-- A `#` stands behind `before`, and the rest of `cs` is the member `m`. -/
def MemberAt (cs before : List Char) (m : MemberRef) : Prop :=
  ∃ rest, cs = before ++ '#' :: rest ∧ MemberText rest m

/-- The first `#` of `cs` that a member follows stands behind `before`. -/
structure FirstMemberAt (cs before : List Char) (m : MemberRef) : Prop where
  here : MemberAt cs before m
  first : ∀ before' m', MemberAt cs before' m' → before.length ≤ before'.length

/-- What a trimmed text reads as. -/
inductive Reference.Reads : List Char → Except ReferenceError Reference → Prop where
  | empty : Reads [] (.error .empty)
  | bare {cs : List Char} : cs ≠ [] → '#' ∉ cs → Reads cs (.ok { target := String.ofList cs })
  | malformed {cs : List Char} : '#' ∈ cs → (∀ before m, ¬ MemberAt cs before m) →
    Reads cs (.error (.malformedMember (String.ofList cs)))
  | missingTarget {cs before : List Char} {m : MemberRef} : FirstMemberAt cs before m →
    (∀ c ∈ before, Text.isBlank c = true) → Reads cs (.error (.missingTarget (String.ofList cs)))
  | member {cs before : List Char} {m : MemberRef} : FirstMemberAt cs before m →
    (∃ c ∈ before, Text.isBlank c = false) →
    Reads cs (.ok { target := String.ofList (Text.trimChars before), member? := some m })

/-! ## Lists of types -/

theorem forall₂_collapsesTo_iff {pieces entries : List (List Char)} :
    List.Forall₂ Text.CollapsesTo pieces entries ↔ pieces.map Text.collapseBlanks = entries := by
  have hrel : Text.CollapsesTo = fun piece entry => Text.collapseBlanks piece = entry := by
    funext piece entry
    exact propext Text.collapseBlanks_eq_iff.symm
  rw [hrel, ← List.forall₂_map_left_iff, List.forall₂_eq_eq_eq]

theorem getLast?_map_ofList {entries : List (List Char)} :
    (entries.map String.ofList).getLast? ≠ some "" ↔
      ∀ entry ∈ entries.getLast?, entry.isEmpty = false := by
  rw [List.getLast?_map]
  cases entries.getLast? with
  | none => simp
  | some entry =>
    rw [Option.map_some, ne_eq, Option.some_inj, ← String.toList_inj, String.toList_ofList]
    simp [Option.mem_def]

theorem MemberRef.parseParams_eq_iff {inner : List Char} {params : List String} :
    parseParams inner = params ↔ ParamList inner params := by
  constructor
  · rintro rfl
    obtain ⟨hne, hjoin, hfree⟩ := Text.splitWhere_eq_iff.1
      (rfl : Text.splitWhere (· == ',') inner = _)
    obtain ⟨dropped, hentries, hdropped, hlast⟩ := Text.dropEndWhile_eq_iff.1
      (rfl : Text.dropEndWhile List.isEmpty
        ((Text.splitWhere (· == ',') inner).map Text.collapseBlanks) = _)
    refine ⟨_, dropped, hne, hjoin, hfree, ?_, fun entry he => by simpa using hdropped entry he, ?_⟩
    · rw [forall₂_collapsesTo_iff, hentries, parseParams, List.map_map]
      congr 1
      simp [Function.comp_def]
    · exact getLast?_map_ofList.2 hlast
  · rintro ⟨pieces, dropped, hne, hjoin, hfree, hentries, hdropped, hlast⟩
    have hofList : (params.map String.toList).map String.ofList = params := by
      simp [Function.comp_def]
    have hkept : Text.dropEndWhile List.isEmpty (params.map String.toList ++ dropped) =
        params.map String.toList := by
      refine Text.dropEndWhile_eq_iff.2 ⟨dropped, rfl, fun entry he => ?_, ?_⟩
      · simp [hdropped entry he]
      · rw [← hofList] at hlast
        exact getLast?_map_ofList.1 hlast
    rw [parseParams, Text.splitWhere_eq_iff.2 ⟨hne, hjoin, hfree⟩,
      forall₂_collapsesTo_iff.1 hentries, hkept, hofList]

/-! ## Members -/

namespace MemberRef

theorem parse?_eq_some_iff : parse? cs = some m ↔ MemberText cs m := by
  constructor
  · intro h
    unfold parse? at h
    split at h
    · cases h
    · rename_i name hspan
      obtain ⟨rfl, hname, -⟩ := Text.Identifier.span?_eq_some_iff.1 hspan
      cases h
      rw [List.append_nil]
      exact .alone hname
    · rename_i name rest hspan
      obtain ⟨rfl, hname, -⟩ := Text.Identifier.span?_eq_some_iff.1 hspan
      split at h
      · rename_i inner hinner
        cases h
        rw [Text.dropEnd?_eq_some_iff.1 hinner, ← List.cons_append, ← List.append_assoc]
        exact .call hname (parseParams_eq_iff.1 rfl)
      · cases h
    · cases h
  · intro h
    cases h with
    | alone hname =>
      have hspan : Text.Identifier.span? cs = some (cs, []) :=
        Text.Identifier.span?_eq_some_iff.2 ⟨by simp, hname, nofun⟩
      rw [parse?, hspan]
    | @call name inner params hname hparams =>
      have hopen : Text.Identifier.isPart '(' = false :=
        Text.Identifier.isPart_divider _ (by simp)
      have hspan : Text.Identifier.span? (name ++ '(' :: inner ++ [')']) =
          some (name, '(' :: (inner ++ [')'])) :=
        Text.Identifier.span?_eq_some_iff.2 ⟨by simp, hname, by simpa using hopen⟩
      have hclose : Text.dropEnd? [')'] (inner ++ [')']) = some inner :=
        Text.dropEnd?_eq_some_iff.2 rfl
      rw [parse?, hspan]
      simp only [hclose, parseParams_eq_iff.2 hparams]

end MemberRef

/-! ## The first member of a text -/

theorem not_memberAt_nil : ¬ MemberAt [] before m := by
  rintro ⟨rest, h, -⟩
  simp at h

theorem memberAt_cons_cons {c d : Char} :
    MemberAt (c :: cs) (d :: before) m ↔ c = d ∧ MemberAt cs before m := by
  simp only [MemberAt, List.cons_append, List.cons.injEq]
  constructor
  · rintro ⟨rest, ⟨rfl, hcs⟩, hm⟩
    exact ⟨rfl, rest, hcs, hm⟩
  · rintro ⟨rfl, rest, hcs, hm⟩
    exact ⟨rest, ⟨rfl, hcs⟩, hm⟩

theorem FirstMemberAt.unique {before' : List Char} {m' : MemberRef} (h : FirstMemberAt cs before m)
    (h' : FirstMemberAt cs before' m') : before = before' ∧ m = m' := by
  obtain ⟨rest, hcs, hm⟩ := h.here
  obtain ⟨rest', hcs', hm'⟩ := h'.here
  have hlength : before.length = before'.length :=
    Nat.le_antisymm (h.first _ _ h'.here) (h'.first _ _ h.here)
  obtain ⟨rfl, hrest⟩ := List.append_inj (hcs.symm.trans hcs') hlength
  cases hrest
  refine ⟨rfl, Option.some_inj.1 ?_⟩
  rw [← MemberRef.parse?_eq_some_iff.2 hm, MemberRef.parse?_eq_some_iff.2 hm']

/-- The member that starts at the front of a text, behind a `#`. -/
theorem memberAt_cons_nil {c : Char} :
    MemberAt (c :: cs) [] m ↔ (if c = '#' then MemberRef.parse? cs else none) = some m := by
  split
  · rename_i hc
    subst hc
    simp [MemberAt, MemberRef.parse?_eq_some_iff]
  · rename_i hc
    simp [MemberAt, hc]

namespace Reference

theorem splitMember?_eq_none_iff : splitMember? cs = none ↔ ∀ before m, ¬ MemberAt cs before m := by
  induction cs with
  | nil => simp [splitMember?, not_memberAt_nil]
  | cons c cs ih =>
    unfold splitMember?
    split
    · rename_i member hmember
      simp only [reduceCtorEq, false_iff, not_forall, not_not]
      exact ⟨[], member, memberAt_cons_nil.2 hmember⟩
    · rename_i hnone
      rw [Option.map_eq_none_iff, ih]
      constructor
      · rintro h (_ | ⟨d, before⟩) m hat
        · rw [memberAt_cons_nil, hnone] at hat
          cases hat
        · exact h before m (memberAt_cons_cons.1 hat).2
      · exact fun h before m hat => h (c :: before) m (memberAt_cons_cons.2 ⟨rfl, hat⟩)

theorem firstMemberAt_of_splitMember? (h : splitMember? cs = some (before, m)) :
    FirstMemberAt cs before m := by
  induction cs generalizing before with
  | nil => cases h
  | cons c cs ih =>
    unfold splitMember? at h
    split at h
    · rename_i member hmember
      cases h
      exact ⟨memberAt_cons_nil.2 hmember, fun _ _ _ => Nat.zero_le _⟩
    · rename_i hnone
      obtain ⟨⟨target, member⟩, hrest, heq⟩ := Option.map_eq_some_iff.1 h
      cases heq
      obtain ⟨hhere, hfirst⟩ := ih hrest
      refine ⟨memberAt_cons_cons.2 ⟨rfl, hhere⟩, ?_⟩
      rintro (_ | ⟨d, before'⟩) m' hat
      · rw [memberAt_cons_nil, hnone] at hat
        cases hat
      · exact Nat.succ_le_succ (hfirst before' m' (memberAt_cons_cons.1 hat).2)

theorem splitMember?_eq_some_iff :
    splitMember? cs = some (before, m) ↔ FirstMemberAt cs before m := by
  refine ⟨firstMemberAt_of_splitMember?, fun h => ?_⟩
  cases hsplit : splitMember? cs with
  | none => exact (splitMember?_eq_none_iff.1 hsplit _ _ h.here).elim
  | some found =>
    obtain ⟨rfl, rfl⟩ := h.unique (firstMemberAt_of_splitMember? hsplit)
    rfl

/-! ## References -/

theorem parse_of_reads {written : String} {result : Except ReferenceError Reference}
    (h : Reads (Text.trimChars written.toList) result) : parse written = result := by
  unfold parse
  simp only
  generalize Text.trimChars written.toList = cs at h
  have hmem : ∀ {before m}, FirstMemberAt cs before m → '#' ∈ cs := by
    rintro before m ⟨⟨rest, rfl, -⟩, -⟩
    simp
  have hsome : '#' ∈ cs → cs.isEmpty = false := by
    intro hhash
    simpa using List.ne_nil_of_mem hhash
  cases h with
  | empty => rfl
  | bare hne hhash => simp [hne, hhash]
  | malformed hhash hnone =>
    simp [hsome hhash, hhash, splitMember?_eq_none_iff.2 hnone]
  | missingTarget hfirst hblank =>
    have hhash := hmem hfirst
    simp [hsome hhash, hhash, splitMember?_eq_some_iff.2 hfirst, Text.trimChars_eq_nil_iff.2 hblank]
  | member hfirst hwritten =>
    rename_i before m
    obtain ⟨c, hc, hblank⟩ := hwritten
    have hhash := hmem hfirst
    have htarget : ¬ ∀ c ∈ before, Text.isBlank c = true := fun h => by simp [h c hc] at hblank
    simp [hsome hhash, hhash, splitMember?_eq_some_iff.2 hfirst,
      mt Text.trimChars_eq_nil_iff.1 htarget]

theorem exists_reads (cs : List Char) : ∃ result, Reads cs result := by
  by_cases hne : cs = []
  · subst hne
    exact ⟨_, .empty⟩
  by_cases hhash : '#' ∈ cs
  · cases hsplit : splitMember? cs with
    | none => exact ⟨_, .malformed hhash (splitMember?_eq_none_iff.1 hsplit)⟩
    | some found =>
      have hfirst := splitMember?_eq_some_iff.1 hsplit
      by_cases hblank : ∀ c ∈ found.1, Text.isBlank c = true
      · exact ⟨_, .missingTarget hfirst hblank⟩
      · refine ⟨_, .member hfirst ?_⟩
        simpa using hblank
  · exact ⟨_, .bare hne hhash⟩

theorem parse_eq_iff {written : String} {result : Except ReferenceError Reference} :
    parse written = result ↔ Reads (Text.trimChars written.toList) result := by
  refine ⟨?_, parse_of_reads⟩
  rintro rfl
  obtain ⟨result, hreads⟩ := exists_reads (Text.trimChars written.toList)
  rwa [parse_of_reads hreads]

/-- A list of types belongs to a member. -/
theorem isMember_of_params? {r : Reference} (h : r.params?.isSome = true) : r.isMember = true := by
  obtain ⟨m, hm, -⟩ := Option.bind_eq_some_iff.1 (Option.get_mem h)
  rw [isMember, hm]
  rfl

/-- Reading a text gives what the grammar says of the text without the blanks at its ends, and the
grammar says one thing only. A reference that is read has parentheses if it has a list of types, and
such a list belongs to a member. -/
theorem parse_follows_grammar (written : String) (result : Except ReferenceError Reference) :
    (parse written = result ↔ Reads (Text.trimChars written.toList) result) ∧
      ∀ r, parse written = .ok r → (r.hasParens = true ↔ r.params?.isSome = true) ∧
        (r.params?.isSome = true → r.isMember = true) :=
  ⟨parse_eq_iff, fun _ _ => ⟨Iff.rfl, isMember_of_params?⟩⟩

end Reference
end DocWeave
