import DocWeave.Proofs.Reference.Grammar

/-!
# Printed references

A reference is `Plain` if nothing in it is lost when it is printed and read again: this asks for a
trimmed target without a `#` and for a plain member. What is read has a plain member, but its target
may hold `#`s. Trimming the target does not let a member follow one of these, because a member that
reaches over the dividing `#` is a call, and a call ends with the parenthesis that was there before
(`not_memberText_of_firstMemberAt`). So every reference that is read is read from its printed form.
-/

namespace DocWeave

variable {cs before rest t : List Char} {m m' : MemberRef}

namespace MemberRef

/-- The member as it is written without blanks. -/
def chars (m : MemberRef) : List Char :=
  match m.params? with
  | none => m.name.toList
  | some params => m.name.toList ++ '(' :: [','].intercalate (params.map String.toList) ++ [')']

/-- The name is an identifier, and the types have no comma, no blanks that would collapse and no
empty one at the end. -/
structure Plain (m : MemberRef) : Prop where
  name : Text.Identifier.isIdentifier m.name.toList = true
  params : ∀ params, m.params? = some params → params.getLast? ≠ some "" ∧
    ∀ param ∈ params, ',' ∉ param.toList ∧ Text.collapseBlanks param.toList = param.toList

end MemberRef

/-- The target is trimmed, not empty and without `#`, and the member, if there is one, is plain. -/
structure Reference.Plain (r : Reference) : Prop where
  target_ne : r.target ≠ ""
  target_trim : Text.trim r.target = r.target
  target_hash : '#' ∉ r.target.toList
  member : ∀ m, r.member? = some m → m.Plain

/-! ## Members -/

theorem paramList_of_plain {params : List String} (hlast : params.getLast? ≠ some "")
    (hplain : ∀ param ∈ params, ',' ∉ param.toList ∧
      Text.collapseBlanks param.toList = param.toList) :
    ParamList ([','].intercalate (params.map String.toList)) params := by
  cases params with
  | nil =>
    exact ⟨[[]], [[]], by simp, rfl, by simp, forall₂_collapsesTo_iff.2 rfl, by simp, by simp⟩
  | cons param params =>
    refine ⟨_, [], by simp, rfl, ?_, forall₂_collapsesTo_iff.2 ?_, nofun, hlast⟩
    · intro piece hpiece
      obtain ⟨q, hq, rfl⟩ := List.mem_map.1 hpiece
      exact (hplain q hq).1
    · rw [List.append_nil, List.map_map]
      exact List.map_congr_left fun q hq => (hplain q hq).2

theorem ParamList.plain {inner : List Char} {params : List String} (h : ParamList inner params) :
    params.getLast? ≠ some "" ∧ ∀ param ∈ params, ',' ∉ param.toList ∧
      Text.collapseBlanks param.toList = param.toList := by
  obtain ⟨pieces, dropped, -, -, hfree, hentries, -, hlast⟩ := h
  refine ⟨hlast, fun param hparam => ?_⟩
  have hmem : param.toList ∈ pieces.map Text.collapseBlanks := by
    rw [forall₂_collapsesTo_iff.1 hentries]
    exact List.mem_append_left _ (List.mem_map_of_mem hparam)
  obtain ⟨piece, hpiece, hcollapse⟩ := List.mem_map.1 hmem
  rw [← hcollapse]
  refine ⟨fun hcomma => ?_, Text.collapseBlanks_collapseBlanks piece⟩
  rcases Text.mem_of_mem_collapseBlanks hcomma with heq | hin
  · revert heq
    decide
  · exact hfree piece hpiece hin

theorem MemberRef.Plain.memberText (h : m.Plain) : MemberText m.chars m := by
  obtain ⟨name, params?⟩ := m
  cases params? with
  | none => simpa [MemberRef.chars] using MemberText.alone h.name
  | some params =>
    obtain ⟨hlast, hplain⟩ := h.params params rfl
    simpa [MemberRef.chars] using MemberText.call h.name (paramList_of_plain hlast hplain)

theorem MemberText.plain (h : MemberText cs m) : m.Plain := by
  cases h with
  | alone hname => exact ⟨by simpa using hname, nofun⟩
  | call hname hparams =>
    refine ⟨by simpa using hname, fun params hp => ?_⟩
    cases hp
    exact hparams.plain

theorem MemberText.ne_nil (h : MemberText cs m) : cs ≠ [] := by
  cases h with
  | alone hname =>
    rintro rfl
    cases hname
  | call => simp

/-- A member is a call if its text ends with a parenthesis. -/
theorem MemberText.getLast?_eq_iff (h : MemberText cs m) :
    cs.getLast? = some ')' ↔ m.params?.isSome = true := by
  cases h with
  | alone hname =>
    simp only [Option.isSome_none, Bool.false_eq_true, iff_false]
    intro hlast
    have hplain := Text.Identifier.plain_of_isIdentifier hname _ (List.mem_of_getLast? hlast)
    exact hplain.2.2.2 rfl
  | call =>
    rw [List.getLast?_concat]
    simp

theorem MemberText.isBlank_getLast (h : MemberText cs m) :
    ∀ c ∈ cs.getLast?, Text.isBlank c = false := by
  intro c hc
  cases h with
  | alone hname =>
    exact (Text.Identifier.plain_of_isIdentifier hname c (List.mem_of_mem_getLast? hc)).1
  | call =>
    rw [List.getLast?_concat] at hc
    cases hc
    decide

/-- A member whose text holds a `#` is a call. -/
theorem MemberText.exists_call (h : MemberText (before ++ '#' :: rest) m) (hne : rest ≠ []) :
    ∃ name inner, before = name ++ '(' :: inner ∧ Text.Identifier.isIdentifier name = true ∧
      rest.getLast? = some ')' := by
  have hhash : ∀ name, Text.Identifier.isIdentifier name = true → '#' ∉ name := by
    intro name hname hmem
    exact (Text.Identifier.plain_of_isIdentifier hname _ hmem).2.1 rfl
  generalize hcs : before ++ '#' :: rest = cs at h
  cases h with
  | alone hname => exact (hhash cs hname (by simp [← hcs])).elim
  | @call name inner params hname =>
    have hlast : rest.getLast? = some ')' := by
      have := congrArg List.getLast? hcs
      rwa [List.getLast?_concat, List.getLast?_append_of_ne_nil _ (by simp),
        List.getLast?_cons_of_ne_nil hne] at this
    rw [List.append_assoc, List.append_eq_append_iff] at hcs
    rcases hcs with ⟨as, hsplit, htail⟩ | ⟨bs, rfl, htail⟩
    · refine (hhash name hname ?_).elim
      cases as with
      | nil => simp at htail
      | cons d as =>
        obtain ⟨rfl, -⟩ := List.cons.inj htail
        simp [hsplit]
    · cases bs with
      | nil => simp at htail
      | cons d bs =>
        obtain ⟨rfl, -⟩ := List.cons.inj htail
        exact ⟨name, bs, rfl, hname, hlast⟩

theorem exists_memberText_of_call {name : List Char}
    (hname : Text.Identifier.isIdentifier name = true) (inner : List Char)
    (hlast : rest.getLast? = some ')') : ∃ m, MemberText (name ++ '(' :: inner ++ rest) m := by
  obtain ⟨init, rfl⟩ := List.getLast?_eq_some_iff.1 hlast
  have hparams : ParamList (inner ++ init) (MemberRef.parseParams (inner ++ init)) :=
    MemberRef.parseParams_eq_iff.1 rfl
  exact ⟨_, by simpa using MemberText.call hname hparams⟩

/-! ## Targets -/

/-- If the first member of a text stands behind `before`, then no member follows an earlier `#`
either when that text is trimmed and the member is printed. -/
theorem not_memberText_of_firstMemberAt {b b' : List Char} (h : FirstMemberAt cs before m)
    (ht : Text.trimChars before = b ++ '#' :: b') : ¬ MemberText (b' ++ '#' :: m.chars) m' := by
  intro htext
  obtain ⟨rest, hcs, hm⟩ := h.here
  obtain ⟨front, back, hbefore, -, -⟩ := Text.exists_eq_of_trimChars before
  rw [ht] at hbefore
  obtain ⟨name, inner, rfl, hname, hlast⟩ := htext.exists_call hm.plain.memberText.ne_nil
  -- the call reaches to the end of `cs` too, so a member stands there behind `front ++ b`
  have hrest : rest.getLast? = some ')' :=
    hm.getLast?_eq_iff.2 (hm.plain.memberText.getLast?_eq_iff.1 hlast)
  have hend : (back ++ '#' :: rest).getLast? = some ')' := by
    rw [List.getLast?_append_of_ne_nil _ (by simp), List.getLast?_cons_of_ne_nil hm.ne_nil, hrest]
  obtain ⟨m'', hm''⟩ := exists_memberText_of_call hname inner hend
  have hearlier : MemberAt cs (front ++ b) m'' := ⟨_, by rw [hcs, hbefore]; simp, hm''⟩
  have := h.first _ _ hearlier
  rw [hbefore] at this
  simp only [List.length_append, List.length_cons] at this
  omega

namespace Reference

theorem toList_print (target : String) (m : MemberRef) :
    (print { target, member? := some m }).toList = target.toList ++ '#' :: m.chars := by
  obtain ⟨name, params?⟩ := m
  cases params? <;> simp [print, MemberRef.chars, String.toList_intercalate]

/-- A trimmed target with a member is read if no member follows a `#` of the target. -/
theorem parse_of_memberText (ht : Text.Trimmed t) (hne : t ≠ []) (htext : MemberText rest m)
    (hfirst : ∀ b b' m', t = b ++ '#' :: b' → ¬ MemberText (b' ++ '#' :: rest) m') :
    parse (String.ofList (t ++ '#' :: rest)) =
      .ok { target := String.ofList t, member? := some m } := by
  obtain ⟨c, t', rfl⟩ := List.exists_cons_of_ne_nil hne
  have htrimmed : Text.Trimmed (c :: t' ++ '#' :: rest) := by
    refine ⟨ht.head, fun d hd => htext.isBlank_getLast d ?_⟩
    rwa [List.getLast?_append_of_ne_nil _ (by simp),
      List.getLast?_cons_of_ne_nil htext.ne_nil] at hd
  have hmember : FirstMemberAt (c :: t' ++ '#' :: rest) (c :: t') m := by
    refine ⟨⟨_, rfl, htext⟩, fun before' m' hat => ?_⟩
    obtain ⟨rest', hcs, hm'⟩ := hat
    by_contra hlt
    rcases List.append_eq_append_iff.1 hcs with ⟨as, rfl, -⟩ | ⟨bs, hsplit, htail⟩
    · simp at hlt
    · cases bs with
      | nil => simp [hsplit] at hlt
      | cons d bs =>
        obtain ⟨rfl, rfl⟩ := List.cons.inj htail
        exact hfirst before' bs m' hsplit hm'
  have hreads := Reads.member hmember ⟨c, List.mem_cons_self, ht.head c rfl⟩
  rw [ht.trimChars_eq] at hreads
  apply parse_of_reads
  rwa [String.toList_ofList, htrimmed.trimChars_eq]

/-- A trimmed target with a plain member is read back if no member follows a `#` of the target. -/
theorem parse_print_of_plain_member (ht : Text.Trimmed t) (hne : t ≠ []) (hm : m.Plain)
    (hfirst : ∀ b b' m', t = b ++ '#' :: b' → ¬ MemberText (b' ++ '#' :: m.chars) m') :
    parse (print { target := String.ofList t, member? := some m }) =
      .ok { target := String.ofList t, member? := some m } := by
  have hread := parse_of_memberText ht hne hm.memberText hfirst
  rwa [← String.toList_ofList (l := t), ← toList_print, String.ofList_toList,
    String.toList_ofList] at hread

theorem parse_bare (ht : Text.Trimmed t) (hne : t ≠ []) (hhash : '#' ∉ t) :
    parse (String.ofList t) = .ok { target := String.ofList t } := by
  apply parse_of_reads
  rw [String.toList_ofList, ht.trimChars_eq]
  exact .bare hne hhash

theorem Plain.parse_print {r : Reference} (h : r.Plain) : parse r.print = .ok r := by
  obtain ⟨target, member?⟩ := r
  have ht : Text.Trimmed target.toList := Text.trim_eq_self_iff.1 h.target_trim
  have hne : target.toList ≠ [] := by simpa using h.target_ne
  cases member? with
  | none => simpa [print] using parse_bare ht hne h.target_hash
  | some m =>
    have hread := parse_print_of_plain_member ht hne (h.member m rfl) fun b b' m' hsplit _ =>
      h.target_hash (by simp [hsplit])
    simpa using hread

theorem parse_print_of_parse {written : String} {r : Reference} (h : parse written = .ok r) :
    parse r.print = .ok r := by
  have hreads := parse_eq_iff.1 h
  have htrimmed := Text.trimmed_trimChars written.toList
  generalize Text.trimChars written.toList = cs at hreads htrimmed
  generalize hresult : Except.ok r = result at hreads
  cases hreads with
  | empty => cases hresult
  | malformed => cases hresult
  | missingTarget => cases hresult
  | bare hne hhash =>
    cases hresult
    exact parse_bare htrimmed hne hhash
  | @member _ before m hfirst hwritten =>
    cases hresult
    obtain ⟨rest, -, hm⟩ := hfirst.here
    refine parse_print_of_plain_member (Text.trimmed_trimChars before) ?_ hm.plain fun b b' m' =>
      not_memberText_of_firstMemberAt hfirst
    rw [ne_eq, Text.trimChars_eq_nil_iff]
    simpa using hwritten

/-- What is read, printed and read again comes out the same, and so does every plain reference. -/
theorem reads_back_printed :
    (∀ written r, parse written = .ok r → parse r.print = .ok r) ∧
      ∀ r : Reference, r.Plain → parse r.print = .ok r :=
  ⟨fun _ _ => parse_print_of_parse, fun _ => Plain.parse_print⟩

/-- A `#` in the target that no member follows, and an empty type before the last one. -/
theorem reads_back_printed_sample :
    let r : Reference := { target := "a#1", member? := some ⟨"m", some ["", "x y"]⟩ }
    parse " a#1 #m( ,x  y,)" = .ok r ∧ r.print = "a#1#m(,x y)" ∧ parse r.print = .ok r :=
  ⟨by decide +kernel, by decide +kernel,
    reads_back_printed.1 " a#1 #m( ,x  y,)" _ (by decide +kernel)⟩

end Reference
end DocWeave
