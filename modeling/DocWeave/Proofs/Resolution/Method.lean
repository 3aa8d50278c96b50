import DocWeave.Proofs.Reference.Printing
import DocWeave.Proofs.Resolution.Parameters

/-!
# References to methods

A method that is among the members of a type can be referred to by writing its erased parameter
types. The search takes the first member that fits: an overload before it has other erased
parameter types, because no two members share their key, so only a field of the same name can be
found in its place, and only if parameter types are written (`findMember?_eq_field`,
`findMember?_eq_method`).
-/

namespace DocWeave

/-- A readable name that keeps its form between the commas of a parameter list. -/
structure SymbolIndex.Listable (index : SymbolIndex) (name : QualifiedName) : Prop where
  declared : name ∈ index.types.keys
  qualified : name.isQualified = true
  no_comma : ',' ∉ name.toList
  no_blank : ∀ c ∈ name.toList, Text.isBlank c = false
  no_array : ¬ ['[', ']'] <:+ name.toList

theorem SymbolIndex.Listable.readable {index : SymbolIndex} {name : QualifiedName}
    (h : index.Listable name) : index.Readable name :=
  ⟨h.declared, h.qualified, Text.trimmed_of_forall h.no_blank, h.no_array⟩

/-- The method written with its erased parameter types. -/
def Member.written (m : Member) : MemberRef where
  name := m.name
  params? := some (m.erasedParams.map TypeRef.print)

/-- The reference that writes the method behind `type`. -/
def Member.reference (m : Member) (type : QualifiedName) : Reference where
  target := type
  member? := some m.written

variable {index : SymbolIndex} {scope : Scope} {type : QualifiedName} {m f : Member}
  {members before after : List Member} {types : List TypeRef}

/-! ## Reading the reference -/

theorem TypeRef.print_ne_empty {t : TypeRef} (h : t.ArraysOver index.Listable) : t.print ≠ "" := by
  cases h with
  | primitive kind => cases kind <;> decide
  | declared hname =>
    rintro rfl
    cases hname.qualified
  | array => simp [print]

theorem Primitive.listable_keyword (p : Primitive) :
    ∀ c ∈ p.keyword.toList, c ≠ ',' ∧ Text.isBlank c = false := by
  have hall : p.keyword.toList.all (fun c => c != ',' && !Text.isBlank c) = true := by
    cases p <;> decide
  simpa using hall

theorem TypeRef.listable_print {t : TypeRef} (h : t.ArraysOver index.Listable) :
    ∀ c ∈ t.print.toList, c ≠ ',' ∧ Text.isBlank c = false := by
  induction h with
  | primitive kind => exact kind.listable_keyword
  | declared hname =>
    intro c hc
    refine ⟨?_, hname.no_blank c hc⟩
    rintro rfl
    exact hname.no_comma hc
  | array _ ih =>
    have hall : "[]".toList.all (fun c => c != ',' && !Text.isBlank c) = true := by decide
    rw [print, String.toList_append, List.forall_mem_append]
    refine ⟨ih, ?_⟩
    simpa using hall

theorem Member.plain_reference (hqualified : type.isQualified = true) (hhash : '#' ∉ type.toList)
    (htrim : Text.trim type = type) (hname : Text.Identifier.isIdentifier m.name.toList = true)
    (hparams : ∀ t ∈ m.erasedParams, t.ArraysOver index.Listable) :
    (m.reference type).Plain where
  target_ne := by
    rintro rfl
    cases hqualified
  target_trim := htrim
  target_hash := hhash
  member := by
    intro written hwritten
    cases hwritten
    refine ⟨hname, fun params hp => ?_⟩
    cases hp
    constructor
    · intro hlast
      obtain ⟨t, ht, hprint⟩ := List.mem_map.1 (List.mem_of_getLast? hlast)
      exact TypeRef.print_ne_empty (hparams t ht) hprint
    · intro param hparam
      obtain ⟨t, ht, rfl⟩ := List.mem_map.1 hparam
      have hlistable := TypeRef.listable_print (hparams t ht)
      exact ⟨fun hcomma => (hlistable _ hcomma).1 rfl,
        Text.collapseBlanks_of_forall fun c hc => (hlistable c hc).2⟩

/-! ## Members that fit -/

namespace Scope

theorem readsAll_print (htypes : ∀ t ∈ types, t.ArraysOver scope.index.Readable) :
    scope.ReadsAll (types.map TypeRef.print) types :=
  List.forall₂_map_left_iff.2 (List.forall₂_same.2 fun t ht => resolveType?_print (htypes t ht))

/-- A method fits its erased parameter types and no others. -/
theorem paramsMatch_of_isMethod (hmethod : m.isMethod = true)
    (htypes : ∀ t ∈ types, t.ArraysOver scope.index.Listable) :
    scope.paramsMatch m (some (types.map TypeRef.print)) =
      .ok (decide (m.erasedParams = types)) := by
  have hreads : scope.ReadsAll (types.map TypeRef.print) types :=
    readsAll_print fun t ht => (htypes t ht).mono fun _ => SymbolIndex.Listable.readable
  exact paramsMatch_of_readsAll hreads hmethod

/-- A field fits any parameter types that are written, but not empty parentheses. -/
theorem paramsMatch_of_isField (hfield : f.isField = true) (written : List String) :
    scope.paramsMatch f (some written) = .ok (!written.isEmpty) := by
  have hkind : f.kind = .field := eq_of_beq hfield
  cases written with
  | nil => simp [paramsMatch, MemberDecl.isMethod, hkind]
  | cons w ws => simp [paramsMatch, hfield]

/-- The search passes over the members that do not fit. -/
theorem findMember?_append_cons {reference : MemberRef}
    (hpassed : ∀ b ∈ before, isCandidate reference.name b = true →
      scope.paramsMatch b reference.params? = .ok false)
    (hcandidate : isCandidate reference.name m = true)
    (hfits : scope.paramsMatch m reference.params? = .ok true) :
    scope.findMember? reference (before ++ m :: after) = .ok (some m) := by
  induction before with
  | nil => rw [List.nil_append, findMember?, if_pos hcandidate, hfits]
  | cons b before ih =>
    rw [List.forall_mem_cons] at hpassed
    rw [List.cons_append, findMember?]
    split
    · rename_i hb
      rw [hpassed.1 hb]
      exact ih hpassed.2
    · exact ih hpassed.2

theorem resolve?_reference (hdeclared : type ∈ scope.index.types.keys)
    (hqualified : type.isQualified = true) (htrim : Text.trim type = type)
    (hfound : scope.findMember? m.written (scope.index.allMembers type) = .ok (some f)) :
    scope.resolve? (m.reference type) = .ok (some (memberSymbol type f)) := by
  have htype := resolveDeclared?_of_qualified hdeclared hqualified (Text.trim_eq_self_iff.1 htrim)
  simp only [resolve?, Member.reference, htype, Reference.isMember, Option.isSome_some, if_true,
    resolveMember?, hfound]
  rfl

/-! ## The member that is found -/

section Found

variable (hmembers : scope.index.allMembers type = before ++ m :: after)
  (hmethod : m.isMethod = true)
  (hparams : ∀ t ∈ m.erasedParams, t.ArraysOver scope.index.Listable)

include hmembers

/-- Members in different places do not share their key. -/
theorem sharesKey_of_mem_before {b : Member} (hb : b ∈ before) : b.sharesKey m = false := by
  have hpairwise := scope.index.pairwise_allMembers type
  rw [hmembers, List.pairwise_append] at hpairwise
  exact hpairwise.2.2 b hb m (List.mem_cons_self ..)

include hmethod hparams

/-- The overloads before a method do not fit its parameter types. -/
theorem paramsMatch_of_mem_before {b : Member} (hb : b ∈ before) (hname : b.name = m.name)
    (hbmethod : b.isMethod = true) :
    scope.paramsMatch b (some (m.erasedParams.map TypeRef.print)) = .ok false := by
  have hne : b.erasedParams ≠ m.erasedParams := by
    intro heq
    have hshares := sharesKey_of_mem_before hmembers hb
    simp [Member.sharesKey_of_isMethod hbmethod hmethod, hname, heq] at hshares
  rw [paramsMatch_of_isMethod hbmethod hparams, decide_eq_false hne]

/-- A member that fits is found if what comes before it are overloads, or fields while no types are
written. -/
theorem findMember?_eq_some {found : Member} {first rest : List Member}
    (hsplit : scope.index.allMembers type = first ++ found :: rest)
    (hfirst : ∀ b ∈ first, b ∈ before)
    (hfields : ∀ b ∈ first, b.isField = true → b.name = m.name → m.params = [])
    (hcandidate : isCandidate m.name found = true)
    (hfits : scope.paramsMatch found m.written.params? = .ok true) :
    scope.findMember? m.written (scope.index.allMembers type) = .ok (some found) := by
  rw [hsplit]
  refine findMember?_append_cons (fun b hb hcandidate => ?_) hcandidate hfits
  simp only [isCandidate, Bool.and_eq_true, Bool.or_eq_true, beq_iff_eq] at hcandidate
  obtain ⟨hfield | hbmethod, hname⟩ := hcandidate
  · rw [Member.written, paramsMatch_of_isField hfield, MemberDecl.erasedParams,
      hfields b hb hfield hname]
    rfl
  · exact paramsMatch_of_mem_before hmembers hmethod hparams (hfirst b hb) hname hbmethod

theorem findMember?_eq_method (hfields : m.params = [] ∨
      ∀ f ∈ before, f.isField = true → f.name ≠ m.name) :
    scope.findMember? m.written (scope.index.allMembers type) = .ok (some m) := by
  apply findMember?_eq_some hmembers hmethod hparams hmembers (fun _ => id)
  · exact fun b hb hfield hname => hfields.resolve_right fun h => h b hb hfield hname
  · simp [isCandidate, hmethod]
  · rw [Member.written, paramsMatch_of_isMethod hmethod hparams, decide_eq_true rfl]

theorem findMember?_eq_field (hne : m.params ≠ []) (hf : f ∈ before) (hfield : f.isField = true)
    (hname : f.name = m.name) :
    scope.findMember? m.written (scope.index.allMembers type) = .ok (some f) := by
  obtain ⟨first, later, rfl⟩ := List.append_of_mem hf
  have hsplit : scope.index.allMembers type = first ++ f :: (later ++ m :: after) := by
    rw [hmembers, List.append_assoc, List.cons_append]
  apply findMember?_eq_some hmembers hmethod hparams hsplit fun _ => List.mem_append_left _
  · intro b hb hbfield hbname
    have hshares := sharesKey_of_mem_before hsplit hb
    simp [Member.sharesKey_of_isField hbfield hfield, hbname, hname] at hshares
  · simp [isCandidate, hfield, hname]
  · rw [Member.written, paramsMatch_of_isField hfield]
    simp [MemberDecl.erasedParams, hne]

end Found

/-- A method of a type is what its written form refers to. Only a field of its name that comes
before it takes its place, if there are parameter types. -/
theorem method_reference_resolves (scope : Scope) {type : QualifiedName} {m : Member}
    {before after : List Member} (hdeclared : type ∈ scope.index.types.keys)
    (hqualified : type.isQualified = true) (hhash : '#' ∉ type.toList)
    (htrim : Text.trim type = type) (hmembers : scope.index.allMembers type = before ++ m :: after)
    (hmethod : m.isMethod = true) (hname : Text.Identifier.isIdentifier m.name.toList = true)
    (hparams : ∀ t ∈ m.erasedParams, t.ArraysOver scope.index.Listable) :
    Reference.parse (type ++ "#" ++ m.name ++ "(" ++
      ",".intercalate (m.erasedParams.map TypeRef.print) ++ ")") = .ok (m.reference type) ∧
    (m.params ≠ [] → ∀ f ∈ before, f.isField = true → f.name = m.name →
      scope.resolve? (m.reference type) = .ok (some (.field type f))) ∧
    ((m.params = [] ∨ ∀ f ∈ before, f.isField = true → f.name ≠ m.name) →
      scope.resolve? (m.reference type) = .ok (some (.method type m))) := by
  refine ⟨(Member.plain_reference hqualified hhash htrim hname hparams).parse_print,
    fun hne f hf hfield hfname => ?_, fun hfields => ?_⟩
  · rw [resolve?_reference hdeclared hqualified htrim
      (findMember?_eq_field hmembers hmethod hparams hne hf hfield hfname), memberSymbol,
      if_pos hfield]
  · rw [resolve?_reference hdeclared hqualified htrim
      (findMember?_eq_method hmembers hmethod hparams hfields), memberSymbol,
      Member.isField_of_isMethod hmethod]
    rfl

/-- A type with inherited overloads, and a module with an import that cannot be split. -/
def sample : Scope where
  index := ([
    { name := "p.T", supertypes := ["p.S"], members := [
      { name := "g", kind := .method, params := [.primitive .int] },
      { name := "h", kind := .field }] },
    { name := "p.S", members := [
      { name := "g", kind := .method, params := [.array (.parameterized "p.S" [.declared "p.T"])] },
      { name := "h", kind := .method, params := [.typeVariable "E" (some (.declared "p.T"))] }] }
    ].foldl SymbolIndex.addType {}).addModule { name := "p.m", imports := [{ path := "S" }] }
  module := "p.m"
  defaultNamespace := "java.lang"

theorem listable_sample {name : QualifiedName} (h : name ∈ ["p.T", "p.S"]) :
    sample.index.Listable name := by
  have hall : ∀ name ∈ ["p.T", "p.S"], name ∈ sample.index.types.keys ∧
      QualifiedName.isQualified name = true ∧ ',' ∉ name.toList ∧
      name.toList.all (!Text.isBlank ·) = true ∧ ¬ ['[', ']'] <:+ name.toList := by
    decide
  obtain ⟨hdeclared, hqualified, hcomma, hblank, harray⟩ := hall name h
  exact ⟨hdeclared, hqualified, hcomma, by simpa using hblank, harray⟩

/-- The inherited overload of `g` is found, and a field in the place of the method `h`. -/
theorem method_reference_resolves_sample :
    let g : Member :=
      ⟨⟨"g", .method, [.array (.parameterized "p.S" [.declared "p.T"])]⟩, "p.S"⟩
    let h : Member :=
      ⟨⟨"h", .method, [.typeVariable "E" (some (.declared "p.T"))]⟩, "p.S"⟩
    (Reference.parse "p.T#g(p.S[])" = .ok (g.reference "p.T") ∧
      sample.resolve? (g.reference "p.T") = .ok (some (.method "p.T" g))) ∧
    Reference.parse "p.T#h(p.T)" = .ok (h.reference "p.T") ∧
      sample.resolve? (h.reference "p.T") =
        .ok (some (.field "p.T" ⟨⟨"h", .field, []⟩, "p.T"⟩)) := by
  intro g h
  have hg : sample.index.allMembers "p.T" =
      [⟨⟨"g", .method, [.primitive .int]⟩, "p.T"⟩, ⟨⟨"h", .field, []⟩, "p.T"⟩] ++ g :: [h] := by
    decide
  have hgparams : ∀ t ∈ g.erasedParams, t.ArraysOver sample.index.Listable := by
    intro t ht
    cases List.mem_singleton.1 ht
    exact .array (.declared (listable_sample (by decide)))
  have hh : sample.index.allMembers "p.T" =
      [⟨⟨"g", .method, [.primitive .int]⟩, "p.T"⟩, ⟨⟨"h", .field, []⟩, "p.T"⟩, g] ++ h :: [] := by
    decide
  have hhparams : ∀ t ∈ h.erasedParams, t.ArraysOver sample.index.Listable := by
    intro t ht
    cases List.mem_singleton.1 ht
    exact .declared (listable_sample (by decide))
  obtain ⟨hgparse, -, hgresolve⟩ := method_reference_resolves sample (by decide) (by decide)
    (by decide) (by decide) hg rfl (by decide +kernel) hgparams
  obtain ⟨hhparse, hhresolve, -⟩ := method_reference_resolves sample (by decide) (by decide)
    (by decide) (by decide) hh rfl (by decide +kernel) hhparams
  exact ⟨⟨hgparse, hgresolve (.inr (by decide))⟩, hhparse,
    hhresolve (by decide) _ (by decide) rfl rfl⟩

end Scope
end DocWeave
