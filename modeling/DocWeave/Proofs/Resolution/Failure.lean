import DocWeave.Proofs.Resolution.ImportPath
import DocWeave.Proofs.Text.Trim
import DocWeave.Resolution

/-!
# Failures of resolution

The only failure inside a scope is the first import that cannot be split. Whatever is resolved, a
failure is that one: `malformedImport?` does not depend on the name or the reference. But it is met
only by a name that has to be looked for among the imports. A failing reference holds such a name
(`Reference.Asks`), as its target or in the type of one of its parameters.
-/

namespace DocWeave

/-- A name that is looked for among the imports: it is neither empty nor qualified. -/
structure QualifiedName.Unqualified (name : QualifiedName) : Prop where
  ne_empty : name ≠ ""
  no_dot : '.' ∉ name.toList

namespace Scope

variable {scope : Scope} {e : DocError}

/-- The first import of the module that cannot be split, as a failure. -/
def malformedImport? (scope : Scope) : Option DocError :=
  (scope.imports.find? (·.split?.isNone)).map fun imp => .malformedImport scope.module imp.path

theorem exists_path_of_malformedImport? (h : scope.malformedImport? = some e) :
    ∃ path, e = .malformedImport scope.module path := by
  obtain ⟨imp, -, rfl⟩ := Option.map_eq_some_iff.1 h
  exact ⟨imp.path, rfl⟩

/-! ## Names -/

/-- An empty or a qualified name is looked up without the imports. -/
theorem failure_of_resolveDeclared? {written : String}
    (h : scope.resolveDeclared? written = .error e) :
    QualifiedName.Unqualified (Text.trim written) ∧ scope.malformedImport? = some e := by
  by_cases hempty : Text.trim written = ""
  · rw [resolveDeclared?_of_empty hempty] at h
    cases h
  · by_cases hdot : '.' ∈ (Text.trim written).toList
    · rw [resolveDeclared?_of_dot hdot] at h
      cases h
    · rw [resolveDeclared?_eq_findSome? hempty hdot] at h
      refine ⟨⟨hempty, hdot⟩, ?_⟩
      split at h
      · cases h
      · split at h
        · rename_i imp himp
          cases h
          rw [malformedImport?, himp, Option.map_some]
        · cases h

/-! ## Types -/

theorem eq_error_of_map {α β : Type} {f : α → β} {x : Except DocError α}
    (h : x.map f = .error e) : x = .error e := by
  cases x with
  | error e' =>
    cases h
    rfl
  | ok a => cases h

/-- The name of the elements of a written type, without the `[]` after it and blanks around it. -/
def elementChars (written : List Char) : List Char :=
  let name := Text.trimChars written
  match _found : component? name with
  | some component => elementChars component
  | none => name
termination_by written.length
decreasing_by
  exact Nat.lt_of_lt_of_le (length_component?_lt _found) (Text.length_trimChars_le _)

theorem elementChars_of_component {written component : List Char}
    (hcomponent : component? (Text.trimChars written) = some component) :
    elementChars written = elementChars component := by
  rw [elementChars]
  split
  · rename_i hsome
    cases hcomponent.symm.trans hsome
    rfl
  · rename_i hnone
    cases hcomponent.symm.trans hnone

theorem elementChars_of_name {written : List Char}
    (hcomponent : component? (Text.trimChars written) = none) :
    elementChars written = Text.trimChars written := by
  rw [elementChars]
  split
  · rename_i hsome
    cases hcomponent.symm.trans hsome
  · rfl

@[inherit_doc elementChars]
def elementName (written : String) : QualifiedName :=
  String.ofList (elementChars written.toList)

/-- The elements of a written type have a name that is looked for among the imports: an unqualified
one that is not that of a primitive type. -/
structure AsksImports (written : String) : Prop where
  unqualified : (elementName written).Unqualified
  not_primitive : Primitive.ofKeyword? (elementName written) = none

theorem failure_of_resolveTypeChars? {written : List Char}
    (h : scope.resolveTypeChars? written = .error e) :
    QualifiedName.Unqualified (String.ofList (elementChars written)) ∧
      Primitive.ofKeyword? (String.ofList (elementChars written)) = none ∧
      scope.malformedImport? = some e := by
  fun_induction resolveTypeChars? scope written with
  | case1 => cases h
  | case2 written name _ component hcomponent ih =>
    rw [elementChars_of_component hcomponent]
    exact ih (eq_error_of_map h)
  | case3 written name hkind hcomponent =>
    obtain ⟨hname, himport⟩ := failure_of_resolveDeclared? (eq_error_of_map h)
    have htrim : Text.trim (String.ofList name) = String.ofList name := by
      rw [Text.trim_eq_self_iff, String.toList_ofList]
      exact Text.trimmed_trimChars written
    rw [htrim] at hname
    rw [elementChars_of_name hcomponent]
    exact ⟨hname, hkind, himport⟩

theorem failure_of_resolveType? {written : String} (h : scope.resolveType? written = .error e) :
    AsksImports written ∧ scope.malformedImport? = some e := by
  obtain ⟨hname, hkind, himport⟩ := failure_of_resolveTypeChars? h
  exact ⟨⟨hname, hkind⟩, himport⟩

/-! ## References -/

theorem exists_written_of_typesMatch {declared : List TypeRef} {written : List String}
    (h : scope.typesMatch declared written = .error e) :
    ∃ w ∈ written, scope.resolveType? w = .error e := by
  induction declared generalizing written with
  | nil => cases written <;> cases h
  | cons d ds ih =>
    cases written with
    | nil => cases h
    | cons w ws =>
      rw [typesMatch] at h
      split at h
      · rename_i hw
        cases h
        exact ⟨w, List.mem_cons_self, hw⟩
      · split at h
        · obtain ⟨w', hw', he⟩ := ih h
          exact ⟨w', List.mem_cons_of_mem _ hw', he⟩
        · cases h
      · cases h

theorem exists_written_of_paramsMatch {m : Member} {params? : Option (List String)}
    (h : scope.paramsMatch m params? = .error e) :
    ∃ params, params? = some params ∧ ∃ w ∈ params, scope.resolveType? w = .error e := by
  unfold paramsMatch at h
  split at h
  · cases h
  · cases h
  · split at h
    · cases h
    · split at h
      · exact ⟨_, rfl, exists_written_of_typesMatch h⟩
      · cases h

theorem exists_written_of_findMember? {reference : MemberRef} {members : List Member}
    (h : scope.findMember? reference members = .error e) :
    ∃ params, reference.params? = some params ∧ ∃ w ∈ params, scope.resolveType? w = .error e := by
  induction members with
  | nil => cases h
  | cons m rest ih =>
    rw [findMember?] at h
    split at h
    · split at h
      · rename_i hp
        cases h
        exact exists_written_of_paramsMatch hp
      · cases h
      · exact ih h
    · exact ih h

/-- A reference fails only where its target or the type of a parameter does, never because it lacks
a member. -/
theorem cause_of_resolve? {reference : Reference} (h : scope.resolve? reference = .error e) :
    scope.resolveDeclared? reference.target = .error e ∨
      ∃ params, reference.params? = some params ∧
        ∃ w ∈ params, scope.resolveType? w = .error e := by
  unfold resolve? at h
  split at h
  · rename_i hd
    cases h
    exact .inl hd
  · rename_i found _
    split at h
    · rename_i hmember
      cases found with
      | none => cases h
      | some owner =>
        obtain ⟨member, hm⟩ := Option.isSome_iff_exists.1 hmember
        simp only [resolveMember?, hm] at h
        rw [Reference.params?, hm]
        exact .inr (exists_written_of_findMember? (eq_error_of_map h))
    · split at h <;> cases h

end Scope

/-- The names that a reference can look for among the imports: its target and those that its
parameters are made of. -/
inductive Reference.Asks (reference : Reference) : QualifiedName → Prop where
  | target : QualifiedName.Unqualified (Text.trim reference.target) →
    Asks reference (Text.trim reference.target)
  | param {params : List String} {written : String} : reference.params? = some params →
    written ∈ params → Scope.AsksImports written → Asks reference (Scope.elementName written)

namespace Scope

variable {scope : Scope} {e : DocError} {reference : Reference}

theorem failure_of_resolve? (h : scope.resolve? reference = .error e) :
    (∃ name, reference.Asks name) ∧ scope.malformedImport? = some e := by
  rcases cause_of_resolve? h with htarget | ⟨params, hparams, written, hwritten, htype⟩
  · obtain ⟨hname, himport⟩ := failure_of_resolveDeclared? htarget
    exact ⟨⟨_, .target hname⟩, himport⟩
  · obtain ⟨hasks, himport⟩ := failure_of_resolveType? htype
    exact ⟨⟨_, .param hparams hwritten hasks⟩, himport⟩

/-- A reference fails only because of an import. -/
theorem malformedImport?_of_resolve? (h : scope.resolve? reference = .error e) :
    scope.malformedImport? = some e :=
  (failure_of_resolve? h).2

end Scope
end DocWeave
