import DocWeave.Proofs.Resolution.ImportPath
import DocWeave.Proofs.Text.Trim
import DocWeave.Resolution

/-!
# Written types

A type that is built from primitive types and `Readable` names is read back from the way it is
written, in every scope (`resolveType?_print`): no import is asked. A name is readable if it is
declared, has a dot and would not be read as something else. Each `[]` behind any other text wraps
what the text is read as, be it a type or a failure (`resolveTypeChars?_brackets`), and all that is
ever read is arrays of primitive types and of declared ones.
-/

namespace DocWeave

/-- Arrays, of any depth, of primitive types and of declared types whose names satisfy `base`. -/
inductive TypeRef.ArraysOver (base : QualifiedName → Prop) : TypeRef → Prop where
  | primitive (kind : Primitive) : ArraysOver base (.primitive kind)
  | declared {name : QualifiedName} : base name → ArraysOver base (.declared name)
  | array {component : TypeRef} : ArraysOver base component → ArraysOver base (.array component)

/-- The name of a declared type that is looked up as it is written. -/
structure SymbolIndex.Readable (index : SymbolIndex) (name : QualifiedName) : Prop where
  declared : name ∈ index.types.keys
  qualified : name.isQualified = true
  trimmed : Text.Trimmed name.toList
  no_array : ¬ ['[', ']'] <:+ name.toList

namespace TypeRef

/-- Arrays of arrays, `depth` deep, of the given elements. -/
def arrays : Nat → TypeRef → TypeRef
  | 0, element => element
  | depth + 1, element => .array (arrays depth element)

variable {base base' : QualifiedName → Prop} {type : TypeRef}

theorem ArraysOver.mono (h : type.ArraysOver base) (himp : ∀ name, base name → base' name) :
    type.ArraysOver base' := by
  induction h with
  | primitive kind => exact .primitive kind
  | declared hname => exact .declared (himp _ hname)
  | array _ ih => exact .array ih

theorem ArraysOver.erasure_eq (h : type.ArraysOver base) : type.erasure = type := by
  induction h with
  | primitive => rfl
  | declared => rfl
  | array _ ih => rw [erasure, ih]

end TypeRef

namespace Primitive

theorem trimmed_keyword (p : Primitive) : Text.Trimmed p.keyword.toList := by
  rw [← Text.trim_eq_self_iff]
  cases p <;> decide

/-- No keyword has a dot or ends like an array type. -/
theorem ofKeyword?_eq_none {word : String} (h : '.' ∈ word.toList ∨ ']' ∈ word.toList) :
    ofKeyword? word = none := by
  rw [ofKeyword?, List.find?_eq_none]
  intro p _ hword
  cases eq_of_beq hword
  revert h
  cases p <;> decide

theorem keyword_injective {p q : Primitive} (h : p.keyword = q.keyword) : p = q :=
  Option.some.inj (by rw [← ofKeyword?_keyword, h, ofKeyword?_keyword])

end Primitive

namespace Scope

variable {scope : Scope} {name : QualifiedName} {type : TypeRef} {cs : List Char}

theorem resolveDeclared?_of_qualified (hdeclared : name ∈ scope.index.types.keys)
    (hqualified : name.isQualified = true) (htrimmed : Text.Trimmed name.toList) :
    scope.resolveDeclared? name = .ok (some name) := by
  have htrim : Text.trim name = name := Text.trim_eq_self_iff.2 htrimmed
  have hdot : '.' ∈ (Text.trim name).toList := by
    simpa [htrim, QualifiedName.isQualified] using hqualified
  rw [resolveDeclared?_of_dot hdot, htrim, SymbolIndex.lookupType?_eq_some_iff.2 ⟨rfl, hdeclared⟩]

theorem resolveTypeChars?_of_readable (h : scope.index.Readable name) :
    scope.resolveTypeChars? name.toList = .ok (some (.declared name)) := by
  have hdot : '.' ∈ name.toList := by simpa [QualifiedName.isQualified] using h.qualified
  have hnone : component? name.toList = none := by
    rw [Option.eq_none_iff_forall_ne_some]
    intro front hfront
    exact h.no_array ⟨front, (Text.dropEnd?_eq_some_iff.1 hfront).symm⟩
  have htrim : Text.trimChars name.toList = name.toList := h.trimmed.trimChars_eq
  rw [resolveTypeChars?_of_name, htrim, String.ofList_toList,
    resolveDeclared?_of_qualified h.declared h.qualified h.trimmed]
  · rfl
  · rw [htrim, String.ofList_toList, Primitive.ofKeyword?_eq_none (.inl hdot)]
  · rw [htrim, hnone]

/-! ## Arrays -/

/-- Blanks around a written type do not count. -/
theorem resolveTypeChars?_congr {ds : List Char} (h : Text.trimChars cs = Text.trimChars ds) :
    scope.resolveTypeChars? cs = scope.resolveTypeChars? ds := by
  cases hkind : Primitive.ofKeyword? (String.ofList (Text.trimChars ds)) with
  | some kind =>
    rw [resolveTypeChars?_of_keyword hkind, resolveTypeChars?_of_keyword (h ▸ hkind)]
  | none =>
    cases hcomponent : component? (Text.trimChars ds) with
    | some component =>
      rw [resolveTypeChars?_of_component hkind hcomponent,
        resolveTypeChars?_of_component (h ▸ hkind) (h ▸ hcomponent)]
    | none =>
      rw [resolveTypeChars?_of_name hkind hcomponent,
        resolveTypeChars?_of_name (h ▸ hkind) (h ▸ hcomponent), h]

theorem trimmed_brackets : Text.Trimmed ['[', ']'] :=
  Text.trimmed_iff.2 (by decide)

theorem resolveTypeChars?_array (scope : Scope) (cs : List Char) :
    scope.resolveTypeChars? (cs ++ ['[', ']']) =
      (scope.resolveTypeChars? cs).map (·.map .array) := by
  have htrim : Text.trimChars (cs ++ ['[', ']']) = Text.dropBlanks cs ++ ['[', ']'] :=
    Text.trimChars_append trimmed_brackets (by simp) cs
  have hsome : component? (Text.trimChars (cs ++ ['[', ']'])) = some (Text.dropBlanks cs) := by
    rw [htrim]
    exact Text.dropEnd?_eq_some_iff.2 rfl
  have hkind : Primitive.ofKeyword? (String.ofList (Text.trimChars (cs ++ ['[', ']']))) = none :=
    Primitive.ofKeyword?_eq_none (.inr (by simp [htrim]))
  -- the blanks between the elements and the brackets go when the elements are trimmed
  rw [resolveTypeChars?_of_component hkind hsome,
    resolveTypeChars?_congr (Text.trimChars_dropBlanks cs)]

theorem resolveTypeChars?_brackets (scope : Scope) (cs : List Char) (depth : Nat) :
    scope.resolveTypeChars? (cs ++ (List.replicate depth ['[', ']']).flatten) =
      (scope.resolveTypeChars? cs).map (·.map (TypeRef.arrays depth)) := by
  induction depth with
  | zero =>
    rw [List.replicate_zero, List.flatten_nil, List.append_nil]
    rcases scope.resolveTypeChars? cs with e | _ | type <;> rfl
  | succ depth ih =>
    rw [List.replicate_succ', List.flatten_concat, ← List.append_assoc, resolveTypeChars?_array, ih]
    rcases scope.resolveTypeChars? cs with e | _ | type <;> rfl

theorem resolveType?_print (h : type.ArraysOver scope.index.Readable) :
    scope.resolveType? type.print = .ok (some type) := by
  unfold resolveType?
  induction h with
  | primitive kind =>
    rw [resolveTypeChars?, TypeRef.print, kind.trimmed_keyword.trimChars_eq, String.ofList_toList,
      Primitive.ofKeyword?_keyword]
  | declared hname => exact resolveTypeChars?_of_readable hname
  | array _ ih =>
    have happend : "[]".toList = ['[', ']'] := rfl
    rw [TypeRef.print, String.toList_append, happend, resolveTypeChars?_array, ih]
    rfl

/-! ## What is read -/

/-- Wherever a name is found, a type of this name is declared. -/
theorem mem_keys_of_resolveDeclared? {written : String}
    (h : scope.resolveDeclared? written = .ok (some name)) : name ∈ scope.index.types.keys := by
  have hlookup : ∀ {asked}, scope.index.lookupType? asked = some name →
      name ∈ scope.index.types.keys := by
    intro asked hasked
    obtain ⟨rfl, hkey⟩ := SymbolIndex.lookupType?_eq_some_iff.1 hasked
    exact hkey
  by_cases hempty : Text.trim written = ""
  · rw [resolveDeclared?_of_empty hempty] at h
    cases h
  · by_cases hdot : '.' ∈ (Text.trim written).toList
    · rw [resolveDeclared?_of_dot hdot] at h
      exact hlookup (Except.ok.inj h)
    · rw [resolveDeclared?_eq_findSome? hempty hdot] at h
      split at h
      · rename_i hfound
        cases h
        obtain ⟨path, -, hpath⟩ := List.exists_of_findSome?_eq_some hfound
        exact hlookup hpath
      · split at h
        · cases h
        · exact hlookup (Except.ok.inj h)

theorem exists_of_map_eq_some {α β : Type} {f : α → β} {x : Except DocError (Option α)} {b : β}
    (h : x.map (·.map f) = .ok (some b)) : ∃ a, x = .ok (some a) ∧ f a = b := by
  cases x with
  | error e => cases h
  | ok found =>
    cases found with
    | none => cases h
    | some a =>
      cases h
      exact ⟨a, rfl, rfl⟩

/-- A written type stands for an erased one. -/
theorem arraysOver_of_resolveTypeChars? (h : scope.resolveTypeChars? cs = .ok (some type)) :
    type.ArraysOver (· ∈ scope.index.types.keys) := by
  fun_induction resolveTypeChars? scope cs generalizing type with
  | case1 =>
    cases h
    exact .primitive _
  | case2 =>
    rename_i ih
    obtain ⟨element, helement, rfl⟩ := exists_of_map_eq_some h
    exact .array (ih helement)
  | case3 =>
    obtain ⟨name, hname, rfl⟩ := exists_of_map_eq_some h
    exact .declared (mem_keys_of_resolveDeclared? hname)

/-- Each `[]` behind a written type makes an array of it, also behind one that cannot be read. What
is read are arrays of primitive and of declared types, and so their own erasures; and if all names
in such a type are readable, it is read back from the way it is written, whatever is imported. -/
theorem resolveType?_inverts_print (scope : Scope) :
    (∀ written depth, scope.resolveType? (written ++ String.join (List.replicate depth "[]")) =
      (scope.resolveType? written).map (·.map (TypeRef.arrays depth))) ∧
    (∀ written type, scope.resolveType? written = .ok (some type) →
      type.ArraysOver (· ∈ scope.index.types.keys) ∧ type.erasure = type) ∧
    ∀ type, type.ArraysOver scope.index.Readable →
      scope.resolveType? type.print = .ok (some type) := by
  refine ⟨fun written depth => ?_, fun written type h => ?_, fun type => resolveType?_print⟩
  · have hbrackets : (String.join (List.replicate depth "[]")).toList =
        (List.replicate depth ['[', ']']).flatten := by
      rw [String.toList_join, List.flatMap_def, List.map_replicate]
      rfl
    rw [resolveType?, String.toList_append, hbrackets, resolveTypeChars?_brackets, resolveType?]
  · have hover := arraysOver_of_resolveTypeChars? h
    exact ⟨hover, hover.erasure_eq⟩

/-- The import of `m` cannot be split, and `T` asks for it. -/
def misimporting : Scope where
  index := (SymbolIndex.addType {} { name := "p.T" }).addModule
    { name := "m", imports := [{ path := "T" }] }
  module := "m"
  defaultNamespace := "java.lang"

theorem resolveType?_inverts_print_misimporting :
    (misimporting.resolveType? "T " = .error (.malformedImport "m" "T") ∧
      misimporting.resolveType? "T [][]" = .error (.malformedImport "m" "T")) ∧
    (TypeRef.arrays 2 (.declared "p.T")).ArraysOver misimporting.index.Readable ∧
    misimporting.resolveType? "p.T[][]" = .ok (some (.arrays 2 (.declared "p.T"))) ∧
    (TypeRef.arrays 2 (.declared "p.T")).ArraysOver (· ∈ misimporting.index.types.keys) := by
  obtain ⟨hbrackets, hread, hprint⟩ := resolveType?_inverts_print misimporting
  have hfails : misimporting.resolveType? "T " = .error (.malformedImport "m" "T") := by
    rw [resolveType?, resolveTypeChars?_of_name (by decide) (by decide)]
    rfl
  have hreadable : misimporting.index.Readable "p.T" :=
    ⟨by decide, by decide, Text.trimmed_iff.2 (by decide), by decide⟩
  have hover : (TypeRef.arrays 2 (.declared "p.T")).ArraysOver misimporting.index.Readable :=
    .array (.array (.declared hreadable))
  have htype := hprint _ hover
  refine ⟨⟨hfails, ?_⟩, hover, htype, (hread _ _ htype).1⟩
  have happlied := hbrackets "T " 2
  rw [hfails] at happlied
  exact happlied

end Scope
end DocWeave
