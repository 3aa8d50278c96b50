import DocWeave.Description.Encode
import DocWeave.Json.Text

/-!
# Reading descriptions

Fields that are left out take their default; unknown fields do not count. There are no
conversions between kinds of values. A text may nest the containers that are used up to
`Description.maxDepth` deep.
-/

namespace DocWeave

namespace Primitive

def ofJson? (j : Json) : Option Primitive :=
  j.constant?.bind ofKeyword?

end Primitive

namespace MemberKind

def all : List MemberKind := [field, method, constructor, enumConstant]

def ofWord? (word : String) : Option MemberKind :=
  all.find? (·.word == word)

theorem ofWord?_word (kind : MemberKind) : ofWord? kind.word = some kind := by
  cases kind <;> decide

def ofJson? (j : Json) : Option MemberKind :=
  j.constant?.bind ofWord?

end MemberKind

namespace Json

theorem sizeOf_lookup_lt {name : String} {fields : List (String × Json)} {value : Json}
    (h : fields.lookup name = some value) : sizeOf value < sizeOf fields := by
  induction fields with
  | nil => simp at h
  | cons field rest ih =>
    obtain ⟨key, v⟩ := field
    rw [List.lookup_cons] at h
    split at h
    · obtain rfl : v = value := by simpa using h
      simp
      omega
    · have := ih h
      simp
      omega

theorem sizeOf_filter_le (p : String × Json → Bool) (fields : List (String × Json)) :
    sizeOf (fields.filter p) ≤ sizeOf fields := by
  induction fields with
  | nil => simp
  | cons field rest ih =>
    rw [List.filter_cons]
    split <;> simp <;> omega

theorem sizeOf_lookup_zip_lt {name : String} {names : List String} {items : List Json}
    {value : Json} (h : (names.zip items).lookup name = some value) :
    sizeOf value < sizeOf items := by
  induction names generalizing items with
  | nil => simp at h
  | cons n names ih =>
    cases items with
    | nil => simp at h
    | cons item items =>
      rw [List.zip_cons_cons, List.lookup_cons] at h
      split at h
      · obtain rfl : item = value := by simpa using h
        simp
        omega
      · have := ih h
        simp
        omega

/-- The value of a field is smaller than the record. -/
theorem sizeOf_record?_lt {names : List String} {least : Nat} {j : Json}
    {fields : List (String × Json)} {name : String} {value : Json}
    (hr : j.record? names least = some fields) (hf : fields.lookup name = some value) :
    sizeOf value < sizeOf j := by
  unfold record? at hr
  split at hr
  · rename_i all
    simp only at hr
    split at hr
    · obtain rfl : all.filter _ = fields := by simpa using hr
      have := Nat.lt_of_lt_of_le (sizeOf_lookup_lt hf) (sizeOf_filter_le _ all)
      rw [object.sizeOf_spec]
      omega
    · simp at hr
  · rename_i items
    split at hr
    · obtain rfl : names.zip items = fields := by simpa using hr
      have := sizeOf_lookup_zip_lt hf
      simp
      omega
    · simp at hr
  · simp at hr

theorem sizeOf_single?_lt {j content : Json} {tag : String} (h : j.single? = some (tag, content)) :
    sizeOf content < sizeOf j := by
  unfold single? at h
  split at h
  · obtain ⟨rfl, rfl⟩ : _ = tag ∧ _ = content := by simpa using h
    simp
    omega
  · simp at h

end Json

namespace TypeRef

/-- Reads a type: one of the five alternatives. A variable may leave out its bound only if it is
an object. -/
def ofJson? (j : Json) : Option TypeRef :=
  match _hj : j.single? with
  | some ("primitive", content) => (Primitive.ofJson? content).map primitive
  | some ("array", content) => (ofJson? content).map array
  | some ("declared", content) => content.string?.map declared
  | some ("parameterized", content) =>
    match _hc : content.record? ["base", "args"] 2 with
    | none => none
    | some fields =>
      match _hf : fields.lookup "args" with
      | some (.array items) => do
        let base ← Json.field? fields "base" Json.string?
        let args ← items.attach.mapM fun ⟨item, _⟩ => ofJson? item
        return parameterized base args
      | _ => none
  | some ("variable", content) =>
    match _hc : content.record? ["name", "bound"] 2 with
    | none => none
    | some fields => do
      let name ← Json.field? fields "name" Json.string?
      match _hf : fields.lookup "bound" with
      | none => some (typeVariable name none)
      | some .null => some (typeVariable name none)
      | some bound => (ofJson? bound).map fun bound => typeVariable name (some bound)
  | _ => none
termination_by sizeOf j
decreasing_by
  · exact Json.sizeOf_single?_lt _hj
  · rename_i hi
    have h₁ := Json.sizeOf_single?_lt _hj
    have h₂ := Json.sizeOf_record?_lt _hc _hf
    have h₃ := List.sizeOf_lt_of_mem hi
    simp at h₂
    omega
  · exact Nat.lt_trans (Json.sizeOf_record?_lt _hc _hf) (Json.sizeOf_single?_lt _hj)

end TypeRef

/-- Reads the elements of an array. -/
def Json.items? {α : Type} (read : Json → Option α) (j : Json) : Option (List α) :=
  j.array?.bind (·.mapM read)

def MemberEntry.ofJson? (j : Json) : Option MemberEntry := do
  let fields ← j.record? ["name", "kind", "params"] 2
  return {
    name := ← Json.field? fields "name" Json.string?
    kind := ← Json.field? fields "kind" MemberKind.ofJson?
    params := ← Json.fieldD fields "params" (Json.items? TypeRef.ofJson?) [] }

def TypeEntry.ofJson? (j : Json) : Option TypeEntry := do
  let fields ← j.record? ["name", "supertypes", "members"] 0
  return {
    name := ← Json.fieldD fields "name" Json.string? ""
    supertypes := ← Json.fieldD fields "supertypes" Json.strings? []
    members := ← Json.fieldD fields "members" (Json.items? MemberEntry.ofJson?) [] }

def ModuleEntry.ofJson? (j : Json) : Option ModuleEntry := do
  let fields ← j.record? ["name", "imports", "static_imports", "doc", "generate"] 0
  return {
    name := ← Json.fieldD fields "name" Json.string? ""
    imports := ← Json.fieldD fields "imports" Json.strings? []
    staticImports := ← Json.fieldD fields "static_imports" Json.strings? []
    doc? := ← Json.fieldD fields "doc" (Json.nullable Json.string?) none
    generate := ← Json.fieldD fields "generate" Json.bool? false }

def Config.ofJson? (j : Json) : Option Config := do
  let fields ← j.record? ["default_namespace", "include_tag", "link_tags"] 0
  let standard : Config := {}
  return {
    defaultNamespace :=
      ← Json.fieldD fields "default_namespace" Json.string? standard.defaultNamespace
    includeTag := ← Json.fieldD fields "include_tag" Json.string? standard.includeTag
    linkTags := ← Json.fieldD fields "link_tags" Json.strings? standard.linkTags }

namespace Description

def ofJson? (j : Json) : Option Description := do
  let fields ← j.record? ["config", "modules", "types"] 0
  return {
    config? := ← Json.fieldD fields "config" (Json.nullable Config.ofJson?) none
    modules := ← Json.fieldD fields "modules" (Json.items? ModuleEntry.ofJson?) []
    types := ← Json.fieldD fields "types" (Json.items? TypeEntry.ofJson?) [] }

/-- How many containers may be open at once, those in unknown fields apart. -/
def maxDepth : Nat := 127

/-- Reads the text of a description. -/
def parse (text : String) : Except LoadError Description :=
  match (Json.parse text).bind fun j => ofJson? (j.clip maxDepth) with
  | some description => .ok description
  | none => .error .malformed

end Description

/-- The workspace that a text describes. -/
def Workspace.load (text : String) : Except LoadError Workspace :=
  (Description.parse text).bind Description.build

end DocWeave
