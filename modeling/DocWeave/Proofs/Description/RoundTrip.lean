import DocWeave.Description.Decode

/-!
# Descriptions are read back

What a value is written as is read as that value. `TypeRef.ofJson?` recurses on the size of the
JSON value; `TypeRef.ofJson?_eq` says what it reads without the bookkeeping for that.
-/

namespace DocWeave

namespace Json

variable {α : Type} {read : Json → Option α} {write : α → Json}

theorem mapM_map_eq_some (h : ∀ a, read (write a) = some a) (values : List α) :
    (values.map write).mapM read = some values := by
  induction values with
  | nil => rfl
  | cons a values ih => simp [h, ih]

theorem items?_array (h : ∀ a, read (write a) = some a) (values : List α) :
    items? read (array (values.map write)) = some values :=
  mapM_map_eq_some h values

theorem string?_string (s : String) : string? (string s) = some s := rfl

theorem strings?_ofStrings (strings : List String) : strings? (ofStrings strings) = some strings :=
  mapM_map_eq_some string?_string strings

theorem nullable_of_ne_null {j : Json} (h : j ≠ null) : nullable read j = (read j).map some := by
  cases j with
  | null => exact absurd rfl h
  | _ => rfl

theorem nullable_ofOption (h : ∀ a, read (write a) = some a) (hnull : ∀ a, write a ≠ null)
    (value? : Option α) : nullable read (ofOption write value?) = some value? := by
  cases value? with
  | none => rfl
  | some a =>
    rw [ofOption, nullable_of_ne_null (hnull a), h a]
    rfl

theorem field?_items?_of_not_array {fields : List (String × Json)} {name : String}
    (h : ∀ items, fields.lookup name = some (array items) → False) :
    field? fields name (items? read) = none := by
  rw [field?]
  cases hlookup : fields.lookup name with
  | none => rfl
  | some value =>
    cases value with
    | array items => exact (h items hlookup).elim
    | _ => rfl

end Json

theorem Primitive.ofJson?_keyword (p : Primitive) : ofJson? (.string p.keyword) = some p :=
  ofKeyword?_keyword p

theorem MemberKind.ofJson?_word (kind : MemberKind) : ofJson? (.string kind.word) = some kind :=
  ofWord?_word kind

namespace TypeRef

/-- Reads the base and the arguments of a parameterized type. -/
def parameterizedOfJson? (content : Json) : Option (QualifiedName × List TypeRef) := do
  let fields ← content.record? ["base", "args"] 2
  return (← Json.field? fields "base" Json.string?,
    ← Json.field? fields "args" (Json.items? ofJson?))

/-- Reads the name and the bound of a type variable. -/
def variableOfJson? (content : Json) : Option (String × Option TypeRef) := do
  let fields ← content.record? ["name", "bound"] 2
  return (← Json.field? fields "name" Json.string?,
    ← Json.fieldD fields "bound" (Json.nullable ofJson?) none)

/-- Reads the content of the alternative `tag`. -/
def alternativeOfJson? (content : Json) : String → Option TypeRef
  | "primitive" => (Primitive.ofJson? content).map primitive
  | "array" => (ofJson? content).map array
  | "declared" => content.string?.map declared
  | "parameterized" => (parameterizedOfJson? content).map fun read => parameterized read.1 read.2
  | "variable" => (variableOfJson? content).map fun read => typeVariable read.1 read.2
  | _ => none

/-- What is read as a type, by the tag of the value. -/
theorem ofJson?_eq (j : Json) :
    ofJson? j = j.single?.bind fun single => alternativeOfJson? single.2 single.1 := by
  rw [ofJson?]
  split
  · rename_i hj
    rw [hj]
    rfl
  · rename_i hj
    rw [hj]
    rfl
  · rename_i hj
    rw [hj]
    rfl
  · rename_i content hj
    rw [hj]
    change _ = (parameterizedOfJson? content).map _
    rw [parameterizedOfJson?]
    split
    · rename_i hfields
      rw [hfields]
      rfl
    · rename_i fields hfields
      rw [hfields]
      split
      · rename_i items hargs
        have hread : Json.field? fields "args" (Json.items? ofJson?) = items.mapM ofJson? := by
          rw [Json.field?, hargs]
          rfl
        simp only [hread, Option.pure_def, Option.bind_eq_bind, Option.bind_some, Option.map_bind,
          Function.comp_def, Option.map_some]
        congr 1
        funext base
        rw [List.mapM_subtype (g := ofJson?) fun _ _ => rfl, List.unattach_attach]
      · rename_i hargs
        simp only [Json.field?_items?_of_not_array hargs, Option.bind_eq_bind, Option.bind_some,
          Option.bind_none, Option.bind_fun_none, Option.map_none]
  · rename_i content hj
    rw [hj]
    change _ = (variableOfJson? content).map _
    rw [variableOfJson?]
    split
    · rename_i hfields
      rw [hfields]
      rfl
    · rename_i fields hfields
      rw [hfields]
      simp only [Option.pure_def, Option.bind_eq_bind, Option.bind_some, Option.map_bind,
        Function.comp_def, Option.map_some]
      congr 1
      funext name
      -- An absent bound and `null` both stand for no bound.
      rw [Json.fieldD]
      split
      · rename_i hlookup
        rw [hlookup]
        rfl
      · rename_i hlookup
        rw [hlookup]
        rfl
      · rename_i bound hne hlookup
        rw [hlookup]
        change _ = (Json.nullable ofJson? bound).bind _
        rw [Json.nullable_of_ne_null hne]
        cases ofJson? bound <;> rfl
  · rename_i hprimitive harray hdeclared hparameterized hvariable
    cases hj : j.single? with
    | none => rfl
    | some single =>
      obtain ⟨tag, content⟩ := single
      rw [Option.bind_some]
      change none = alternativeOfJson? content tag
      unfold alternativeOfJson?
      split <;> simp_all

theorem toJson_ne_null (type : TypeRef) : type.toJson ≠ .null := by
  cases type <;> simp [toJson]

mutual

theorem ofJson?_toJson : ∀ type : TypeRef, ofJson? type.toJson = some type
  | primitive kind => by
    rw [toJson, ofJson?_eq]
    change (Primitive.ofJson? (.string kind.keyword)).map primitive = _
    rw [Primitive.ofJson?_keyword]
    rfl
  | array component => by
    rw [toJson, ofJson?_eq]
    change (ofJson? component.toJson).map array = _
    rw [ofJson?_toJson component]
    rfl
  | declared name => by
    rw [toJson, ofJson?_eq]
    rfl
  | parameterized base args => by
    have hcontent : parameterizedOfJson?
        (.object [("base", .string base), ("args", .array (allToJson args))]) =
        some (base, args) := by
      change ((allToJson args).mapM ofJson?).bind _ = _
      rw [mapM_allToJson args]
      rfl
    rw [toJson, ofJson?_eq]
    change (parameterizedOfJson? _).map _ = _
    rw [hcontent]
    rfl
  | typeVariable name bound => by
    have hcontent : variableOfJson?
        (.object [("name", .string name), ("bound", boundToJson bound)]) = some (name, bound) := by
      change (Json.nullable ofJson? (boundToJson bound)).bind _ = _
      rw [nullable_boundToJson bound]
      rfl
    rw [toJson, ofJson?_eq]
    change (variableOfJson? _).map _ = _
    rw [hcontent]
    rfl

theorem mapM_allToJson : ∀ types : List TypeRef, (allToJson types).mapM ofJson? = some types
  | [] => rfl
  | type :: rest => by
    rw [allToJson, List.mapM_cons, ofJson?_toJson type, mapM_allToJson rest]
    rfl

theorem nullable_boundToJson : ∀ bound : Option TypeRef,
    Json.nullable ofJson? (boundToJson bound) = some bound
  | none => rfl
  | some bound => by
    rw [boundToJson, Json.nullable_of_ne_null bound.toJson_ne_null, ofJson?_toJson bound]
    rfl

end

end TypeRef

theorem MemberEntry.ofJson?_toJson (m : MemberEntry) : ofJson? m.toJson = some m := by
  change (MemberKind.ofJson? (.string m.kind.word)).bind _ = _
  rw [MemberKind.ofJson?_word]
  change ((TypeRef.allToJson m.params).mapM TypeRef.ofJson?).bind _ = _
  rw [TypeRef.mapM_allToJson]
  rfl

theorem TypeEntry.ofJson?_toJson (entry : TypeEntry) : ofJson? entry.toJson = some entry := by
  change (Json.strings? (.ofStrings entry.supertypes)).bind _ = _
  rw [Json.strings?_ofStrings]
  change (Json.items? MemberEntry.ofJson?
    (.array (entry.members.map MemberEntry.toJson))).bind _ = _
  rw [Json.items?_array MemberEntry.ofJson?_toJson]
  rfl

theorem ModuleEntry.ofJson?_toJson (entry : ModuleEntry) : ofJson? entry.toJson = some entry := by
  change (Json.strings? (.ofStrings entry.imports)).bind _ = _
  rw [Json.strings?_ofStrings]
  change (Json.strings? (.ofStrings entry.staticImports)).bind _ = _
  rw [Json.strings?_ofStrings]
  have hdoc : Json.nullable Json.string? (.ofOption .string entry.doc?) = some entry.doc? :=
    Json.nullable_ofOption Json.string?_string (fun _ => by simp) entry.doc?
  change (Json.nullable Json.string? (.ofOption .string entry.doc?)).bind _ = _
  rw [hdoc]
  rfl

theorem Config.ofJson?_toJson (config : Config) : ofJson? config.toJson = some config := by
  change (Json.strings? (.ofStrings config.linkTags)).bind _ = _
  rw [Json.strings?_ofStrings]
  rfl

theorem Config.toJson_ne_null (config : Config) : config.toJson ≠ .null := by
  simp [toJson]

/-- A description that is written is read back. -/
theorem Description.ofJson?_toJson (description : Description) :
    ofJson? description.toJson = some description := by
  change (Json.nullable Config.ofJson? (.ofOption Config.toJson description.config?)).bind _ = _
  rw [Json.nullable_ofOption Config.ofJson?_toJson Config.toJson_ne_null]
  change (Json.items? ModuleEntry.ofJson?
    (.array (description.modules.map ModuleEntry.toJson))).bind _ = _
  rw [Json.items?_array ModuleEntry.ofJson?_toJson]
  change (Json.items? TypeEntry.ofJson?
    (.array (description.types.map TypeEntry.toJson))).bind _ = _
  rw [Json.items?_array TypeEntry.ofJson?_toJson]
  rfl

end DocWeave
