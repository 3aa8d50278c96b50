import DocWeave.Proofs.Description.RoundTrip
import DocWeave.Proofs.Json.Record
import Mathlib.Logic.Relation

/-!
# Edits of a written description

An edit of a description that is written out reorders the keys of an object, adds an unknown key to
a record, or leaves out a field that holds its default; it may do so at any depth. `Shape` names the
kinds of values in a description, and `Shape.fields` is the one place that says which fields a kind
has, what they hold and what their defaults are. One edit keeps what is read (`Edit.kept`), and so
any number of edits does.
-/

namespace DocWeave

/-- The kinds of values in a description. -/
inductive Shape where
  | text
  | flag
  | primitive
  | memberKind
  | nullable (shape : Shape)
  | list (item : Shape)
  | description
  | config
  | moduleEntry
  | typeEntry
  | memberEntry
  | typeRef
  | parameterized
  | typeVariable

/-- A field of an object: what it holds and, if it may be left out, what is written for its
default. -/
structure Field where
  name : String
  shape : Shape
  default? : Option Json := none

namespace Shape

/-- What a value is read as. -/
def Value : Shape → Type
  | text => String
  | flag => Bool
  | primitive => Primitive
  | memberKind => MemberKind
  | nullable shape => Option shape.Value
  | list item => List item.Value
  | description => Description
  | config => Config
  | moduleEntry => ModuleEntry
  | typeEntry => TypeEntry
  | memberEntry => MemberEntry
  | typeRef => TypeRef
  | parameterized => QualifiedName × List TypeRef
  | typeVariable => String × Option TypeRef

/-- Reads a value. -/
def read? : (shape : Shape) → Json → Option shape.Value
  | text => Json.string?
  | flag => Json.bool?
  | primitive => Primitive.ofJson?
  | memberKind => MemberKind.ofJson?
  | nullable shape => Json.nullable shape.read?
  | list item => Json.items? item.read?
  | description => Description.ofJson?
  | config => Config.ofJson?
  | moduleEntry => ModuleEntry.ofJson?
  | typeEntry => TypeEntry.ofJson?
  | memberEntry => MemberEntry.ofJson?
  | typeRef => TypeRef.ofJson?
  | parameterized => TypeRef.parameterizedOfJson?
  | typeVariable => TypeRef.variableOfJson?

/-- The fields of an object. A type reference has one of its fields only. -/
def fields : Shape → List Field
  | description =>
    [⟨"config", nullable config, some .null⟩,
      ⟨"modules", list moduleEntry, some (.array [])⟩,
      ⟨"types", list typeEntry, some (.array [])⟩]
  | config =>
    let standard : Config := {}
    [⟨"default_namespace", text, some (.string standard.defaultNamespace)⟩,
      ⟨"include_tag", text, some (.string standard.includeTag)⟩,
      ⟨"link_tags", list text, some (.ofStrings standard.linkTags)⟩]
  | moduleEntry =>
    [⟨"name", text, some (.string "")⟩,
      ⟨"imports", list text, some (.array [])⟩,
      ⟨"static_imports", list text, some (.array [])⟩,
      ⟨"doc", nullable text, some .null⟩,
      ⟨"generate", flag, some (.bool false)⟩]
  | typeEntry =>
    [⟨"name", text, some (.string "")⟩,
      ⟨"supertypes", list text, some (.array [])⟩,
      ⟨"members", list memberEntry, some (.array [])⟩]
  | memberEntry =>
    [⟨"name", text, none⟩,
      ⟨"kind", memberKind, none⟩,
      ⟨"params", list typeRef, some (.array [])⟩]
  | typeRef =>
    [⟨"primitive", primitive, none⟩,
      ⟨"array", typeRef, none⟩,
      ⟨"declared", text, none⟩,
      ⟨"parameterized", parameterized, none⟩,
      ⟨"variable", typeVariable, none⟩]
  | parameterized =>
    [⟨"base", text, none⟩,
      ⟨"args", list typeRef, none⟩]
  | typeVariable =>
    [⟨"name", text, none⟩,
      ⟨"bound", nullable typeRef, some .null⟩]
  | _ => []

def names (shape : Shape) : List String :=
  shape.fields.map Field.name

/-- What is written for the fields that may be left out. -/
def defaults (shape : Shape) : List (String × Json) :=
  shape.fields.filterMap fun field => field.default?.map (field.name, ·)

/-- The defaults are those of the values that are read. -/
theorem object_defaults :
    Json.object description.defaults = Description.toJson {} ∧
      Json.object config.defaults = Config.toJson {} ∧
      Json.object moduleEntry.defaults = ModuleEntry.toJson {} ∧
      Json.object typeEntry.defaults = TypeEntry.toJson {} :=
  ⟨rfl, rfl, rfl, rfl⟩

/-- Whether the objects are records, which may have further fields. -/
def isRecord : Shape → Bool
  | description | config | moduleEntry | typeEntry | memberEntry | parameterized
  | typeVariable => true
  | _ => false

theorem names_nodup (shape : Shape) : shape.names.Nodup := by
  cases shape <;> simp [names, fields]

/-- A known field is known by its name. -/
theorem eq_of_name_eq {shape : Shape} {field other : Field} (h : field ∈ shape.fields)
    (h' : other ∈ shape.fields) (hname : other.name = field.name) : other = field :=
  List.inj_on_of_nodup_map shape.names_nodup h' h hname

end Shape

/-- One edit of a value of the given shape. -/
inductive Edit : Shape → Json → Json → Prop where
  /-- The keys of an object in another order. -/
  | reorder {shape : Shape} {fields fields' : List (String × Json)} :
    fields.Perm fields' → Edit shape (.object fields) (.object fields')
  /-- A key that is not known, with any value and at any place. -/
  | unknown {shape : Shape} {name : String} (value : Json) (before after : List (String × Json)) :
    shape.isRecord = true → name ∉ shape.names →
    Edit shape (.object (before ++ after)) (.object (before ++ (name, value) :: after))
  /-- A field with its default is left out. -/
  | drop {shape : Shape} {value : Json} (field : Field) (before after : List (String × Json)) :
    field ∈ shape.fields → field.default? = some value →
    Edit shape (.object (before ++ (field.name, value) :: after)) (.object (before ++ after))
  /-- An edit inside of a field. -/
  | field {shape : Shape} {value value' : Json} (field : Field)
    (before after : List (String × Json)) :
    field ∈ shape.fields → Edit field.shape value value' →
    Edit shape (.object (before ++ (field.name, value) :: after))
      (.object (before ++ (field.name, value') :: after))
  /-- An edit inside of an element. -/
  | item {item : Shape} {value value' : Json} (before after : List Json) :
    Edit item value value' →
    Edit (.list item) (.array (before ++ value :: after)) (.array (before ++ value' :: after))
  /-- An edit of a value that could be absent. -/
  | present {shape : Shape} {value value' : Json} :
    Edit shape value value' → Edit (.nullable shape) value value'

variable {shape : Shape} {field : Field} {value value' j j' : Json} {name : String}
  {known known' before after : List (String × Json)}

/-! ## Fields -/

/-- How a field may change so that it is still read as before. -/
inductive FieldKept (field : Field) : Option Json → Option Json → Prop where
  | same (value? : Option Json) : FieldKept field value? value?
  | dropped {value : Json} : field.default? = some value → FieldKept field (some value) none
  | edited {value value' : Json} :
    Kept (field.shape.read? value) (field.shape.read? value') →
    FieldKept field (some value) (some value')

namespace FieldKept

/-- A field that may be left out is read as before if what is written for its default is read as
its default. -/
theorem fieldD {standard : field.shape.Value}
    (h : FieldKept field (known.lookup field.name) (known'.lookup field.name))
    (hdefault : field.default?.bind field.shape.read? = some standard) :
    Kept (Json.fieldD known field.name field.shape.read? standard)
      (Json.fieldD known' field.name field.shape.read? standard) := by
  unfold Json.fieldD
  generalize known.lookup field.name = value?, known'.lookup field.name = value'? at h ⊢
  cases h with
  | same => exact .refl _
  | dropped hvalue =>
    rw [hvalue] at hdefault
    intro a ha
    exact hdefault.symm.trans ha
  | edited hkept => exact hkept

/-- A field that has to be there is read as before. -/
theorem field? (h : FieldKept field (known.lookup field.name) (known'.lookup field.name))
    (hdefault : field.default? = none) :
    Kept (Json.field? known field.name field.shape.read?)
      (Json.field? known' field.name field.shape.read?) := by
  unfold Json.field?
  generalize known.lookup field.name = value?, known'.lookup field.name = value'? at h ⊢
  cases h with
  | same => exact .refl _
  | dropped hvalue => cases hdefault.symm.trans hvalue
  | edited hkept => exact hkept

end FieldKept

/-! ## Records -/

/-- The record is still there, and all its known fields are read as before. -/
def RecordKept (shape : Shape) (j j' : Json) : Prop :=
  ∀ least known, j.record? shape.names least = some known →
    ∃ known', j'.record? shape.names least = some known' ∧
      ∀ field ∈ shape.fields, FieldKept field (known.lookup field.name) (known'.lookup field.name)

namespace RecordKept

theorem of_unknown (h : name ∉ shape.names) :
    RecordKept shape (.object (before ++ after)) (.object (before ++ (name, value) :: after)) := by
  intro least known hread
  exact ⟨known, (Json.record?_unknown h).trans hread, fun _ _ => .same _⟩

theorem of_drop (hmem : field ∈ shape.fields) (hdefault : field.default? = some value) :
    RecordKept shape (.object (before ++ (field.name, value) :: after))
      (.object (before ++ after)) := by
  intro least known hread
  obtain ⟨known', hread', hvalue, hnone, hothers⟩ :=
    Json.record?_drop (List.mem_map_of_mem hmem) hread
  refine ⟨known', hread', fun other hother => ?_⟩
  by_cases hname : other.name = field.name
  · cases Shape.eq_of_name_eq hmem hother hname
    rw [hvalue, hnone]
    exact .dropped hdefault
  · rw [hothers other.name hname]
    exact .same _

theorem of_field (hmem : field ∈ shape.fields)
    (hkept : Kept (field.shape.read? value) (field.shape.read? value')) :
    RecordKept shape (.object (before ++ (field.name, value) :: after))
      (.object (before ++ (field.name, value') :: after)) := by
  intro least known hread
  obtain ⟨known', hread', hvalue, hvalue', hothers⟩ :=
    Json.record?_replace (List.mem_map_of_mem hmem) hread
  refine ⟨known', hread', fun other hother => ?_⟩
  by_cases hname : other.name = field.name
  · cases Shape.eq_of_name_eq hmem hother hname
    rw [hvalue, hvalue']
    exact .edited hkept
  · rw [hothers other.name hname]
    exact .same _

theorem of_reorder {fields fields' : List (String × Json)} (h : fields.Perm fields') :
    RecordKept shape (.object fields) (.object fields') := by
  intro least known hread
  obtain ⟨known', hread', hsame⟩ := Json.record?_reorder h hread
  refine ⟨known', hread', fun field _ => ?_⟩
  rw [hsame field.name]
  exact .same _

theorem bind {α : Type} {least : Nat} {read : List (String × Json) → Option α}
    (h : RecordKept shape j j')
    (hread : ∀ known known', (∀ field ∈ shape.fields,
      FieldKept field (known.lookup field.name) (known'.lookup field.name)) →
      Kept (read known) (read known')) :
    Kept ((j.record? shape.names least).bind read) ((j'.record? shape.names least).bind read) := by
  intro a ha
  obtain ⟨known, hknown, hvalue⟩ := Option.bind_eq_some_iff.1 ha
  obtain ⟨known', hknown', hfields⟩ := h least known hknown
  rw [hknown']
  exact hread known known' hfields a hvalue

theorem description (h : RecordKept .description j j') :
    Kept (Description.ofJson? j) (Description.ofJson? j') := by
  refine h.bind fun known known' hfields => ?_
  simp only [Shape.fields, List.forall_mem_cons] at hfields
  obtain ⟨hconfig, hmodules, htypes, -⟩ := hfields
  exact (hconfig.fieldD rfl).bind fun _ => (hmodules.fieldD rfl).bind fun _ =>
    (htypes.fieldD rfl).bind fun _ => .refl _

theorem config (h : RecordKept .config j j') : Kept (Config.ofJson? j) (Config.ofJson? j') := by
  refine h.bind fun known known' hfields => ?_
  simp only [Shape.fields, List.forall_mem_cons] at hfields
  obtain ⟨hnamespace, hinclude, hlinks, -⟩ := hfields
  exact (hnamespace.fieldD rfl).bind fun _ => (hinclude.fieldD rfl).bind fun _ =>
    (hlinks.fieldD rfl).bind fun _ => .refl _

theorem moduleEntry (h : RecordKept .moduleEntry j j') :
    Kept (ModuleEntry.ofJson? j) (ModuleEntry.ofJson? j') := by
  refine h.bind fun known known' hfields => ?_
  simp only [Shape.fields, List.forall_mem_cons] at hfields
  obtain ⟨hname, himports, hstatics, hdoc, hgenerate, -⟩ := hfields
  exact (hname.fieldD rfl).bind fun _ => (himports.fieldD rfl).bind fun _ =>
    (hstatics.fieldD rfl).bind fun _ => (hdoc.fieldD rfl).bind fun _ =>
    (hgenerate.fieldD rfl).bind fun _ => .refl _

theorem typeEntry (h : RecordKept .typeEntry j j') :
    Kept (TypeEntry.ofJson? j) (TypeEntry.ofJson? j') := by
  refine h.bind fun known known' hfields => ?_
  simp only [Shape.fields, List.forall_mem_cons] at hfields
  obtain ⟨hname, hsupertypes, hmembers, -⟩ := hfields
  exact (hname.fieldD rfl).bind fun _ => (hsupertypes.fieldD rfl).bind fun _ =>
    (hmembers.fieldD rfl).bind fun _ => .refl _

theorem memberEntry (h : RecordKept .memberEntry j j') :
    Kept (MemberEntry.ofJson? j) (MemberEntry.ofJson? j') := by
  refine h.bind fun known known' hfields => ?_
  simp only [Shape.fields, List.forall_mem_cons] at hfields
  obtain ⟨hname, hkind, hparams, -⟩ := hfields
  exact (hname.field? rfl).bind fun _ => (hkind.field? rfl).bind fun _ =>
    (hparams.fieldD rfl).bind fun _ => .refl _

theorem parameterized (h : RecordKept .parameterized j j') :
    Kept (TypeRef.parameterizedOfJson? j) (TypeRef.parameterizedOfJson? j') := by
  refine h.bind fun known known' hfields => ?_
  simp only [Shape.fields, List.forall_mem_cons] at hfields
  obtain ⟨hbase, hargs, -⟩ := hfields
  exact (hbase.field? rfl).bind fun _ => (hargs.field? rfl).bind fun _ => .refl _

theorem typeVariable (h : RecordKept .typeVariable j j') :
    Kept (TypeRef.variableOfJson? j) (TypeRef.variableOfJson? j') := by
  refine h.bind fun known known' hfields => ?_
  simp only [Shape.fields, List.forall_mem_cons] at hfields
  obtain ⟨hname, hbound, -⟩ := hfields
  exact (hname.field? rfl).bind fun _ => (hbound.fieldD rfl).bind fun _ => .refl _

/-- A record whose fields are read as before is read as before. -/
theorem read? (h : RecordKept shape j j') (hrecord : shape.isRecord = true) :
    Kept (shape.read? j) (shape.read? j') := by
  cases shape with
  | description => exact h.description
  | config => exact h.config
  | moduleEntry => exact h.moduleEntry
  | typeEntry => exact h.typeEntry
  | memberEntry => exact h.memberEntry
  | parameterized => exact h.parameterized
  | typeVariable => exact h.typeVariable
  | _ => cases hrecord

end RecordKept

/-! ## Other values -/

/-- Only fields of records may be left out. -/
theorem Shape.isRecord_of_default (hmem : field ∈ shape.fields)
    (hdefault : field.default? = some value) : shape.isRecord = true := by
  cases shape with
  | typeRef =>
    have hnone : ∀ field ∈ Shape.typeRef.fields, field.default? = none := by simp [Shape.fields]
    cases (hnone field hmem).symm.trans hdefault
  | description | config | moduleEntry | typeEntry | memberEntry | parameterized
  | typeVariable => rfl
  | _ => cases hmem

/-- An edit inside of the content of a type keeps the type. -/
theorem kept_typeRef (hmem : field ∈ Shape.typeRef.fields)
    (hkept : Kept (field.shape.read? value) (field.shape.read? value')) :
    Kept (TypeRef.ofJson? (.object (before ++ (field.name, value) :: after)))
      (TypeRef.ofJson? (.object (before ++ (field.name, value') :: after))) := by
  intro type hread
  rw [TypeRef.ofJson?_eq] at hread ⊢
  obtain ⟨⟨tag, content⟩, hsingle, hread⟩ := Option.bind_eq_some_iff.1 hread
  obtain ⟨rfl, rfl, rfl, rfl⟩ := Json.single?_append_cons_eq_some hsingle
  change TypeRef.alternativeOfJson? value field.name = some type at hread
  change TypeRef.alternativeOfJson? value' field.name = some type
  simp only [Shape.fields, List.mem_cons, List.not_mem_nil, or_false] at hmem
  rcases hmem with rfl | rfl | rfl | rfl | rfl
  · exact hkept.map TypeRef.primitive type hread
  · exact hkept.map TypeRef.array type hread
  · exact hkept.map TypeRef.declared type hread
  · exact hkept.map (fun content => TypeRef.parameterized content.1 content.2) type hread
  · exact hkept.map (fun content => TypeRef.typeVariable content.1 content.2) type hread

/-- The order of keys does not count, whatever is read. -/
theorem kept_reorder {fields fields' : List (String × Json)} (h : fields.Perm fields') :
    ∀ shape : Shape, Kept (shape.read? (.object fields)) (shape.read? (.object fields'))
  | .text | .flag | .list _ => .of_eq_none rfl
  | .nullable shape => (kept_reorder h shape).map some
  | .primitive | .memberKind => by
    rcases Json.eq_or_two_le_of_perm h with rfl | ⟨a, b, rest, rfl⟩
    · exact .refl _
    · exact .of_eq_none (congrArg (Option.bind · _) (Json.constant?_of_two_le a b rest))
  | .typeRef => by
    rcases Json.eq_or_two_le_of_perm h with rfl | ⟨a, b, rest, rfl⟩
    · exact .refl _
    · exact .of_eq_none (TypeRef.ofJson?_eq _)
  | .description | .config | .moduleEntry | .typeEntry | .memberEntry | .parameterized
  | .typeVariable => (RecordKept.of_reorder h).read? rfl

/-! ## Edits -/

namespace Edit

theorem ne_null (h : Edit shape j j') : j ≠ .null ∧ j' ≠ .null := by
  induction h with
  | present _ ih => exact ih
  | _ => exact ⟨nofun, nofun⟩

/-- An edited value is read as before. -/
theorem kept (h : Edit shape j j') : Kept (shape.read? j) (shape.read? j') := by
  induction h with
  | @reorder shape _ _ hperm => exact kept_reorder hperm shape
  | unknown value before after hrecord hname => exact (RecordKept.of_unknown hname).read? hrecord
  | drop field before after hmem hdefault =>
    exact (RecordKept.of_drop hmem hdefault).read? (Shape.isRecord_of_default hmem hdefault)
  | @field shape value value' field before after hmem _ ih =>
    -- Types are the only values with fields that are no records.
    by_cases hrecord : shape.isRecord = true
    · exact (RecordKept.of_field hmem ih).read? hrecord
    · cases shape with
      | typeRef => exact kept_typeRef hmem ih
      | description | config | moduleEntry | typeEntry | memberEntry | parameterized
      | typeVariable => exact absurd rfl hrecord
      | _ => cases hmem
  | item before after _ ih => exact ih.mapM_replace before after
  | @present shape value value' hedit ih =>
    -- An edit neither makes a value absent nor present.
    obtain ⟨hvalue, hvalue'⟩ := hedit.ne_null
    change Kept (Json.nullable shape.read? value) (Json.nullable shape.read? value')
    rw [Json.nullable_of_ne_null hvalue, Json.nullable_of_ne_null hvalue']
    exact ih.map some

/-- A value that is edited any number of times is read as before. -/
theorem kept_of_edits (h : Relation.ReflTransGen (Edit shape) j j') :
    Kept (shape.read? j) (shape.read? j') := by
  induction h with
  | refl => exact .refl _
  | tail _ hedit ih => exact fun a ha => hedit.kept a (ih a ha)

end Edit

/-- A description that is written out is read back, also after any number of edits: keys in another
order, unknown keys in records, and fields left out that hold their defaults. -/
theorem Description.ofJson?_of_edits (description : Description) :
    ofJson? description.toJson = some description ∧
      ∀ j, Relation.ReflTransGen (Edit .description) description.toJson j →
        ofJson? j = some description :=
  ⟨description.ofJson?_toJson,
    fun _ hedits => Edit.kept_of_edits hedits description description.ofJson?_toJson⟩

/-- A type with one method whose parameter is a type variable. -/
def genericMethod : Description where
  types := [{
    name := "a.B"
    members := [{ name := "m", kind := .method, params := [.typeVariable "T" none] }] }]

/-- The same description as it may be written by hand. -/
def genericMethodByHand : Json :=
  .object [("types", .array [.object
    [("members", .array [.object
      [("name", .string "m"), ("since", .string "1.2"), ("kind", .string "method"),
        ("params", .array [.object [("variable", .object [("name", .string "T")])]])]]),
      ("name", .string "a.B")]])]

theorem Description.ofJson?_of_edits_genericMethod :
    Relation.ReflTransGen (Edit .description) genericMethod.toJson genericMethodByHand ∧
      ofJson? genericMethodByHand = some genericMethod := by
  have inType {t t' : Json} (h : Edit .typeEntry t t') : Edit .description
      (.object [("config", .null), ("modules", .array []), ("types", .array [t])])
      (.object [("config", .null), ("modules", .array []), ("types", .array [t'])]) :=
    .field ⟨"types", .list .typeEntry, some (.array [])⟩
      [("config", .null), ("modules", .array [])] [] (by simp [Shape.fields]) (.item [] [] h)
  have inMember {m m' : Json} (h : Edit .memberEntry m m') : Edit .typeEntry
      (.object [("name", .string "a.B"), ("supertypes", .array []), ("members", .array [m])])
      (.object [("name", .string "a.B"), ("supertypes", .array []), ("members", .array [m'])]) :=
    .field ⟨"members", .list .memberEntry, some (.array [])⟩
      [("name", .string "a.B"), ("supertypes", .array [])] [] (by simp [Shape.fields])
      (.item [] [] h)
  have inParameter {p p' : Json} (h : Edit .typeVariable p p') : Edit .memberEntry
      (.object [("name", .string "m"), ("kind", .string "method"),
        ("params", .array [.object [("variable", p)]])])
      (.object [("name", .string "m"), ("kind", .string "method"),
        ("params", .array [.object [("variable", p')]])]) :=
    .field ⟨"params", .list .typeRef, some (.array [])⟩
      [("name", .string "m"), ("kind", .string "method")] [] (by simp [Shape.fields])
      (.item [] [] (.field ⟨"variable", .typeVariable, none⟩ [] [] (by simp [Shape.fields]) h))
  have hedits : Relation.ReflTransGen (Edit .description) genericMethod.toJson
      genericMethodByHand :=
    .head (inType (inMember (inParameter
      (.drop ⟨"bound", .nullable .typeRef, some .null⟩ [("name", .string "T")] []
        (by simp [Shape.fields]) rfl)))) <|
    .head (inType (inMember
      (.unknown (.string "1.2") [("name", .string "m")] _ rfl
        (by simp [Shape.names, Shape.fields])))) <|
    .head (inType
      (.drop ⟨"supertypes", .list .text, some (.array [])⟩ [("name", .string "a.B")] _
        (by simp [Shape.fields]) rfl)) <|
    .head (inType (.reorder (.swap _ _ []))) <|
    .head (.drop ⟨"config", .nullable .config, some .null⟩ [] _ (by simp [Shape.fields]) rfl) <|
    .single (.drop ⟨"modules", .list .moduleEntry, some (.array [])⟩ [] _
      (by simp [Shape.fields]) rfl)
  exact ⟨hedits, genericMethod.ofJson?_of_edits.2 genericMethodByHand hedits⟩

end DocWeave
