import DocWeave.Workspace

/-!
# Workspace descriptions

A description lists the modules and types of a workspace together with the documentation of the
modules. Its entries are made into declarations by `ModuleEntry.decl` and `TypeEntry.decl`.
`Description.build` turns it into a workspace, unless two types or two modules have the same name.
-/

namespace DocWeave

/-- A module, its documentation, and whether it is marked for generation. -/
structure ModuleEntry where
  name : QualifiedName := ""
  imports : List QualifiedName := []
  staticImports : List QualifiedName := []
  doc? : Option String := none
  generate : Bool := false
  deriving DecidableEq, Repr

/-- The declaration of the module: its plain imports and then its static ones. -/
def ModuleEntry.decl (entry : ModuleEntry) : ModuleDecl where
  name := entry.name
  imports :=
    entry.imports.map (fun path => { path }) ++
      entry.staticImports.map (fun path => { path, isStatic := true })

/-- A member of a type; all but its parameters have to be given. -/
structure MemberEntry where
  name : String
  kind : MemberKind
  params : List TypeRef := []
  deriving DecidableEq, Repr

/-- A type and its members. -/
structure TypeEntry where
  name : QualifiedName := ""
  supertypes : List QualifiedName := []
  members : List MemberEntry := []
  deriving DecidableEq, Repr

/-- The declaration of the type: its members are declared one after the other. -/
def TypeEntry.decl (entry : TypeEntry) : TypeDecl :=
  entry.members.foldl (fun decl m => decl.withMember m.name m.kind m.params)
    { name := entry.name, supertypes := entry.supertypes }

theorem TypeEntry.foldl_withMember (members : List MemberEntry) (decl : TypeDecl) :
    members.foldl (fun decl m => decl.withMember m.name m.kind m.params) decl = { decl with
      members := decl.members ++
        members.map fun m => { name := m.name, kind := m.kind, params := m.params } } := by
  induction members generalizing decl with
  | nil => rw [List.foldl_nil, List.map_nil, List.append_nil]
  | cons m members ih =>
    rw [List.foldl_cons, ih, TypeDecl.withMember, List.append_assoc, List.singleton_append,
      List.map_cons]

/-- The type declares the supertypes and the members of the entry, in order, and no others. -/
theorem TypeEntry.decl_eq (entry : TypeEntry) : entry.decl = {
    name := entry.name
    supertypes := entry.supertypes
    members := entry.members.map fun m =>
      { name := m.name, kind := m.kind, params := m.params } } :=
  foldl_withMember entry.members _

theorem TypeEntry.name_decl (entry : TypeEntry) : entry.decl.name = entry.name := by
  rw [decl_eq]

/-- The contents of a workspace file. -/
structure Description where
  config? : Option Config := none
  modules : List ModuleEntry := []
  types : List TypeEntry := []
  deriving DecidableEq, Repr

/-- Why a workspace file is refused. -/
inductive LoadError where
  /-- The text is no description. -/
  | malformed
  | duplicateType (name : QualifiedName)
  | duplicateModule (name : QualifiedName)
  deriving DecidableEq, Repr

def LoadError.message : LoadError → String
  | malformed => "Malformed description"
  | duplicateType name => "Duplicate type: " ++ name
  | duplicateModule name => "Duplicate module: " ++ name

namespace Workspace

/-- Adds a type whose name is new. -/
def addNewType (w : Workspace) (entry : TypeEntry) : Except LoadError Workspace :=
  if w.index.hasType entry.name then .error (.duplicateType entry.name)
  else .ok (w.addType entry.decl)

/-- Adds a module whose name is new, with its documentation and its mark. -/
def addEntry (w : Workspace) (entry : ModuleEntry) : Except LoadError Workspace :=
  if w.index.hasModule entry.name then .error (.duplicateModule entry.name)
  else
    let w := w.addModule entry.decl
    let w := match entry.doc? with
      | some raw => w.setDoc entry.name (.comment raw)
      | none => w
    .ok (if entry.generate then w.markGenerated entry.name else w)

end Workspace

/-- The workspace that is described. Types come first, so a repeated type is reported before a
repeated module. -/
def Description.build (description : Description) : Except LoadError Workspace := do
  let w ← description.types.foldlM Workspace.addNewType
    ({ config := description.config?.getD {} } : Workspace)
  description.modules.foldlM Workspace.addEntry w

end DocWeave
