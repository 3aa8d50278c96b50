import DocWeave.Registry
import DocWeave.Declaration

/-!
# The symbol index

The declared types and modules by qualified name, in the order of their first declaration. A
further declaration of a name replaces the earlier one.
-/

namespace DocWeave

structure SymbolIndex where
  types : Registry TypeDecl TypeDecl.name := .empty
  modules : Registry ModuleDecl ModuleDecl.name := .empty

namespace SymbolIndex

instance : Inhabited SymbolIndex := ⟨{}⟩

def addType (index : SymbolIndex) (decl : TypeDecl) : SymbolIndex :=
  { index with types := index.types.insert decl }

def addModule (index : SymbolIndex) (decl : ModuleDecl) : SymbolIndex :=
  { index with modules := index.modules.insert decl }

def hasType (index : SymbolIndex) (name : QualifiedName) : Bool :=
  index.types.contains name

def hasModule (index : SymbolIndex) (name : QualifiedName) : Bool :=
  index.modules.contains name

/-- `name`, if a type of that name is declared. -/
def lookupType? (index : SymbolIndex) (name : QualifiedName) : Option QualifiedName :=
  if index.hasType name then some name else none

/-- `name`, if a module of that name is declared. -/
def lookupModule? (index : SymbolIndex) (name : QualifiedName) : Option QualifiedName :=
  if index.hasModule name then some name else none

/-- The imports of a module; one that is not declared has none. -/
def imports (index : SymbolIndex) (module : QualifiedName) : List Import :=
  match index.modules.find? module with
  | some decl => decl.imports
  | none => []

theorem lookupType?_eq_some_iff {index : SymbolIndex} {name found : QualifiedName} :
    index.lookupType? name = some found ↔ name = found ∧ name ∈ index.types.keys := by
  simp [lookupType?, hasType, Registry.contains_eq_true_iff, and_comm]

theorem lookupModule?_eq_some_iff {index : SymbolIndex} {name found : QualifiedName} :
    index.lookupModule? name = some found ↔ name = found ∧ name ∈ index.modules.keys := by
  simp [lookupModule?, hasModule, Registry.contains_eq_true_iff, and_comm]

theorem mem_keys_of_lookupModule? {index : SymbolIndex} {name found : QualifiedName}
    (h : index.lookupModule? name = some found) : found ∈ index.modules.keys := by
  obtain ⟨rfl, hkey⟩ := lookupModule?_eq_some_iff.1 h
  exact hkey

end SymbolIndex
end DocWeave
