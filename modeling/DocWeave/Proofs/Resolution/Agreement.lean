import DocWeave.Proofs.Members.Enumeration
import DocWeave.Resolution

/-!
# What resolution depends on

A scope reads the declared types, the imports of its own module and the names of the declared
modules. Scopes that agree on these resolve every reference alike, whatever the imports of other
modules are. Written types alone need less: of the declared types they read only the names.
-/

namespace DocWeave.Scope

/-- The two scopes read the same type names. -/
structure SameTypeNames (scope other : Scope) : Prop where
  lookupType? : ∀ name, other.index.lookupType? name = scope.index.lookupType? name
  imports : other.imports = scope.imports
  module : other.module = scope.module
  defaultNamespace : other.defaultNamespace = scope.defaultNamespace

namespace SameTypeNames

variable {scope other : Scope} (h : scope.SameTypeNames other)

include h

theorem lookupImport? (name : String) (imports : List Import) :
    other.lookupImport? name imports = scope.lookupImport? name imports := by
  induction imports with
  | nil => rfl
  | cons imp rest ih => simp only [Scope.lookupImport?, h.module, h.lookupType?, ih]

theorem resolveDeclared? (written : String) :
    other.resolveDeclared? written = scope.resolveDeclared? written := by
  simp only [Scope.resolveDeclared?, h.lookupType?, h.imports, h.lookupImport?,
    h.defaultNamespace]

theorem resolveTypeChars? (written : List Char) :
    other.resolveTypeChars? written = scope.resolveTypeChars? written := by
  fun_induction Scope.resolveTypeChars? scope written with
  | case1 written _ kind hkind => exact resolveTypeChars?_of_keyword hkind
  | case2 written _ hkind component hcomponent ih =>
    rw [resolveTypeChars?_of_component hkind hcomponent, ih]
  | case3 written name hkind hcomponent =>
    rw [resolveTypeChars?_of_name hkind hcomponent, h.resolveDeclared?]

theorem typesMatch (declared : List TypeRef) (written : List String) :
    other.typesMatch declared written = scope.typesMatch declared written := by
  induction declared generalizing written with
  | nil => cases written <;> rfl
  | cons d ds ih =>
    cases written with
    | nil => rfl
    | cons w ws => simp only [Scope.typesMatch, resolveType?, h.resolveTypeChars?, ih]

theorem paramsMatch (m : Member) (params? : Option (List String)) :
    other.paramsMatch m params? = scope.paramsMatch m params? := by
  unfold Scope.paramsMatch
  simp only [h.typesMatch]

theorem findMember? (reference : MemberRef) (members : List Member) :
    other.findMember? reference members = scope.findMember? reference members := by
  induction members with
  | nil => rfl
  | cons m rest ih => simp only [Scope.findMember?, h.paramsMatch, ih]

end SameTypeNames

/-- The two scopes read the same. -/
structure Agrees (scope other : Scope) : Prop where
  types : other.index.types = scope.index.types
  modules : ∀ name, other.index.lookupModule? name = scope.index.lookupModule? name
  imports : other.imports = scope.imports
  module : other.module = scope.module
  defaultNamespace : other.defaultNamespace = scope.defaultNamespace

namespace Agrees

variable {scope other : Scope} (h : scope.Agrees other)

include h

theorem sameTypeNames : scope.SameTypeNames other where
  lookupType? name := by
    rw [SymbolIndex.lookupType?, SymbolIndex.lookupType?, SymbolIndex.hasType, SymbolIndex.hasType,
      h.types]
  imports := h.imports
  module := h.module
  defaultNamespace := h.defaultNamespace

theorem allMembers (type : QualifiedName) :
    other.index.allMembers type = scope.index.allMembers type :=
  SymbolIndex.allMembers_congr fun n _ => by rw [h.types]

/-- Every reference refers to the same in both scopes. -/
theorem resolve? (reference : Reference) :
    other.resolve? reference = scope.resolve? reference := by
  simp only [Scope.resolve?, h.sameTypeNames.resolveDeclared?, resolveMember?,
    h.sameTypeNames.findMember?, h.allMembers, h.modules]

end Agrees

end DocWeave.Scope
