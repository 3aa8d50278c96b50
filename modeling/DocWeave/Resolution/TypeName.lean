import DocWeave.Config
import DocWeave.DocError
import DocWeave.SymbolIndex

/-!
# Resolution of type names

Inside a module a name with a dot is looked up as it is. Any other is looked for among the imports
of the module, in order, and then in the default namespace. `Scope.resolveType?` reads primitive
types and arrays as well.
-/

namespace DocWeave

/-- What the names written in a module can refer to. -/
structure Scope where
  index : SymbolIndex
  module : QualifiedName
  defaultNamespace : QualifiedName

namespace Scope

def imports (scope : Scope) : List Import :=
  scope.index.imports scope.module

/-- The first import of `name` that leads to a declared type. An import without two halves that
is met on the way is an error. -/
def lookupImport? (scope : Scope) (name : String) :
    List Import → Except DocError (Option QualifiedName)
  | [] => .ok none
  | imp :: rest =>
    match imp.split? with
    | none => .error (.malformedImport scope.module imp.path)
    | some (qualifier, identifier) =>
      if identifier = name then
        match scope.index.lookupType? (QualifiedName.join qualifier identifier) with
        | some type => .ok (some type)
        | none => scope.lookupImport? name rest
      else scope.lookupImport? name rest

/-- The declared type that a written name refers to. -/
def resolveDeclared? (scope : Scope) (written : String) :
    Except DocError (Option QualifiedName) :=
  let name : QualifiedName := Text.trim written
  if name.isEmpty then .ok none
  else if name.isQualified then .ok (scope.index.lookupType? name)
  else
    match scope.lookupImport? name scope.imports with
    | .error e => .error e
    | .ok (some type) => .ok (some type)
    | .ok none => .ok (scope.index.lookupType? (QualifiedName.join scope.defaultNamespace name))

/-- The written name of the components, if an array type is written. -/
def component? (cs : List Char) : Option (List Char) :=
  Text.dropEnd? ['[', ']'] cs

theorem length_component?_lt {cs component : List Char} (h : component? cs = some component) :
    component.length < cs.length := by
  rw [Text.dropEnd?_eq_some_iff.1 h]
  simp

/-- The erased type that is written; blanks around it and around its parts do not count. -/
def resolveTypeChars? (scope : Scope) (written : List Char) : Except DocError (Option TypeRef) :=
  let name := Text.trimChars written
  match Primitive.ofKeyword? (String.ofList name) with
  | some kind => .ok (some (.primitive kind))
  | none =>
    match _found : component? name with
    | some component => (scope.resolveTypeChars? component).map (·.map .array)
    | none => (scope.resolveDeclared? (String.ofList name)).map (·.map .declared)
termination_by written.length
decreasing_by
  exact Nat.lt_of_lt_of_le (length_component?_lt _found) (Text.length_trimChars_le _)

section

variable {scope : Scope} {written component : List Char} {kind : Primitive}

theorem resolveTypeChars?_of_keyword
    (hkind : Primitive.ofKeyword? (String.ofList (Text.trimChars written)) = some kind) :
    scope.resolveTypeChars? written = .ok (some (.primitive kind)) := by
  rw [resolveTypeChars?, hkind]

theorem resolveTypeChars?_of_component
    (hkind : Primitive.ofKeyword? (String.ofList (Text.trimChars written)) = none)
    (hcomponent : component? (Text.trimChars written) = some component) :
    scope.resolveTypeChars? written =
      (scope.resolveTypeChars? component).map (·.map .array) := by
  rw [resolveTypeChars?, hkind]
  simp only
  split
  · rename_i hsome
    cases hcomponent.symm.trans hsome
    rfl
  · rename_i hnone
    cases hcomponent.symm.trans hnone

theorem resolveTypeChars?_of_name
    (hkind : Primitive.ofKeyword? (String.ofList (Text.trimChars written)) = none)
    (hcomponent : component? (Text.trimChars written) = none) :
    scope.resolveTypeChars? written =
      (scope.resolveDeclared? (String.ofList (Text.trimChars written))).map (·.map .declared) := by
  rw [resolveTypeChars?, hkind]
  simp only
  split
  · rename_i hsome
    cases hcomponent.symm.trans hsome
  · rfl

end

@[inherit_doc resolveTypeChars?]
def resolveType? (scope : Scope) (written : String) : Except DocError (Option TypeRef) :=
  scope.resolveTypeChars? written.toList

end Scope
end DocWeave
