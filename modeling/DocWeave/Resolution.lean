import DocWeave.Resolution.TypeName
import DocWeave.SymbolIndex.Members

/-!
# Resolution of references

A reference without a member refers to a type or else to a module. One with a member refers to
the first field or method of its target that fits: by name alone if no parentheses are written;
with empty ones a method without parameters; with parameter types a field, or a method whose
erased parameter types are the written ones.
-/

namespace DocWeave

/-- What a reference refers to. The owner is the type that the reference names, which need not be
the one that declares the member. -/
inductive Symbol where
  | module (name : QualifiedName)
  | type (name : QualifiedName)
  | method (owner : QualifiedName) (member : Member)
  | field (owner : QualifiedName) (member : Member)
  deriving DecidableEq, Repr

/-- The last part of the name of a module or type, and the name of a member. -/
def Symbol.simpleName : Symbol → String
  | module name | type name => name.simpleName
  | method _ member | field _ member => member.name

namespace Scope

/-- Whether the written types are, one by one, the given erased types. -/
def typesMatch (scope : Scope) : List TypeRef → List String → Except DocError Bool
  | [], [] => .ok true
  | declared :: ds, written :: ws =>
    match scope.resolveType? written with
    | .error e => .error e
    | .ok (some type) => if type.isSameType declared then scope.typesMatch ds ws else .ok false
    | .ok none => .ok false
  | _, _ => .ok false

/-- Whether the parameters of a member are the written ones. -/
def paramsMatch (scope : Scope) (m : Member) : Option (List String) → Except DocError Bool
  | none => .ok true
  | some [] => .ok (m.isMethod && m.params.isEmpty)
  | some written =>
    if m.isField then .ok true
    else if m.erasedParams.length = written.length then scope.typesMatch m.erasedParams written
    else .ok false

/-- Only fields and methods can be referred to. -/
def isCandidate (name : String) (m : Member) : Bool :=
  (m.isField || m.isMethod) && m.name == name

/-- The first of the members that fits. -/
def findMember? (scope : Scope) (reference : MemberRef) :
    List Member → Except DocError (Option Member)
  | [] => .ok none
  | m :: rest =>
    if isCandidate reference.name m then
      match scope.paramsMatch m reference.params? with
      | .error e => .error e
      | .ok true => .ok (some m)
      | .ok false => scope.findMember? reference rest
    else scope.findMember? reference rest

/-- The member of `type` that a reference names. -/
def resolveMember? (scope : Scope) (type : QualifiedName) (reference : Reference) :
    Except DocError (Option Member) :=
  match reference.member? with
  | none => .error (.missingMemberName reference.target)
  | some member => scope.findMember? member (scope.index.allMembers type)

/-- The symbol for a member found through `owner`. -/
def memberSymbol (owner : QualifiedName) (m : Member) : Symbol :=
  if m.isField then .field owner m else .method owner m

/-- What a reference refers to. -/
def resolve? (scope : Scope) (reference : Reference) : Except DocError (Option Symbol) :=
  match scope.resolveDeclared? reference.target with
  | .error e => .error e
  | .ok found =>
    if reference.isMember then
      match found with
      | none => .ok none
      | some owner => (scope.resolveMember? owner reference).map (·.map (memberSymbol owner))
    else
      match found with
      | some type => .ok (some (.type type))
      | none => .ok ((scope.index.lookupModule? reference.target).map .module)

end Scope
end DocWeave
