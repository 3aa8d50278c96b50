import DocWeave.TypeRef

/-!
# Declarations

What types and modules declare: members and supertypes, and imports. A declared member gets its
owner, the declaring type, when the members of a type are enumerated.
-/

namespace DocWeave

inductive MemberKind where
  | field | method | constructor | enumConstant
  deriving DecidableEq, Repr

/-- A member as its type declares it. -/
structure MemberDecl where
  name : String
  kind : MemberKind
  params : List TypeRef := []
  deriving DecidableEq, Repr

/-- A member together with the type that declares it. -/
structure Member extends MemberDecl where
  owner : QualifiedName
  deriving DecidableEq, Repr

namespace MemberDecl

def isField (m : MemberDecl) : Bool := m.kind == .field

def isMethod (m : MemberDecl) : Bool := m.kind == .method

/-- The erased parameter types: with the name, what tells methods apart. -/
def erasedParams (m : MemberDecl) : List TypeRef :=
  m.params.map TypeRef.erasure

end MemberDecl

/-- A declared type. -/
structure TypeDecl where
  name : QualifiedName
  supertypes : List QualifiedName := []
  members : List MemberDecl := []
  deriving DecidableEq, Repr

/-- Declares one more member, after those that there are. -/
def TypeDecl.withMember (decl : TypeDecl) (name : String) (kind : MemberKind)
    (params : List TypeRef) : TypeDecl :=
  { decl with members := decl.members ++ [{ name, kind, params }] }

/-- The members with the type as their owner. -/
def TypeDecl.ownMembers (decl : TypeDecl) : List Member :=
  decl.members.map fun m => { m with owner := decl.name }

/-- One import of a module. -/
structure Import where
  path : QualifiedName
  isStatic : Bool := false
  deriving DecidableEq, Repr

/-- The qualifier and the identifier of the path. An import without a dot, or with nothing on one
side of the last one, has none. -/
def Import.split? (imp : Import) : Option (String × String) :=
  match imp.path.split? with
  | some (qualifier, identifier) =>
    if qualifier.isEmpty || identifier.isEmpty then none else some (qualifier, identifier)
  | none => none

/-- A declared module. -/
structure ModuleDecl where
  name : QualifiedName
  imports : List Import := []
  deriving DecidableEq, Repr

end DocWeave
