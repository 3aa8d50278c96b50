import DocWeave.SymbolIndex

/-!
# Members of a type, inherited ones included

`SymbolIndex.allMembers` walks the supertypes depth first, each name once, and keeps a member
unless an earlier one hides it: fields and enum constants are hidden by name, methods by name and
erased parameter types. Constructors are not inherited.
-/

namespace DocWeave

/-- What a member hides others by. -/
inductive MemberKey where
  | value (name : String)
  | call (name : String) (params : List TypeRef)
  deriving DecidableEq, Repr

/-- Members with the same key hide each other; constructors have none. -/
def MemberDecl.key? (m : MemberDecl) : Option MemberKey :=
  match m.kind with
  | .field | .enumConstant => some (.value m.name)
  | .method => some (.call m.name m.erasedParams)
  | .constructor => none

/-- The middle of a walk over the supertypes: the names already reached, the latest first, and the
members kept so far. -/
structure MemberWalk where
  reached : List QualifiedName := []
  kept : List Member := []

namespace MemberWalk

def keep (walk : MemberWalk) (m : Member) : MemberWalk :=
  { walk with kept := walk.kept ++ [m] }

/-- Keeps the member unless one that was kept hides it or it is a constructor of a supertype. -/
def offer (isOwn : Bool) (walk : MemberWalk) (m : Member) : MemberWalk :=
  match m.key? with
  | none => if isOwn then walk.keep m else walk
  | some memberKey =>
    if walk.kept.any (·.key? == some memberKey) then walk else walk.keep m

/-- Offers the members of a type and then visits its supertypes in order, those that were not
reached before. `levels` bounds how far up the walk goes; names that are not declared are passed
over. -/
def visit (index : SymbolIndex) (levels : Nat) (isOwn : Bool) (name : QualifiedName)
    (walk : MemberWalk) : MemberWalk :=
  match index.types.find? name with
  | none => walk
  | some decl =>
    let walk := decl.ownMembers.foldl (offer isOwn) walk
    match levels with
    | 0 => walk
    | levels + 1 =>
      decl.supertypes.foldl (fun walk supertype =>
        if walk.reached.contains supertype then walk
        else visit index levels false supertype
          { walk with reached := supertype :: walk.reached }) walk

end MemberWalk

/-- The members of a type and of its supertypes without the hidden ones. A chain of types that
were not reached before holds each declared type at most once, so as many levels as there are
types are enough. -/
def SymbolIndex.allMembers (index : SymbolIndex) (type : QualifiedName) : List Member :=
  (MemberWalk.visit index index.types.size true type { reached := [type] }).kept

end DocWeave
