import DocWeave.Name

/-!
# References

A reference names a type or a module, or a member of a type, the latter with or without a list of
parameter types. `print` writes it as `target#name(p,q)`.
-/

namespace DocWeave

/-- The member that a reference names. No list of parameters means any overload, the empty list a
method without parameters. -/
structure MemberRef where
  name : String
  params? : Option (List String) := none
  deriving DecidableEq, Repr

/-- A reference as it is written in a link. -/
structure Reference where
  target : String
  member? : Option MemberRef := none
  deriving DecidableEq, Repr

namespace Reference

def isMember (r : Reference) : Bool :=
  r.member?.isSome

/-- The written parameter types, if parentheses were written. -/
def params? (r : Reference) : Option (List String) :=
  r.member?.bind MemberRef.params?

def hasParens (r : Reference) : Bool :=
  r.params?.isSome

/-- Whether empty parentheses were written. -/
def isEmptyCall (r : Reference) : Bool :=
  r.params? == some []

/-- The reference as it is written without blanks. -/
def print (r : Reference) : String :=
  match r.member? with
  | none => r.target
  | some ⟨name, none⟩ => r.target ++ "#" ++ name
  | some ⟨name, some params⟩ => r.target ++ "#" ++ name ++ "(" ++ ",".intercalate params ++ ")"

end Reference

/-- Why a text is no reference. -/
inductive ReferenceError where
  | empty
  | missingTarget (written : String)
  | malformedMember (written : String)
  deriving DecidableEq, Repr

def ReferenceError.message : ReferenceError → String
  | empty => "empty reference"
  | missingTarget written => "missing target name in '" ++ written ++ "'"
  | malformedMember written => "malformed member reference '" ++ written ++ "'"

end DocWeave
