import DocWeave.Reference
import DocWeave.Text.Identifier

/-!
# Reading references

`Reference.parse` cuts the text at the first `#` that a member follows: an identifier that ends
the text, or one with a list in parentheses that ends it. Everything before that `#`, further `#`s
included, is the target.
-/

namespace DocWeave

namespace MemberRef

/-- The written parameter types: the pieces between commas with their blanks collapsed, without
the empty pieces at the end. -/
def parseParams (cs : List Char) : List String :=
  let pieces := (Text.splitWhere (· == ',') cs).map Text.collapseBlanks
  (Text.dropEndWhile List.isEmpty pieces).map String.ofList

/-- Reads an identifier, alone or with a list in parentheses, that takes up the whole text. -/
def parse? (cs : List Char) : Option MemberRef :=
  match Text.Identifier.span? cs with
  | none => none
  | some (name, []) => some { name := String.ofList name }
  | some (name, '(' :: rest) =>
    match Text.dropEnd? [')'] rest with
    | some inner => some { name := String.ofList name, params? := some (parseParams inner) }
    | none => none
  | some (_, _ :: _) => none

end MemberRef

namespace Reference

/-- Cuts at the first `#` that a member follows. -/
def splitMember? : List Char → Option (List Char × MemberRef)
  | [] => none
  | c :: cs =>
    match if c = '#' then MemberRef.parse? cs else none with
    | some member => some ([], member)
    | none => (splitMember? cs).map fun (target, member) => (c :: target, member)

/-- Reads a reference; blanks around it and around its target do not count. -/
def parse (written : String) : Except ReferenceError Reference :=
  let cs := Text.trimChars written.toList
  if cs.isEmpty then .error .empty
  else if !cs.contains '#' then .ok { target := String.ofList cs }
  else match splitMember? cs with
    | none => .error (.malformedMember (String.ofList cs))
    | some (before, member) =>
      let target := Text.trimChars before
      if target.isEmpty then .error (.missingTarget (String.ofList cs))
      else .ok { target := String.ofList target, member? := some member }

end Reference
end DocWeave
