import DocWeave.Link
import DocWeave.Text.Blank

/-!
# Links to Javadoc pages

Every type has a page; members have anchors on it. The anchor of a method is its name and its
erased parameter types, each followed by `-`, with `:A` for `[]`.
-/

namespace DocWeave.Javadoc

/-- Replaces every `[]`, read from the left, by `:A`. -/
def markArrays : List Char → List Char
  | '[' :: ']' :: cs => ':' :: 'A' :: markArrays cs
  | c :: cs => c :: markArrays cs
  | [] => []

/-- How a parameter type stands in an anchor. -/
def anchorType (type : TypeRef) : String :=
  String.ofList (markArrays type.erasure.print.toList)

/-- The anchor of a method on the page of its type; without parameters it ends in `--`. -/
def methodAnchor (m : Member) : String :=
  match m.params with
  | [] => m.name ++ "--"
  | params => m.name ++ "-" ++ String.join (params.map fun type => anchorType type ++ "-")

/-- The page of a type: the base, if there is one, and the name with `/` for every dot. -/
def page (base : String) (type : QualifiedName) : String :=
  let path := type.map (fun c => if c = '.' then '/' else c) ++ ".html"
  if base.isEmpty then path else base ++ "/" ++ path

/-- Links to pages under `baseUrl`; slashes at its end do not count. -/
def links (baseUrl : String) : LinkFormatter :=
  let base := String.ofList (Text.dropEndWhile (· == '/') baseUrl.toList)
  { typeLink := page base
    methodLink := fun owner m => page base owner ++ "#" ++ methodAnchor m
    fieldLink := fun owner m => page base owner ++ "#" ++ m.name }

end DocWeave.Javadoc
