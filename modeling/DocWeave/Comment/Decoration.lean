import DocWeave.Text.Split

/-!
# Decoration of comments

A comment may come with its opening and closing marks and a column of stars. `undecorate` takes
them off; a text that does not open with `/**` is left as it is.
-/

namespace DocWeave.Comment

/-- A line without its indentation, the star after it and one space after the star. -/
def undecorateLine (line : List Char) : List Char :=
  let line := Text.dropBlanks line
  match Text.dropStart? ['*'] line with
  | some rest => (Text.dropStart? [' '] rest).getD rest
  | none => line

def isBlankLine (line : List Char) : Bool :=
  line.all Text.isBlank

/-- What stands between the opening and the closing mark; the latter may be missing. -/
def inner? (raw : List Char) : Option (List Char) :=
  (Text.dropStart? ['/', '*', '*'] (Text.trimChars raw)).map fun inner =>
    (Text.dropEnd? ['*', '/'] inner).getD inner

/-- The lines without their decoration, from the first to the last that is not blank. -/
def undecorateLines (inner : List Char) : List (List Char) :=
  Text.dropEndWhile isBlankLine (((Text.lines inner).map undecorateLine).dropWhile isBlankLine)

/-- The body of a comment. -/
def undecorate (raw : String) : String :=
  match inner? raw.toList with
  | some inner => String.ofList (List.intercalate ['\n'] (undecorateLines inner))
  | none => raw

end DocWeave.Comment
