/-!
# Tokens of a comment

Braces and the openers of inline tags, such as `{@link`, stand out; everything between them is
text. `Token.tokenize` cuts a text into tokens, and `Token.written` gives back what each stands
for.
-/

namespace DocWeave.Comment

/-- What a closing brace can close. -/
inductive Opener where
  | brace
  | tag (name : String)
  deriving DecidableEq, Repr

inductive Token where
  | text (body : String)
  | opening (opener : Opener)
  | closing
  deriving DecidableEq, Repr

def Opener.written : Opener → String
  | brace => "\x7b"
  | tag name => "\x7b@" ++ name

def Token.written : Token → String
  | text body => body
  | opening opener => opener.written
  | closing => "\x7d"

namespace Token

/-- A character that the name of a tag may go on with; it starts with a letter. -/
def isTagPart (c : Char) : Bool :=
  c.isAlphanum || c == '_' || c == '-'

/-- A character of a text token. -/
def isTextChar (c : Char) : Bool :=
  c != '{' && c != '}'

/-- The name of the tag that a brace opens if this follows it, and what comes after the name. -/
def tagName? : List Char → Option (List Char × List Char)
  | '@' :: c :: cs =>
    if c.isAlpha then some (c :: cs.takeWhile isTagPart, cs.dropWhile isTagPart) else none
  | _ => none

theorem eq_of_tagName? {cs name rest : List Char} (h : tagName? cs = some (name, rest)) :
    cs = '@' :: (name ++ rest) := by
  unfold tagName? at h
  split at h
  · split at h
    · obtain ⟨rfl, rfl⟩ : _ = name ∧ _ = rest := by simpa using h
      simp
    · simp at h
  · simp at h

/-- Cuts a text into tokens, each as long as possible. -/
def tokenizeChars : List Char → List Token
  | [] => []
  | c :: cs =>
    if c = '{' then
      match _found : tagName? cs with
      | some (name, rest) => opening (.tag (String.ofList name)) :: tokenizeChars rest
      | none => opening .brace :: tokenizeChars cs
    else if c = '}' then closing :: tokenizeChars cs
    else
      text (String.ofList (c :: cs.takeWhile isTextChar)) :: tokenizeChars (cs.dropWhile isTextChar)
termination_by cs => cs.length
decreasing_by
  · have := congrArg List.length (eq_of_tagName? _found)
    simp at this ⊢
    omega
  · simp
  · simp
  · have := (List.dropWhile_suffix (l := cs) isTextChar).length_le
    simp
    omega

def tokenize (body : String) : List Token :=
  tokenizeChars body.toList

end Token
end DocWeave.Comment
