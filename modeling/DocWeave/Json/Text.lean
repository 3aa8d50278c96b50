import DocWeave.Json

/-!
# JSON texts

`Json.parse` reads a text token by token. The reader keeps the open containers in a list, so texts
may be nested as deep as they like. Numbers are kept as they are written.
-/

namespace DocWeave.Json

/-! ## Strings -/

/-- One element of a string: a character, or a UTF-16 code unit written as an escape. -/
inductive StringPart where
  | char (c : Char)
  | unit (code : Nat)
  deriving DecidableEq, Repr

def hexDigit? (c : Char) : Option Nat :=
  if '0' ≤ c ∧ c ≤ '9' then some (c.toNat - '0'.toNat)
  else if 'a' ≤ c ∧ c ≤ 'f' then some (c.toNat - 'a'.toNat + 10)
  else if 'A' ≤ c ∧ c ≤ 'F' then some (c.toNat - 'A'.toNat + 10)
  else none

def unit? (a b c d : Char) : Option Nat := do
  return (((← hexDigit? a) * 16 + (← hexDigit? b)) * 16 + (← hexDigit? c)) * 16 + (← hexDigit? d)

/-- The character that a backslash and the given one stand for. -/
def escaped? : Char → Option Char
  | '"' => some '"'
  | '\\' => some '\\'
  | '/' => some '/'
  | 'b' => some '\x08'
  | 'f' => some '\x0c'
  | 'n' => some '\n'
  | 'r' => some '\r'
  | 't' => some '\t'
  | _ => none

/-- Reads up to the closing quote; `parts` are those already read, the latest first. -/
def scanString (parts : List StringPart) : List Char → Option (List StringPart × List Char)
  | '"' :: cs => some (parts.reverse, cs)
  | '\\' :: 'u' :: a :: b :: c :: d :: cs =>
    match unit? a b c d with
    | some code => scanString (.unit code :: parts) cs
    | none => none
  | '\\' :: c :: cs =>
    match escaped? c with
    | some c => scanString (.char c :: parts) cs
    | none => none
  | c :: cs => if c.toNat < 0x20 then none else scanString (.char c :: parts) cs
  | [] => none

def isHighSurrogate (code : Nat) : Bool := 0xd800 ≤ code && code < 0xdc00

def isLowSurrogate (code : Nat) : Bool := 0xdc00 ≤ code && code < 0xe000

/-- The characters of a string whose surrogates come in pairs. -/
def joinParts? : List StringPart → Option (List Char)
  | [] => some []
  | .char c :: rest => (joinParts? rest).map (c :: ·)
  | .unit high :: .unit low :: rest =>
    if isHighSurrogate high then
      if isLowSurrogate low then
        (joinParts? rest).map
          (Char.ofNat (0x10000 + (high - 0xd800) * 0x400 + (low - 0xdc00)) :: ·)
      else none
    else if isLowSurrogate high then none
    else (joinParts? (.unit low :: rest)).map (Char.ofNat high :: ·)
  | .unit code :: rest =>
    if isHighSurrogate code || isLowSurrogate code then none
    else (joinParts? rest).map (Char.ofNat code :: ·)

/-! ## Numbers -/

/-- One digit or more. -/
def scanDigits? (cs : List Char) : Option (List Char × List Char) :=
  match cs.takeWhile Char.isDigit with
  | [] => none
  | digits => some (digits, cs.dropWhile Char.isDigit)

/-- The digits before the point: no zero before others. -/
def scanInteger? : List Char → Option (List Char × List Char)
  | '0' :: cs => some (['0'], cs)
  | cs => scanDigits? cs

/-- A point with digits, if there is a point. -/
def scanFraction? : List Char → Option (List Char × List Char)
  | '.' :: cs => (scanDigits? cs).map fun (digits, rest) => ('.' :: digits, rest)
  | cs => some ([], cs)

/-- The exponent mark with digits that may be signed, if there is a mark. -/
def scanExponent? : List Char → Option (List Char × List Char)
  | c :: cs =>
    if c = 'e' ∨ c = 'E' then
      match cs with
      | '+' :: cs => (scanDigits? cs).map fun (digits, rest) => (c :: '+' :: digits, rest)
      | '-' :: cs => (scanDigits? cs).map fun (digits, rest) => (c :: '-' :: digits, rest)
      | cs => (scanDigits? cs).map fun (digits, rest) => (c :: digits, rest)
    else some ([], c :: cs)
  | [] => some ([], [])

/-- A number without its sign. -/
def scanUnsigned? (cs : List Char) : Option (List Char × List Char) := do
  let (integer, cs) ← scanInteger? cs
  let (fraction, cs) ← scanFraction? cs
  let (exponent, cs) ← scanExponent? cs
  return (integer ++ fraction ++ exponent, cs)

/-! ## Tokens -/

inductive Token where
  | openArray
  | closeArray
  | openObject
  | closeObject
  | comma
  | colon
  /-- A string, or nothing for one with half of a surrogate pair. -/
  | string (s : Option String)
  /-- Any other value that is not a container. -/
  | atom (value : Json)

/-- Reads one token after its first character. -/
def scanToken? : Char → List Char → Option (Token × List Char)
  | '[', cs => some (.openArray, cs)
  | ']', cs => some (.closeArray, cs)
  | '{', cs => some (.openObject, cs)
  | '}', cs => some (.closeObject, cs)
  | ',', cs => some (.comma, cs)
  | ':', cs => some (.colon, cs)
  | '"', cs => (scanString [] cs).map fun (parts, rest) =>
      (.string ((joinParts? parts).map String.ofList), rest)
  | 'n', 'u' :: 'l' :: 'l' :: cs => some (.atom .null, cs)
  | 't', 'r' :: 'u' :: 'e' :: cs => some (.atom (.bool true), cs)
  | 'f', 'a' :: 'l' :: 's' :: 'e' :: cs => some (.atom (.bool false), cs)
  | '-', cs => (scanUnsigned? cs).map fun (literal, rest) =>
      (.atom (.number (String.ofList ('-' :: literal))), rest)
  | c, cs =>
    if c.isDigit then
      (scanUnsigned? (c :: cs)).map fun (literal, rest) =>
        (.atom (.number (String.ofList literal)), rest)
    else none

/-! ## Containers -/

/-- A container that is not closed yet, its elements the latest first. The value of the key of an
object is still to come. -/
inductive Open where
  | array (latest : List Json)
  | object (latest : List (Option String × Json)) (key : Option String)

/-- What was read and what may come next, inside the open containers, innermost first. -/
inductive Expect where
  /-- A value. -/
  | value (outer : List Open)
  /-- A value or the end of an array that has just begun. -/
  | firstItem (outer : List Open)
  /-- A key, after the given fields; `orEnd` if the object has just begun. -/
  | key (latest : List (Option String × Json)) (orEnd : Bool) (outer : List Open)
  /-- The colon after a key. -/
  | colon (latest : List (Option String × Json)) (key : Option String) (outer : List Open)
  /-- What follows a complete value. -/
  | after (value : Json) (outer : List Open)

/-- An object whose fields were read, the latest first. -/
def closeObject (latest : List (Option String × Json)) : Json :=
  match latest.reverse.mapM fun (key, value) => key.map (·, value) with
  | some fields => .object fields
  | none => .unreadable

/-- The token that a value may start with. -/
def startValue? (outer : List Open) : Token → Option Expect
  | .openArray => some (.firstItem outer)
  | .openObject => some (.key [] true outer)
  | .string (some s) => some (.after (.string s) outer)
  | .string none => some (.after .unreadable outer)
  | .atom value => some (.after value outer)
  | _ => none

/-- Reads one token. -/
def Expect.step? : Expect → Token → Option Expect
  | .value outer, token => startValue? outer token
  | .firstItem outer, .closeArray => some (.after (.array []) outer)
  | .firstItem outer, token => startValue? (.array [] :: outer) token
  | .key latest _ outer, .string name => some (.colon latest name outer)
  | .key latest true outer, .closeObject => some (.after (closeObject latest) outer)
  | .colon latest name outer, .colon => some (.value (.object latest name :: outer))
  | .after v (.array latest :: outer), .comma => some (.value (.array (v :: latest) :: outer))
  | .after v (.array latest :: outer), .closeArray =>
    some (.after (.array (v :: latest).reverse) outer)
  | .after v (.object latest name :: outer), .comma =>
    some (.key ((name, v) :: latest) false outer)
  | .after v (.object latest name :: outer), .closeObject =>
    some (.after (closeObject ((name, v) :: latest)) outer)
  | _, _ => none

/-- The value that was read, when the text ends. -/
def Expect.finish? : Expect → Option Json
  | .after v [] => some v
  | _ => none

/-! ## Texts -/

/-- The characters that may stand between tokens. -/
def isSeparator (c : Char) : Bool :=
  c == ' ' || c == '\t' || c == '\n' || c == '\r'

theorem length_scanString_le {parts parts' : List StringPart} {cs rest : List Char}
    (h : scanString parts cs = some (parts', rest)) : rest.length ≤ cs.length := by
  fun_induction scanString parts cs <;> simp_all <;> omega

theorem eq_of_scanDigits? {cs digits rest : List Char} (h : scanDigits? cs = some (digits, rest)) :
    cs = digits ++ rest := by
  unfold scanDigits? at h
  split at h
  · simp at h
  · obtain ⟨rfl, rfl⟩ : cs.takeWhile Char.isDigit = digits ∧ cs.dropWhile Char.isDigit = rest := by
      simpa using h
    simp

theorem ne_nil_of_scanDigits? {cs digits rest : List Char}
    (h : scanDigits? cs = some (digits, rest)) : digits ≠ [] := by
  unfold scanDigits? at h
  split at h
  · simp at h
  · rename_i hne
    obtain ⟨rfl, -⟩ : cs.takeWhile Char.isDigit = digits ∧ _ := by simpa using h
    exact hne

theorem eq_of_scanInteger? {cs integer rest : List Char}
    (h : scanInteger? cs = some (integer, rest)) : cs = integer ++ rest := by
  unfold scanInteger? at h
  split at h
  · obtain ⟨rfl, rfl⟩ : ['0'] = integer ∧ _ = rest := by simpa using h
    rfl
  · exact eq_of_scanDigits? h

theorem eq_of_scanFraction? {cs fraction rest : List Char}
    (h : scanFraction? cs = some (fraction, rest)) : cs = fraction ++ rest := by
  unfold scanFraction? at h
  split at h
  · obtain ⟨⟨digits, rest'⟩, hd, he⟩ := Option.map_eq_some_iff.1 h
    obtain ⟨rfl, rfl⟩ : '.' :: digits = fraction ∧ rest' = rest := by simpa using he
    rw [eq_of_scanDigits? hd, List.cons_append]
  · obtain ⟨rfl, rfl⟩ : [] = fraction ∧ _ = rest := by simpa using h
    rfl

theorem eq_of_scanExponent? {cs exponent rest : List Char}
    (h : scanExponent? cs = some (exponent, rest)) : cs = exponent ++ rest := by
  unfold scanExponent? at h
  split at h
  · split at h
    · split at h <;>
      · obtain ⟨⟨digits, rest'⟩, hd, he⟩ := Option.map_eq_some_iff.1 h
        simp only [Prod.mk.injEq] at he
        obtain ⟨rfl, rfl⟩ := he
        rw [eq_of_scanDigits? hd]
        rfl
    · obtain ⟨rfl, rfl⟩ : [] = exponent ∧ _ = rest := by simpa using h
      rfl
  · obtain ⟨rfl, rfl⟩ : [] = exponent ∧ [] = rest := by simpa using h
    rfl

theorem ne_nil_of_scanInteger? {cs integer rest : List Char}
    (h : scanInteger? cs = some (integer, rest)) : integer ≠ [] := by
  unfold scanInteger? at h
  split at h
  · obtain ⟨rfl, -⟩ : ['0'] = integer ∧ _ := by simpa using h
    simp
  · exact ne_nil_of_scanDigits? h

/-- A number is read from the front of the text and has at least one character. -/
theorem eq_of_scanUnsigned? {cs literal rest : List Char}
    (h : scanUnsigned? cs = some (literal, rest)) : cs = literal ++ rest ∧ literal ≠ [] := by
  simp only [scanUnsigned?, Option.bind_eq_bind, Option.bind_eq_some_iff, Prod.exists] at h
  obtain ⟨integer, r₁, h₁, fraction, r₂, h₂, exponent, r₃, h₃, he⟩ := h
  obtain ⟨rfl, rfl⟩ : integer ++ fraction ++ exponent = literal ∧ r₃ = rest := by simpa using he
  have := ne_nil_of_scanInteger? h₁
  rw [eq_of_scanInteger? h₁, eq_of_scanFraction? h₂, eq_of_scanExponent? h₃]
  simp [this]

theorem length_scanToken?_le {c : Char} {cs rest : List Char} {token : Token}
    (h : scanToken? c cs = some (token, rest)) : rest.length ≤ cs.length := by
  unfold scanToken? at h
  split at h
  case h_7 =>
    obtain ⟨⟨parts, rest'⟩, hs, he⟩ := Option.map_eq_some_iff.1 h
    obtain ⟨-, rfl⟩ : _ ∧ rest' = rest := by simpa using he
    exact length_scanString_le hs
  case h_11 =>
    obtain ⟨⟨literal, rest'⟩, hs, he⟩ := Option.map_eq_some_iff.1 h
    obtain ⟨-, rfl⟩ : _ ∧ rest' = rest := by simpa using he
    rw [(eq_of_scanUnsigned? hs).1]
    simp
  case h_12 =>
    split at h
    · rename_i hc
      obtain ⟨⟨literal, rest'⟩, hs, he⟩ := Option.map_eq_some_iff.1 h
      obtain ⟨-, rfl⟩ : _ ∧ rest' = rest := by simpa using he
      obtain ⟨hl, hne⟩ := eq_of_scanUnsigned? hs
      cases literal with
      | nil => exact absurd rfl hne
      | cons d ds =>
        rw [List.cons_append, List.cons.injEq] at hl
        rw [hl.2]
        simp
    · simp at h
  all_goals
    obtain ⟨-, rfl⟩ : _ ∧ _ = rest := by simpa using h
    simp <;> omega

/-- Reads the tokens that are left. -/
def readTokens? (expect : Expect) : List Char → Option Json
  | [] => expect.finish?
  | c :: cs =>
    if isSeparator c then readTokens? expect cs
    else
      match _found : scanToken? c cs with
      | some (token, rest) =>
        match expect.step? token with
        | some expect => readTokens? expect rest
        | none => none
      | none => none
termination_by cs => cs.length
decreasing_by
  · simp
  · have := length_scanToken?_le _found
    simp
    omega

/-- The value of a text that holds one value and nothing else. -/
def parse (text : String) : Option Json :=
  readTokens? (.value []) text.toList

end DocWeave.Json
