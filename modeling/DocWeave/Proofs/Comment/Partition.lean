import DocWeave.Proofs.Comment.Tokens
import Mathlib.Data.List.Chain
import Mathlib.Data.List.TakeWhile

/-!
# The one way to cut a text into tokens

Where a token ends is decided by the text behind it (`EndsBefore`): a token ends there just if no
token that could stand in its place is longer (`isLongest_iff_endsBefore`). Cutting off the longest
token again and again is therefore the same as cutting a text so that each token ends before what
comes next, and this can be done in one way only (`tokenize_partitions`).
-/

namespace DocWeave.Comment.Token

variable {cs rest tail : List Char} {token other : Token} {tokens : List Token}

/-- Whether the token can be cut off a text: a brace, the opener of a tag with a name, or some text
without braces. -/
def IsLexeme : Token → Prop
  | text body => body ≠ "" ∧ Braceless body.toList
  | opening .brace => True
  | opening (.tag name) => IsTagName name.toList
  | closing => True

def isText : Token → Bool
  | text _ => true
  | opening _ | closing => false

/-- A letter follows an `@` at the start of the text. -/
def StartsTag : List Char → Prop
  | '@' :: c :: _ => c.isAlpha = true
  | _ => False

/-- The token does not go on with the text behind it. -/
def EndsBefore : Token → List Char → Prop
  | text _, rest => ∀ c ∈ rest.head?, isTextChar c = false
  | opening .brace, rest => ¬ StartsTag rest
  | opening (.tag _), rest => ∀ c ∈ rest.head?, isTagPart c = false
  | closing, _ => True

/-- No token that could be cut off in its place is longer. -/
def IsLongest (token : Token) (rest : List Char) : Prop :=
  ∀ (other : Token) (tail : List Char), other.IsLexeme →
    other.written.toList ++ tail = token.written.toList ++ rest →
    other.written.length ≤ token.written.length

/-- The tokens that are left when a longest one is cut off the text as long as there is any. -/
inductive Munches : List Char → List Token → Prop where
  | nil : Munches [] []
  | cons {token : Token} {rest : List Char} {tokens : List Token} : token.IsLexeme →
      token.IsLongest rest → Munches rest tokens →
      Munches (token.written.toList ++ rest) (token :: tokens)

/-- The tokens make up the text, and none of them could be cut at another place. -/
structure Partitions (body : String) (tokens : List Token) : Prop where
  written : writtenAll tokens = body
  lexemes : ∀ token ∈ tokens, token.IsLexeme
  names_end : ∀ before name after, tokens = before ++ opening (.tag name) :: after →
    ∀ c ∈ (writtenAll after).toList.head?, isTagPart c = false
  braces_bare : ∀ before after, tokens = before ++ opening .brace :: after →
    ¬ StartsTag (writtenAll after).toList
  texts_apart : tokens.IsChain fun a b => ¬ (a.isText = true ∧ b.isText = true)

/-- Each token ends before the text of the later ones. -/
def WellCut : List Token → Prop
  | [] => True
  | token :: rest => token.IsLexeme ∧ token.EndsBefore (writtenAll rest).toList ∧ WellCut rest

/-! ## One token -/

theorem tagName?_eq_none_iff : tagName? cs = none ↔ ¬ StartsTag cs := by
  unfold tagName? StartsTag
  split
  · rename_i c cs
    by_cases hc : c.isAlpha = true <;> simp [hc]
  · simp

theorem tokenizeChars_brace (h : ¬ StartsTag rest) :
    tokenizeChars ('{' :: rest) = opening .brace :: tokenizeChars rest := by
  have hnone := tagName?_eq_none_iff.2 h
  rw [tokenizeChars, if_pos rfl]
  split
  · rename_i hsome
    cases hnone.symm.trans hsome
  · rfl

theorem tokenizeChars_written (h : token.IsLexeme) (hend : token.EndsBefore rest) :
    tokenizeChars (token.written.toList ++ rest) = token :: tokenizeChars rest := by
  match token with
  | text body =>
    rw [written, tokenizeChars_append h.2 hend, textTokens, if_neg (by simpa using h.1),
      String.ofList_toList, List.singleton_append]
  | opening .brace => exact tokenizeChars_brace hend
  | opening (.tag name) =>
    have happlied := tokenizeChars_tag h hend
    rw [String.ofList_toList] at happlied
    rw [← happlied, written, Opener.written, String.toList_append]
    rfl
  | closing => exact tokenizeChars_closing rest

/-- What `dropWhile` leaves does not go on. -/
theorem not_of_head?_dropWhile {p : Char → Bool} : ∀ c ∈ (cs.dropWhile p).head?, p c = false := by
  intro c hc
  have hstart := List.head?_dropWhile_not p cs
  rwa [hc] at hstart

theorem isTagName_of_tagName? {name : List Char} (h : tagName? cs = some (name, rest)) :
    IsTagName name ∧ ∀ c ∈ rest.head?, isTagPart c = false := by
  unfold tagName? at h
  split at h
  · split at h
    · rename_i hc
      cases h
      exact ⟨⟨hc, fun c => List.mem_takeWhile_imp⟩, not_of_head?_dropWhile⟩
    · cases h
  · cases h

/-- A text begins with a token that ends before the rest. -/
theorem exists_lexeme (h : cs ≠ []) : ∃ (token : Token) (rest : List Char),
    cs = token.written.toList ++ rest ∧ token.IsLexeme ∧ token.EndsBefore rest := by
  obtain ⟨c, cs, rfl⟩ := List.exists_cons_of_ne_nil h
  by_cases hopen : c = '{'
  · subst hopen
    cases hfound : tagName? cs with
    | none => exact ⟨opening .brace, cs, rfl, trivial, tagName?_eq_none_iff.1 hfound⟩
    | some found =>
      obtain ⟨name, rest⟩ := found
      obtain ⟨hname, hend⟩ := isTagName_of_tagName? hfound
      refine ⟨opening (.tag (String.ofList name)), rest, ?_, ?_, hend⟩
      · simp [written, Opener.written, eq_of_tagName? hfound]
      · simpa [IsLexeme] using hname
  · by_cases hclose : c = '}'
    · subst hclose
      exact ⟨closing, cs, rfl, trivial, trivial⟩
    · have hc : isTextChar c = true := by simp [isTextChar, hopen, hclose]
      refine ⟨text (String.ofList (c :: cs.takeWhile isTextChar)), cs.dropWhile isTextChar,
        ?_, ⟨?_, ?_⟩, not_of_head?_dropWhile⟩
      · simp [written, List.takeWhile_append_dropWhile]
      · simp
      · rw [String.toList_ofList]
        exact List.forall_mem_cons.2 ⟨hc, fun d => List.mem_takeWhile_imp⟩

theorem written_ne_nil (h : token.IsLexeme) : token.written.toList ≠ [] := by
  match token with
  | text body => simpa [written] using h.1
  | opening .brace | opening (.tag _) | closing => simp [written, Opener.written]

theorem exists_head?_written (h : token.IsLexeme) : ∃ c, token.written.toList.head? = some c :=
  Option.ne_none_iff_exists'.1 (mt List.head?_eq_none_iff.1 (written_ne_nil h))

/-- What holds of the empty text, and is kept when a token is put before a text that ends it, holds
of every text. -/
theorem lexeme_induction {motive : List Char → Prop} (nil : motive [])
    (cons : ∀ (token : Token) (rest : List Char), token.IsLexeme → token.EndsBefore rest →
      motive rest → motive (token.written.toList ++ rest)) (cs : List Char) : motive cs := by
  by_cases hempty : cs = []
  · exact hempty ▸ nil
  · obtain ⟨token, rest, hcs, hlexeme, hend⟩ := exists_lexeme hempty
    have hlength := List.length_pos_iff.2 (written_ne_nil hlexeme)
    rw [hcs]
    exact cons token rest hlexeme hend (lexeme_induction nil cons rest)
termination_by cs.length
decreasing_by
  rw [hcs, List.length_append]
  omega

/-! ## The longest token -/

/-- A run of characters that reaches into what is behind another one does not end where that one
does. -/
theorem length_le_of_append_eq {p : Char → Bool} {run run' : List Char}
    (h : run' ++ tail = run ++ rest) (hrun' : ∀ c ∈ run', p c = true)
    (hrest : ∀ c ∈ rest.head?, p c = false) : run'.length ≤ run.length := by
  rcases List.append_eq_append_iff.1 h with ⟨_, rfl, -⟩ | ⟨more, rfl, rfl⟩
  · simp
  · cases more with
    | nil => simp
    | cons c more =>
      have hin := hrun' c (by simp)
      rw [hrest c rfl] at hin
      cases hin

/-- Texts are the tokens that begin with a character of a text. -/
theorem isTextChar_head? (h : token.IsLexeme) :
    ∀ c ∈ token.written.toList.head?, isTextChar c = token.isText := by
  match token with
  | text body =>
    intro c hc
    exact h.2 c (List.mem_of_mem_head? hc)
  | opening .brace | opening (.tag _) | closing =>
    intro c hc
    obtain rfl : _ = c := by simpa [written, Opener.written] using hc
    rfl

theorem IsTagName.isTagPart {name : List Char} (h : IsTagName name) :
    ∀ c ∈ name, isTagPart c = true := by
  cases name with
  | nil => exact h.elim
  | cons c name =>
    have hc : Token.isTagPart c = true := by simp [Token.isTagPart, Char.isAlphanum, h.1]
    exact List.forall_mem_cons.2 ⟨hc, h.2⟩

theorem toList_written_tag (name : String) :
    (opening (.tag name)).written.toList = '{' :: '@' :: name.toList := by
  simp [written, Opener.written]

/-- Tokens that stand in the same place begin with the same character. -/
theorem head?_eq_of_append_eq (h : token.IsLexeme) (hother : other.IsLexeme)
    (heq : other.written.toList ++ tail = token.written.toList ++ rest) :
    other.written.toList.head? = token.written.toList.head? := by
  rw [← List.head?_append_of_ne_nil _ (written_ne_nil hother), heq,
    List.head?_append_of_ne_nil _ (written_ne_nil h)]

theorem isText_eq_of_head?_eq (h : token.IsLexeme) (hother : other.IsLexeme)
    (hhead : other.written.toList.head? = token.written.toList.head?) :
    other.isText = token.isText := by
  obtain ⟨c, hc⟩ := exists_head?_written h
  rw [← isTextChar_head? h c hc, isTextChar_head? hother c (hhead.trans hc)]

theorem isLongest_of_endsBefore (h : token.IsLexeme) (hend : token.EndsBefore rest) :
    token.IsLongest rest := by
  intro other tail hother heq
  have hhead := head?_eq_of_append_eq h hother heq
  have htext := isText_eq_of_head?_eq h hother hhead
  rw [← String.length_toList, ← String.length_toList]
  match token, other with
  | text body, text body' => exact length_le_of_append_eq heq hother.2 hend
  | opening .brace, opening .brace | closing, closing => exact Nat.le_refl _
  | opening (.tag name), opening .brace =>
    rw [toList_written_tag]
    exact Nat.le_add_left _ _
  | opening .brace, opening (.tag name) =>
    refine absurd ?_ hend
    rw [toList_written_tag] at heq
    obtain rfl : '@' :: (name.toList ++ tail) = rest := (List.cons.inj heq).2
    cases hname : name.toList with
    | nil => simp [IsLexeme, hname, IsTagName] at hother
    | cons c cs =>
      simp only [IsLexeme, hname] at hother
      exact hother.1
  | opening (.tag name), opening (.tag name') =>
    rw [toList_written_tag, toList_written_tag] at heq ⊢
    have hnames : name'.toList ++ tail = name.toList ++ rest :=
      (List.cons.inj (List.cons.inj heq).2).2
    exact Nat.add_le_add_right (length_le_of_append_eq hnames hother.isTagPart hend) 2
  | closing, opening .brace | opening .brace, closing => simp [written, Opener.written] at hhead
  | closing, opening (.tag name) =>
    rw [toList_written_tag] at hhead
    cases hhead
  | opening (.tag name), closing =>
    rw [toList_written_tag] at hhead
    cases hhead

theorem IsTagName.append {name more : List Char} (h : IsTagName name)
    (hmore : ∀ c ∈ more, Token.isTagPart c = true) : IsTagName (name ++ more) := by
  cases name with
  | nil => exact h.elim
  | cons c name => exact ⟨h.1, List.forall_mem_append.2 ⟨h.2, hmore⟩⟩

/-- A token that goes on can be replaced by one that is a character longer, or by a tag. -/
theorem endsBefore_of_isLongest (h : token.IsLexeme) (hlongest : token.IsLongest rest) :
    token.EndsBefore rest := by
  match token with
  | text body =>
    intro c hc
    obtain ⟨tail, rfl⟩ := List.head?_eq_some_iff.1 hc
    rw [← Bool.not_eq_true]
    intro htext
    have hmore : Braceless (body.toList ++ [c]) :=
      List.forall_mem_append.2 ⟨h.2, by simpa using htext⟩
    have hlength := hlongest (text (String.ofList (body.toList ++ [c]))) tail
      ⟨by simp, by simpa using hmore⟩ (by simp [written])
    simp only [written, String.length_ofList, List.length_append, String.length_toList] at hlength
    exact Nat.not_succ_le_self _ hlength
  | opening .brace =>
    intro hstart
    unfold StartsTag at hstart
    split at hstart
    · rename_i c tail
      have hname : IsTagName [c] := ⟨hstart, by simp⟩
      have hlength := hlongest (opening (.tag (String.ofList [c]))) tail
        (by simpa [IsLexeme] using hname) (by simp [written, Opener.written])
      rw [← String.length_toList, ← String.length_toList, toList_written_tag] at hlength
      exact Nat.not_succ_le_zero _ (Nat.le_of_succ_le_succ hlength)
    · exact hstart
  | opening (.tag name) =>
    intro c hc
    obtain ⟨tail, rfl⟩ := List.head?_eq_some_iff.1 hc
    rw [← Bool.not_eq_true]
    intro hpart
    have hname : IsTagName (name.toList ++ [c]) := IsTagName.append h (by simpa using hpart)
    have hlength := hlongest (opening (.tag (String.ofList (name.toList ++ [c])))) tail
      (by simpa [IsLexeme] using hname) (by simp [toList_written_tag])
    simp only [written, Opener.written, String.length_append, String.length_ofList,
      List.length_append, String.length_toList] at hlength
    exact Nat.not_succ_le_self _ hlength
  | closing => trivial

theorem isLongest_iff_endsBefore (h : token.IsLexeme) :
    token.IsLongest rest ↔ token.EndsBefore rest :=
  ⟨endsBefore_of_isLongest h, isLongest_of_endsBefore h⟩

/-! ## All tokens -/

theorem Munches.tokenizeChars_eq (h : Munches cs tokens) : tokenizeChars cs = tokens := by
  induction h with
  | nil => rw [tokenizeChars]
  | cons hlexeme hlongest _ ih =>
    rw [tokenizeChars_written hlexeme ((isLongest_iff_endsBefore hlexeme).1 hlongest), ih]

theorem munches_tokenizeChars (cs : List Char) : Munches cs (tokenizeChars cs) := by
  induction cs using lexeme_induction with
  | nil =>
    rw [tokenizeChars]
    exact .nil
  | cons token rest hlexeme hend ih =>
    rw [tokenizeChars_written hlexeme hend]
    exact .cons hlexeme ((isLongest_iff_endsBefore hlexeme).2 hend) ih

theorem wellCut_tokenizeChars (cs : List Char) : WellCut (tokenizeChars cs) := by
  induction cs using lexeme_induction with
  | nil =>
    rw [tokenizeChars]
    trivial
  | cons token rest hlexeme hend ih =>
    rw [tokenizeChars_written hlexeme hend]
    exact ⟨hlexeme, by rwa [toList_writtenAll_tokenizeChars], ih⟩

theorem WellCut.tokenizeChars_eq (h : WellCut tokens) :
    tokenizeChars (writtenAll tokens).toList = tokens := by
  induction tokens with
  | nil => rw [writtenAll_nil, String.toList_empty, tokenizeChars]
  | cons token tokens ih =>
    obtain ⟨hlexeme, hend, htail⟩ := h
    rw [writtenAll_cons, String.toList_append, tokenizeChars_written hlexeme hend, ih htail]

/-- The text of some tokens begins as the first of them does. -/
theorem isTextChar_head?_writtenAll (h : ∀ token ∈ tokens, token.IsLexeme) :
    ∀ c ∈ (writtenAll tokens).toList.head?,
      ∃ token ∈ tokens.head?, isTextChar c = token.isText := by
  cases tokens with
  | nil =>
    rw [writtenAll_nil]
    exact fun c hc => by cases hc
  | cons token tokens =>
    have hlexeme := h token List.mem_cons_self
    rw [writtenAll_cons, String.toList_append,
      List.head?_append_of_ne_nil _ (written_ne_nil hlexeme)]
    exact fun c hc => ⟨token, rfl, isTextChar_head? hlexeme c hc⟩

theorem WellCut.isLexeme (h : WellCut tokens) : ∀ token ∈ tokens, token.IsLexeme := by
  induction tokens with
  | nil => exact List.forall_mem_nil _
  | cons token tokens ih => exact List.forall_mem_cons.2 ⟨h.1, ih h.2.2⟩

theorem WellCut.endsBefore {before after : List Token} (h : WellCut (before ++ token :: after)) :
    token.EndsBefore (writtenAll after).toList := by
  induction before with
  | nil => exact h.2.1
  | cons _ before ih => exact ih h.2.2

theorem WellCut.texts_apart (h : WellCut tokens) :
    tokens.IsChain fun a b => ¬ (a.isText = true ∧ b.isText = true) := by
  induction tokens with
  | nil => exact .nil
  | cons token tokens ih =>
    refine List.isChain_cons.2 ⟨fun next hnext htexts => ?_, ih h.2.2⟩
    obtain ⟨tokens, rfl⟩ := List.head?_eq_some_iff.1 hnext
    obtain ⟨c, hc⟩ := exists_head?_written h.2.2.1
    have hfirst : (writtenAll (next :: tokens)).toList.head? = some c := by
      rw [writtenAll_cons, String.toList_append, List.head?_append, hc, Option.some_or]
    have hin := (isTextChar_head? h.2.2.1 c hc).trans htexts.2
    match token, htexts.1 with
    | text body, _ =>
      have hout := h.2.1 c hfirst
      rw [hin] at hout
      cases hout

theorem Partitions.wellCut {body : String} (h : Partitions body tokens) : WellCut tokens := by
  obtain ⟨-, hlexemes, hnames, hbraces, htexts⟩ := h
  induction tokens with
  | nil => trivial
  | cons token tokens ih =>
    rw [List.isChain_cons] at htexts
    have htail := List.forall_mem_of_forall_mem_cons hlexemes
    refine ⟨hlexemes token List.mem_cons_self, ?_, ih htail ?_ ?_ htexts.2⟩
    · match token with
      | text body =>
        intro c hc
        obtain ⟨next, hnext, hchar⟩ := isTextChar_head?_writtenAll htail c hc
        rw [hchar, ← Bool.not_eq_true]
        exact fun hnextText => htexts.1 next hnext ⟨rfl, hnextText⟩
      | opening .brace => exact hbraces [] tokens rfl
      | opening (.tag name) => exact hnames [] name tokens rfl
      | closing => trivial
    · rintro before name after rfl
      exact hnames (token :: before) name after rfl
    · rintro before after rfl
      exact hbraces (token :: before) after rfl

theorem WellCut.partitions (h : WellCut tokens) : Partitions (writtenAll tokens) tokens where
  written := rfl
  lexemes := h.isLexeme
  names_end before name after hsplit := by
    subst hsplit
    exact h.endsBefore
  braces_bare before after hsplit := by
    subst hsplit
    exact h.endsBefore
  texts_apart := h.texts_apart

/-- Only the opener of a tag has a text that begins like one. -/
theorem eq_tag_iff (h : token.IsLexeme) {name : String} :
    token = opening (.tag name) ↔ token.written = "\x7b@" ++ name := by
  refine ⟨fun htoken => htoken ▸ rfl, fun hwritten => ?_⟩
  have hchars : token.written.toList = '{' :: '@' :: name.toList := by
    rw [hwritten, String.toList_append]
    rfl
  match token with
  | text body =>
    have hbrace := h.2 '{' (hchars ▸ List.mem_cons_self)
    cases hbrace
  | opening .brace => cases hchars
  | opening (.tag name') =>
    rw [toList_written_tag] at hchars
    rw [String.toList_inj.1 (List.cons.inj (List.cons.inj hchars).2).2]
  | closing => cases hchars

/-- A text is cut into tokens that make it up, each of them a brace, the opener of a tag with its
whole name, or text between these, and there is only one way to do so. Cutting off the longest token
at each place leads to it. The name of a tag is what its opener has behind `{@`. -/
theorem tokenize_partitions (body : String) :
    (∀ tokens, Partitions body tokens ↔ tokens = tokenize body) ∧
    (∀ tokens, Munches body.toList tokens ↔ tokens = tokenize body) ∧
    ∀ token ∈ tokenize body, ∀ name,
      token = opening (.tag name) ↔ token.written = "\x7b@" ++ name := by
  have hcut : WellCut (tokenize body) := wellCut_tokenizeChars body.toList
  refine ⟨fun tokens => ⟨fun h => ?_, ?_⟩, fun tokens => ⟨fun h => ?_, ?_⟩,
    fun token htoken name => eq_tag_iff (hcut.isLexeme token htoken)⟩
  · rw [tokenize, ← h.written, h.wellCut.tokenizeChars_eq]
  · rintro rfl
    have hpartitions := hcut.partitions
    rwa [writtenAll_tokenize] at hpartitions
  · exact h.tokenizeChars_eq.symm
  · rintro rfl
    exact munches_tokenizeChars body.toList

theorem tokenize_partitions_mixed :
    let body := "a\x7b@b-1\x7b@ \x7b@2\x7d@c"
    let tokens := [text "a", opening (.tag "b-1"), opening .brace, text "@ ", opening .brace,
      text "@2", closing, text "@c"]
    Partitions body tokens ∧ Munches body.toList tokens ∧
      opening (.tag "b-1") ∈ tokenize body ∧
      (opening (.tag "b-1")).written = "\x7b@" ++ "b-1" := by
  intro body tokens
  have htokens : tokens = tokenize body := by decide +kernel
  have hmem : opening (.tag "b-1") ∈ tokenize body := htokens ▸ by decide
  obtain ⟨hpartitions, hmunches, hname⟩ := tokenize_partitions body
  exact ⟨(hpartitions tokens).2 htokens, (hmunches tokens).2 htokens, hmem,
    (hname _ hmem "b-1").1 rfl⟩

end DocWeave.Comment.Token
