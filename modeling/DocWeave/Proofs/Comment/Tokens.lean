import DocWeave.Comment.Token
import DocWeave.Text.Blank

/-!
# Tokens and the text they stand for

What the tokens of a text stand for makes up the text again (`writtenAll_tokenize`). So nothing is
left out between two tokens, and a tag is only opened where its opener is written. In the other
direction, a text without braces in front of a brace is a token (`tokenizeChars_append`), and so is
the opener of a tag whose name does not go on (`tokenizeChars_tag`).
-/

namespace DocWeave.Comment.Token

/-- The text that tokens stand for, one after the other. -/
def writtenAll (tokens : List Token) : String :=
  String.join (tokens.map written)

/-- Somewhere in the text a letter follows `{@`. -/
def OpensTag (cs : List Char) : Prop :=
  ∃ c, c.isAlpha = true ∧ ['{', '@', c] <:+: cs

/-- No character is a brace. -/
def Braceless (cs : List Char) : Prop :=
  ∀ c ∈ cs, isTextChar c = true

/-- A letter, and behind it only characters that the name of a tag may go on with. -/
def IsTagName : List Char → Prop
  | [] => False
  | c :: cs => c.isAlpha = true ∧ ∀ d ∈ cs, isTagPart d = true

/-- The tokens of a text without braces: one, if there is any text. -/
def textTokens (cs : List Char) : List Token :=
  if cs = [] then [] else [text (String.ofList cs)]

instance (cs : List Char) : Decidable (Braceless cs) :=
  decidable_of_iff (cs.all isTextChar = true) List.all_eq_true

instance : (cs : List Char) → Decidable (IsTagName cs)
  | [] => isFalse id
  | c :: cs => decidable_of_iff (c.isAlpha = true ∧ cs.all isTagPart = true)
    (and_congr_right fun _ => List.all_eq_true)

theorem writtenAll_nil : writtenAll [] = "" := rfl

theorem writtenAll_cons (token : Token) (tokens : List Token) :
    writtenAll (token :: tokens) = token.written ++ writtenAll tokens := by
  rw [writtenAll, List.map_cons, String.join_cons, writtenAll]

theorem writtenAll_append (tokens tokens' : List Token) :
    writtenAll (tokens ++ tokens') = writtenAll tokens ++ writtenAll tokens' := by
  induction tokens with
  | nil => rw [List.nil_append, writtenAll_nil, String.empty_append]
  | cons token tokens ih =>
    rw [List.cons_append, writtenAll_cons, ih, writtenAll_cons, String.append_assoc]

theorem toList_writtenAll_tokenizeChars (cs : List Char) :
    (writtenAll (tokenizeChars cs)).toList = cs := by
  fun_induction tokenizeChars cs with
  | case1 => rfl
  | case2 cs name rest hname ih =>
    rw [writtenAll_cons, String.toList_append, ih, eq_of_tagName? hname]
    simp [written, Opener.written]
  | case3 cs hnone ih =>
    rw [writtenAll_cons, String.toList_append, ih]
    rfl
  | case4 cs _ ih =>
    rw [writtenAll_cons, String.toList_append, ih]
    rfl
  | case5 c cs _ _ ih =>
    rw [writtenAll_cons, String.toList_append, ih]
    simp [written, List.takeWhile_append_dropWhile]

theorem writtenAll_tokenize (body : String) : writtenAll (tokenize body) = body :=
  String.toList_inj.1 (toList_writtenAll_tokenizeChars body.toList)

theorem OpensTag.of_suffix {cs rest : List Char} (h : OpensTag rest) (hrest : rest <:+ cs) :
    OpensTag cs := by
  obtain ⟨c, hc, hinfix⟩ := h
  exact ⟨c, hc, hinfix.trans hrest.isInfix⟩

theorem opensTag_of_tagName? {cs name rest : List Char} (h : tagName? cs = some (name, rest)) :
    OpensTag ('{' :: cs) := by
  unfold tagName? at h
  split at h
  · rename_i c cs
    split at h
    · rename_i hc
      exact ⟨c, hc, [], cs, rfl⟩
    · cases h
  · cases h

theorem opensTag_of_mem_tokenizeChars {cs : List Char} {name : String}
    (h : opening (.tag name) ∈ tokenizeChars cs) : OpensTag cs := by
  fun_induction tokenizeChars cs with
  | case1 => cases h
  | case2 cs name' rest hname ih => exact opensTag_of_tagName? hname
  | case3 cs hnone ih =>
    exact (ih (by simpa using h)).of_suffix (List.suffix_cons ..)
  | case4 cs _ ih =>
    exact (ih (by simpa using h)).of_suffix (List.suffix_cons ..)
  | case5 c cs _ _ ih =>
    exact (ih (by simpa using h)).of_suffix ((List.dropWhile_suffix _).trans (List.suffix_cons ..))

/-! ## Written tokens -/

theorem tokenizeChars_append {cs rest : List Char} (hcs : Braceless cs)
    (hrest : ∀ c ∈ rest.head?, isTextChar c = false) :
    tokenizeChars (cs ++ rest) = textTokens cs ++ tokenizeChars rest := by
  cases cs with
  | nil => rfl
  | cons c cs =>
    obtain ⟨hc, htail⟩ := List.forall_mem_cons.1 hcs
    obtain ⟨hopen, hclose⟩ : c ≠ '{' ∧ c ≠ '}' := by simpa [isTextChar] using hc
    obtain ⟨htake, hdrop⟩ := Text.takeWhile_dropWhile_append htail hrest
    rw [List.cons_append, tokenizeChars, if_neg hopen, if_neg hclose, htake, hdrop, textTokens,
      if_neg (List.cons_ne_nil c cs), List.singleton_append]

theorem tagName?_append {name rest : List Char} (hname : IsTagName name)
    (hrest : ∀ c ∈ rest.head?, isTagPart c = false) :
    tagName? ('@' :: (name ++ rest)) = some (name, rest) := by
  cases name with
  | nil => exact hname.elim
  | cons c name =>
    obtain ⟨htake, hdrop⟩ := Text.takeWhile_dropWhile_append hname.2 hrest
    rw [List.cons_append, tagName?, if_pos hname.1, htake, hdrop]

theorem tokenizeChars_tag {name rest : List Char} (hname : IsTagName name)
    (hrest : ∀ c ∈ rest.head?, isTagPart c = false) :
    tokenizeChars ('{' :: '@' :: (name ++ rest)) =
      opening (.tag (String.ofList name)) :: tokenizeChars rest := by
  have hfound := tagName?_append hname hrest
  rw [tokenizeChars, if_pos rfl]
  split
  · rename_i heq
    cases hfound.symm.trans heq
    rfl
  · rename_i heq
    cases hfound.symm.trans heq

theorem tokenizeChars_closing (rest : List Char) :
    tokenizeChars ('}' :: rest) = closing :: tokenizeChars rest := by
  rw [tokenizeChars, if_neg (by decide), if_pos rfl]

end DocWeave.Comment.Token
