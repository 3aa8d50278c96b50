import DocWeave.Proofs.Comment.Decoration
import DocWeave.Proofs.Comment.Shape
import DocWeave.Proofs.DocTree.NormalForm
import DocWeave.Proofs.Reference.Printing

/-!
# Link tags that are written

A link is written as a tag, a reference and a label with one space between them. Where the reference
ends is found by counting parentheses, without a look at what it refers to. The count is right for
each text whose blanks stand between parentheses that it closes itself (`Delimited`), and so for
each target with a member in whose list of types parentheses match, however blanks and line ends are
put into that list (`MatchedMember.delimited`). The reader of references then finds the target and
the member that were written (`IsTarget.parse_member`).
-/

namespace DocWeave.Comment

open Token (Braceless IsTagName textTokens)

variable {config : Config} {c : Char} {cs ds rest target name : List Char} {d : Nat}

/-- With `d` parentheses open in front of it, the text has blanks only where some are open. -/
def BlanksEnclosedFrom (d : Nat) (cs : List Char) : Prop :=
  ∀ before c after, cs = before ++ c :: after → Text.isBlank c = true →
    before.foldl parenDepth d ≠ 0

/-- A text that a link can have for its reference. -/
structure Delimited (cs : List Char) : Prop where
  ne_nil : cs ≠ []
  braceless : Braceless cs
  blanks : BlanksEnclosed cs
  closed : cs.foldl parenDepth 0 = 0

/-- The parentheses of a list of types match, so the one in front of the list stays open. -/
structure Enclosed (inner : List Char) : Prop where
  stays : ∀ before after, inner = before ++ after → before.foldl parenDepth 1 ≠ 0
  closed : inner.foldl parenDepth 1 = 1

/-- A target without anything that could end it. -/
structure IsTarget (target : List Char) : Prop where
  ne_nil : target ≠ []
  plain : ∀ c ∈ target, Text.isBlank c = false ∧ c ≠ '#' ∧ c ≠ '(' ∧ c ≠ ')'

/-- A member as it is written, with matching parentheses in its list of types. -/
inductive MatchedMember : List Char → Prop where
  | alone {name : List Char} : Text.Identifier.isIdentifier name = true → MatchedMember name
  | call {name inner : List Char} : Text.Identifier.isIdentifier name = true → Enclosed inner →
    MatchedMember (name ++ '(' :: inner ++ [')'])

/-- A link with the texts that it is written with. -/
structure LinkTag (config : Config) where
  name : String
  reference : String
  label : String
  isTagName : IsTagName name.toList
  isLinkTag : config.isLinkTag name = true
  delimited : Delimited reference.toList
  braceless : Braceless label.toList

/-- The node of a text, if there is any text. -/
def textNodes (body : String) : DocTree :=
  if body = "" then [] else [.text body]

namespace LinkTag

def content (link : LinkTag config) : List Char :=
  ' ' :: (link.reference.toList ++ ' ' :: link.label.toList)

def written (link : LinkTag config) : String :=
  "\x7b@" ++ link.name ++ " " ++ link.reference ++ " " ++ link.label ++ "\x7d"

def node (link : LinkTag config) : DocNode :=
  .link link.reference (textNodes (String.ofList (Text.dropBlanks link.label.toList)))

end LinkTag

/-! ## Parentheses -/

theorem blanksEnclosedFrom_cons_iff : BlanksEnclosedFrom d (c :: cs) ↔
    (Text.isBlank c = true → d ≠ 0) ∧ BlanksEnclosedFrom (parenDepth d c) cs := by
  constructor
  · intro h
    refine ⟨h [] c cs rfl, fun before x after hsplit hx => ?_⟩
    exact h (c :: before) x after (by rw [hsplit, List.cons_append]) hx
  · rintro ⟨hc, hcs⟩ before x after hsplit hx
    cases before with
    | nil =>
      obtain ⟨rfl, -⟩ := List.cons.inj hsplit
      exact hc hx
    | cons y before =>
      obtain ⟨rfl, htail⟩ := List.cons.inj hsplit
      exact hcs before x after htail hx

theorem BlanksEnclosedFrom.append (h : BlanksEnclosedFrom d cs)
    (h' : BlanksEnclosedFrom (cs.foldl parenDepth d) ds) : BlanksEnclosedFrom d (cs ++ ds) := by
  induction cs generalizing d with
  | nil => exact h'
  | cons c cs ih =>
    rw [blanksEnclosedFrom_cons_iff] at h
    exact blanksEnclosedFrom_cons_iff.2 ⟨h.1, ih h.2 h'⟩

theorem blanksEnclosedFrom_of_forall (h : ∀ c ∈ cs, Text.isBlank c = false) :
    BlanksEnclosedFrom d cs := by
  intro before c after hsplit hc
  rw [h c (by simp [hsplit])] at hc
  cases hc

theorem foldl_parenDepth_of_forall (h : ∀ c ∈ cs, c ≠ '(' ∧ c ≠ ')') :
    cs.foldl parenDepth d = d := by
  induction cs with
  | nil => rfl
  | cons c cs ih =>
    obtain ⟨hc, hcs⟩ := List.forall_mem_cons.1 h
    rw [List.foldl_cons, parenDepth, if_neg hc.1, if_neg hc.2, ih hcs]

/-- The reference ends in front of the blank that follows it. -/
theorem cutReference_of_blanksEnclosedFrom (h : BlanksEnclosedFrom d cs)
    (hclosed : cs.foldl parenDepth d = 0) (hc : Text.isBlank c = true) :
    cutReference d (cs ++ c :: rest) = (cs, c :: rest) := by
  induction cs generalizing d with
  | nil =>
    obtain rfl : d = 0 := hclosed
    simp [cutReference, hc]
  | cons x cs ih =>
    rw [blanksEnclosedFrom_cons_iff] at h
    have hx : ¬ (Text.isBlank x && d == 0) = true := by simpa using h.1
    rw [List.cons_append, cutReference, if_neg hx, ih h.2 hclosed]

theorem Enclosed.append (h : Enclosed cs) (h' : Enclosed ds) : Enclosed (cs ++ ds) where
  stays := by
    intro before after hsplit
    rcases List.append_eq_append_iff.1 hsplit with ⟨as, rfl, hds⟩ | ⟨bs, rfl, -⟩
    · rw [List.foldl_append, h.closed]
      exact h'.stays as after hds
    · exact h.stays before bs rfl
  closed := by rw [List.foldl_append, h.closed, h'.closed]

theorem enclosed_of_forall (h : ∀ c ∈ cs, c ≠ '(' ∧ c ≠ ')') : Enclosed cs where
  stays := by
    rintro before after rfl
    rw [foldl_parenDepth_of_forall fun c hc => h c (List.mem_append_left _ hc)]
    exact Nat.one_ne_zero
  closed := foldl_parenDepth_of_forall h

theorem enclosed_intercalate {pieces : List (List Char)} (h : ∀ piece ∈ pieces, Enclosed piece) :
    Enclosed ([','].intercalate pieces) := by
  induction pieces with
  | nil => exact enclosed_of_forall nofun
  | cons piece pieces ih =>
    obtain ⟨hpiece, hpieces⟩ := List.forall_mem_cons.1 h
    cases pieces with
    | nil => simpa using hpiece
    | cons second pieces =>
      rw [List.intercalate_cons_cons]
      exact (hpiece.append (enclosed_of_forall (by simp))).append (ih hpieces)

/-! ## References -/

/-- Up to the end of the name there are neither blanks nor parentheses. -/
theorem IsTarget.plain_append (ht : IsTarget target)
    (hname : Text.Identifier.isIdentifier name = true) :
    ∀ c ∈ target ++ '#' :: name, Text.isBlank c = false ∧ c ≠ '(' ∧ c ≠ ')' := by
  intro c hc
  rcases List.mem_append.1 hc with hc | hc
  · obtain ⟨hblank, -, hparens⟩ := ht.plain c hc
    exact ⟨hblank, hparens⟩
  · rcases List.mem_cons.1 hc with rfl | hc
    · decide
    · obtain ⟨hblank, -, hparens⟩ := Text.Identifier.plain_of_isIdentifier hname c hc
      exact ⟨hblank, hparens⟩

theorem MatchedMember.delimited (h : MatchedMember rest) (ht : IsTarget target)
    (hbraces : Braceless (target ++ '#' :: rest)) : Delimited (target ++ '#' :: rest) := by
  cases h with
  | alone hname =>
    have hplain := ht.plain_append hname
    exact ⟨by simp, hbraces, blanksEnclosedFrom_of_forall fun c hc => (hplain c hc).1,
      foldl_parenDepth_of_forall fun c hc => (hplain c hc).2⟩
  | @call name inner hname hinner =>
    have hplain := ht.plain_append hname
    have hsplit : target ++ '#' :: (name ++ '(' :: inner ++ [')']) =
        target ++ '#' :: name ++ ['('] ++ inner ++ [')'] := by simp
    -- in front of the list no parenthesis is open, in the list at least one
    have hfront : (target ++ '#' :: name).foldl parenDepth 0 = 0 :=
      foldl_parenDepth_of_forall fun c hc => (hplain c hc).2
    have hopen : (target ++ '#' :: name ++ ['(']).foldl parenDepth 0 = 1 := by
      rw [List.foldl_append, hfront]
      rfl
    have hlist : (target ++ '#' :: name ++ ['('] ++ inner).foldl parenDepth 0 = 1 := by
      rw [List.foldl_append, hopen, hinner.closed]
    refine ⟨by simp, hbraces, ?_, ?_⟩
    · have hbefore : BlanksEnclosedFrom 0 (target ++ '#' :: name) :=
        blanksEnclosedFrom_of_forall fun c hc => (hplain c hc).1
      have hparen : ∀ d, BlanksEnclosedFrom d ['('] ∧ BlanksEnclosedFrom d [')'] := fun d =>
        ⟨blanksEnclosedFrom_of_forall (List.forall_mem_singleton.2 (by decide)),
          blanksEnclosedFrom_of_forall (List.forall_mem_singleton.2 (by decide))⟩
      have hinside : BlanksEnclosedFrom 1 inner := fun before c after hinner' _ =>
        hinner.stays before (c :: after) hinner'
      rw [hsplit]
      refine ((hbefore.append (hparen _).1).append ?_).append (hparen _).2
      rwa [hopen]
    · rw [hsplit, List.foldl_append, hlist]
      rfl

theorem IsTarget.parse_member (ht : IsTarget target) {m : MemberRef} (h : MemberText rest m) :
    Reference.parse (String.ofList (target ++ '#' :: rest)) =
      .ok { target := String.ofList target, member? := some m } := by
  have htrimmed : Text.Trimmed target := Text.trimmed_of_forall fun c hc => (ht.plain c hc).1
  refine Reference.parse_of_memberText htrimmed ht.ne_nil h fun b b' m' hsplit => ?_
  exact ((ht.plain '#' (by simp [hsplit])).2.1 rfl).elim

theorem matchedMember_chars {m : MemberRef} (h : m.Plain)
    (hparams : ∀ params, m.params? = some params → ∀ param ∈ params, Enclosed param.toList) :
    MatchedMember m.chars := by
  obtain ⟨name, params?⟩ := m
  cases params? with
  | none => exact .alone h.name
  | some params =>
    refine .call h.name (enclosed_intercalate fun piece hpiece => ?_)
    obtain ⟨param, hparam, rfl⟩ := List.mem_map.1 hpiece
    exact hparams params rfl param hparam

/-! ## Tags -/

namespace LinkTag

theorem toList_written (link : LinkTag config) :
    link.written.toList = '{' :: '@' :: (link.name.toList ++ (link.content ++ ['}'])) := by
  simp [written, content]

theorem braceless_content (link : LinkTag config) : Braceless link.content := by
  intro c hc
  simp only [content, List.mem_cons, List.mem_append] at hc
  rcases hc with rfl | hc | rfl | hc
  · decide
  · exact link.delimited.braceless c hc
  · decide
  · exact link.braceless c hc

theorem tagNode_content (link : LinkTag config) :
    tagNode config link.name [.text (String.ofList link.content)] = link.node := by
  obtain ⟨c, cs, hcs⟩ := List.exists_cons_of_ne_nil link.delimited.ne_nil
  have hc : ¬ Text.isBlank c = true := by
    intro hc
    exact link.delimited.blanks [] c cs hcs hc rfl
  have hstart : Text.dropBlanks link.content =
      link.reference.toList ++ ' ' :: link.label.toList := by
    rw [content, Text.dropBlanks, List.dropWhile_cons_of_pos (by decide), hcs, List.cons_append,
      List.dropWhile_cons_of_neg hc]
  have hcut : cutReference 0 (Text.dropBlanks link.content) =
      (link.reference.toList, ' ' :: link.label.toList) := by
    rw [hstart]
    exact cutReference_of_blanksEnclosedFrom link.delimited.blanks link.delimited.closed
      (by decide)
  have hlabel : Text.dropBlanks (' ' :: link.label.toList) = Text.dropBlanks link.label.toList :=
    List.dropWhile_cons_of_pos (by decide)
  rw [tagNode, if_pos link.isLinkTag]
  simp only [DocTree.joinTexts, List.foldr_cons, List.foldr_nil, DocTree.consJoined,
    splitReference, String.toList_ofList, hcut, hlabel, node, textNodes, String.ofList_toList]
  by_cases hempty : Text.dropBlanks link.label.toList = [] <;> simp [hempty]

/-- The tokens of a text with one tag in it. -/
theorem tokenize_written (link : LinkTag config) {before after : String}
    (hbefore : Braceless before.toList) (hafter : Braceless after.toList) :
    Token.tokenize (before ++ link.written ++ after) = textTokens before.toList ++
      [.opening (.tag link.name), .text (String.ofList link.content), .closing] ++
        textTokens after.toList := by
  have htag : ∀ c ∈ (link.content ++ '}' :: after.toList).head?, Token.isTagPart c = false := by
    intro c hc
    obtain rfl : ' ' = c := Option.some.inj hc
    decide
  have hopen : ∀ rest : List Char, ∀ c ∈ ('{' :: rest).head?, Token.isTextChar c = false := by
    simp [Token.isTextChar]
  have hclose : ∀ rest : List Char, ∀ c ∈ ('}' :: rest).head?, Token.isTextChar c = false := by
    simp [Token.isTextChar]
  have hcontent : textTokens link.content = [.text (String.ofList link.content)] :=
    if_neg (List.cons_ne_nil _ _)
  have hend : Token.tokenizeChars (after.toList ++ []) =
      textTokens after.toList ++ Token.tokenizeChars [] :=
    Token.tokenizeChars_append hafter (by simp)
  rw [List.append_nil, Token.tokenizeChars, List.append_nil] at hend
  have hchars : (before ++ link.written ++ after).toList = before.toList ++
      '{' :: '@' :: (link.name.toList ++ (link.content ++ '}' :: after.toList)) := by
    simp [toList_written]
  rw [Token.tokenize, hchars, Token.tokenizeChars_append hbefore (hopen _),
    Token.tokenizeChars_tag link.isTagName htag,
    Token.tokenizeChars_append link.braceless_content (hclose _), hcontent,
    Token.tokenizeChars_closing, hend, String.ofList_toList, List.append_assoc]
  rfl

end LinkTag

/-! ## Reading -/

theorem ReadState.push_nil (state : ReadState) : state.push [] = state := by
  obtain ⟨frames, outer, literalDepth⟩ := state
  cases frames <;> rfl

/-- A text without braces is one more node, if there is any text. -/
theorem foldl_textTokens (state : ReadState) (body : String) :
    (textTokens body.toList).foldl (ReadState.step config) state = state.push (textNodes body) := by
  by_cases hbody : body = ""
  · simp [textTokens, textNodes, hbody, ReadState.push_nil]
  · simp [textTokens, textNodes, hbody, ReadState.step, ReadState.pushText]

/-- A link between two texts has no neighbours to be joined with. -/
theorem joinTexts_link (before after : String) (signature : String) (label : DocTree) :
    DocTree.joinTexts (textNodes before ++ .link signature label :: textNodes after) =
      textNodes before ++ .link signature label :: textNodes after := by
  refine DocTree.joinTexts_of_parted ?_
  unfold textNodes
  split <;> split <;> simp [DocTree.Parted, DocTree.StartsText]

/-- A tag with a text in it is one more node, unless too many openers are open. -/
theorem foldl_tag (state : ReadState) (hliteral : state.literalDepth = 0)
    (hframes : state.frames.length < maxNesting) (name body : String) :
    [Token.opening (.tag name), .text body, .closing].foldl (ReadState.step config) state =
      state.push [tagNode config name [.text body]] := by
  obtain ⟨frames, outer, literalDepth⟩ := state
  obtain rfl : literalDepth = 0 := hliteral
  have hopen : ¬ maxNesting ≤ frames.length := Nat.not_le_of_lt hframes
  simp [ReadState.step, ReadState.pushText, ReadState.push, Frame.close, hopen]

theorem LinkTag.parseBody_written (link : LinkTag config) {before after : String}
    (hbefore : Braceless before.toList) (hafter : Braceless after.toList) :
    parseBody config (before ++ link.written ++ after) =
      textNodes before ++ link.node :: textNodes after := by
  let front : ReadState := ({} : ReadState).push (textNodes before)
  have htag : [Token.opening (.tag link.name), .text (String.ofList link.content),
      .closing].foldl (ReadState.step config) front = front.push [link.node] := by
    rw [foldl_tag front rfl (show 0 < maxNesting by decide), link.tagNode_content]
  have hread : (Token.tokenize (before ++ link.written ++ after)).foldl (ReadState.step config) {} =
      (front.push [link.node]).push (textNodes after) := by
    rw [link.tokenize_written hbefore hafter, List.foldl_append, List.foldl_append,
      foldl_textTokens, foldl_textTokens, htag]
  have hfinish : ((front.push [link.node]).push (textNodes after)).finish =
      textNodes before ++ link.node :: textNodes after := by
    simp [front, ReadState.push, ReadState.finish]
  rw [parseBody, hread, hfinish]
  exact joinTexts_link before after _ _

/-- A link tag that stands between texts without braces is read as the link that it was written
for, with its reference character for character and its label without the blanks in front. A target
with a member is read as these two. It can be the reference of a link if the parentheses in its list
of types match, and so can each reference to a member that is printed. -/
theorem parse_linkTag (config : Config) :
    (∀ (link : LinkTag config) (before after : String), Braceless before.toList →
      Braceless after.toList →
      ¬ ['/', '*', '*'] <+: Text.trimChars (before ++ link.written ++ after).toList →
      parse config (before ++ link.written ++ after) =
        textNodes before ++ link.node :: textNodes after) ∧
    (∀ target rest m, IsTarget target → MemberText rest m →
      Reference.parse (String.ofList (target ++ '#' :: rest)) =
        .ok { target := String.ofList target, member? := some m }) ∧
    (∀ target rest, IsTarget target → MatchedMember rest → Braceless (target ++ '#' :: rest) →
      Delimited (target ++ '#' :: rest)) ∧
    ∀ target (m : MemberRef), IsTarget target → m.Plain →
      (∀ params, m.params? = some params → ∀ param ∈ params, Enclosed param.toList) →
      Braceless (target ++ '#' :: m.chars) →
      let r : Reference := { target := String.ofList target, member? := some m }
      Delimited r.print.toList ∧ Reference.parse r.print = .ok r := by
  refine ⟨fun link before after hbefore hafter hraw => ?_,
    fun target rest m ht h => ht.parse_member h,
    fun target rest ht h hbraces => h.delimited ht hbraces,
    fun target m ht h hparams hbraces => ?_⟩
  · rw [parse, undecorate_of_not_prefix hraw]
    exact link.parseBody_written hbefore hafter
  · intro r
    have hchars : r.print.toList = target ++ '#' :: m.chars := by
      rw [Reference.toList_print, String.toList_ofList]
    rw [hchars, ← String.ofList_toList (s := r.print), hchars]
    exact ⟨(matchedMember_chars h hparams).delimited ht hbraces, ht.parse_member h.memberText⟩

/-- A link whose list of types has blanks and a line end in it. -/
def spacedLink : LinkTag {} where
  name := "link"
  reference := "a.B#m( int ,\n String )"
  label := "  the   label"
  isTagName := by decide +kernel
  isLinkTag := by decide +kernel
  delimited := by
    have hsplit : "a.B#m( int ,\n String )".toList =
        "a.B".toList ++ '#' :: ("m".toList ++ '(' :: " int ,\n String ".toList ++ [')']) := by
      decide
    have hname : Text.Identifier.isIdentifier "m".toList = true := by decide +kernel
    have hinner : Enclosed " int ,\n String ".toList := enclosed_of_forall (by simp)
    have ht : IsTarget "a.B".toList := ⟨by simp, by simp [Text.isBlank]⟩
    rw [hsplit]
    exact (MatchedMember.call hname hinner).delimited ht (by decide +kernel)
  braceless := by decide +kernel

theorem parse_linkTag_spaced :
    parse {} ("See " ++ spacedLink.written ++ ".") =
        [.text "See ", .link "a.B#m( int ,\n String )" [.text "the   label"], .text "."] ∧
      Reference.parse (String.ofList ("a.B".toList ++ '#' :: "m( int ,\n String )".toList)) =
        .ok ⟨String.ofList "a.B".toList, some ⟨"m", some ["int", "String"]⟩⟩ ∧
      Delimited ("a.B".toList ++ '#' :: "m".toList) ∧
      Delimited (Reference.print
        ⟨String.ofList "a.B".toList, some ⟨"m", some ["int", "a.B"]⟩⟩).toList := by
  obtain ⟨hlink, hread, hmatched, hprinted⟩ := parse_linkTag {}
  have ht : IsTarget "a.B".toList := ⟨by simp, by simp [Text.isBlank]⟩
  have hname : Text.Identifier.isIdentifier "m".toList = true := by decide +kernel
  have htext : MemberText "m( int ,\n String )".toList ⟨"m", some ["int", "String"]⟩ :=
    MemberRef.parse?_eq_some_iff.1 (by decide +kernel)
  have hplain : MemberRef.Plain ⟨"m", some ["int", "a.B"]⟩ := by
    refine ⟨hname, fun params hparams => ?_⟩
    cases hparams
    decide +kernel
  have henclosed : ∀ params, some ["int", "a.B"] = some params →
      ∀ param ∈ params, Enclosed param.toList := by
    intro params hparams param hparam
    cases hparams
    rcases List.mem_pair.1 hparam with rfl | rfl <;> exact enclosed_of_forall (by simp)
  exact ⟨hlink spacedLink "See " "." (by decide +kernel) (by decide +kernel) (by decide +kernel),
    hread _ _ _ ht htext, hmatched _ _ ht (.alone hname) (by decide +kernel),
    (hprinted _ _ ht hplain henclosed (by decide +kernel)).1⟩

end DocWeave.Comment
