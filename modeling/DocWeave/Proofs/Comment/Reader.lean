import DocWeave.Proofs.Comment.Matching

/-!
# The reader matches braces

The reader keeps a frame for every opener that may become a node and counts the others. The
invariant `ReadUpTo` ties both to the matching: the openers that are open before the next token
are the counted ones, which are the nearest, and then those of the frames; an opener is counted
only while there are `maxNesting` frames. Between two frames stands what the tokens between their
openers read as.
-/

namespace DocWeave.Comment

variable {config : Config} {tokens : List Token} {i j p : Nat} {state : ReadState}

theorem tagNode_spec (config : Config) (name : String) (content : List DocNode) :
    TagNode config name (DocTree.joinTexts content) (tagNode config name content) := by
  unfold tagNode
  by_cases hl : config.isLinkTag name = true
  · rw [if_pos hl]
    exact .link hl
  · rw [if_neg hl]
    rw [Bool.not_eq_true] at hl
    by_cases hi : config.isIncludeTag name = true
    · rw [if_pos hi, ← DocTree.plainText_joinTexts]
      exact .inclusion hl hi
    · rw [if_neg hi]
      exact .container hl (by simpa using hi)

/-! ## Literal tokens -/

theorem not_tagAt_of_ne {token : Token} (h : tokens[i]? = some token)
    (hne : ∀ name, token ≠ .opening (.tag name)) (j : Nat) (name : String) :
    ¬ TagAt tokens i j name := by
  intro ht
  cases h.symm.trans ht.opens
  exact hne name rfl

theorem not_tagAt_of_deep (h : maxNesting ≤ (openBefore tokens i).length) (j : Nat)
    (name : String) : ¬ TagAt tokens i j name := by
  intro ht
  have := ht.shallow
  omega

/-- An opener that is open at the end is never closed. -/
theorem not_tagAt_of_open (h : i ∈ openBefore tokens tokens.length) (j : Nat) (name : String) :
    ¬ TagAt tokens i j name := by
  intro ht
  obtain ⟨hj, -⟩ := List.getElem?_eq_some_iff.1 ht.closes.1
  exact ht.closes.not_mem hj h

/-! ## Frames -/

/-- The frames belong to the openers at the given positions, the innermost first, and hold what
the tokens behind those openers read as, up to the next frame or to `p`. -/
def FramesAt (config : Config) (tokens : List Token) :
    List Nat → List Frame → List DocNode → Nat → Prop
  | [], [], outer, p => Reading config tokens 0 p outer.reverse
  | q :: qs, frame :: frames, outer, p =>
    tokens[q]? = some (.opening frame.opener) ∧ (openBefore tokens q).length < maxNesting ∧
      Reading config tokens (q + 1) p frame.latest.reverse ∧ FramesAt config tokens qs frames outer q
  | _, _, _, _ => False

theorem FramesAt.length_eq {qs : List Nat} {frames : List Frame} {outer : List DocNode}
    (h : FramesAt config tokens qs frames outer p) : qs.length = frames.length := by
  induction qs generalizing frames p with
  | nil =>
    cases frames with
    | nil => rfl
    | cons frame frames => exact h.elim
  | cons q qs ih =>
    cases frames with
    | nil => exact h.elim
    | cons frame frames =>
      obtain ⟨-, -, -, hrest⟩ := h
      rw [List.length_cons, List.length_cons, ih hrest]

/-- Nodes that are pushed are read after what the innermost frame holds. -/
theorem FramesAt.push (state : ReadState) {qs : List Nat} {nodes : List DocNode}
    (h : FramesAt config tokens qs state.frames state.outer p)
    (hnodes : Reading config tokens p j nodes) :
    FramesAt config tokens qs (state.push nodes).frames (state.push nodes).outer j := by
  obtain ⟨frames, outer, depth⟩ := state
  cases frames with
  | nil =>
    cases qs with
    | nil =>
      simp only [ReadState.push, FramesAt, List.reverse_append, List.reverse_reverse]
      exact h.append hnodes
    | cons q qs => exact h.elim
  | cons frame frames =>
    cases qs with
    | nil => exact h.elim
    | cons q qs =>
      obtain ⟨hopener, hshallow, hread, hrest⟩ := h
      simp only [ReadState.push, FramesAt, List.reverse_append, List.reverse_reverse]
      exact ⟨hopener, hshallow, hread.append hnodes, hrest⟩

/-- A frame that is closed becomes what the tokens from its opener to the brace read as. -/
theorem reading_close {q : Nat} {frame : Frame}
    (hopener : tokens[q]? = some (.opening frame.opener))
    (hshallow : (openBefore tokens q).length < maxNesting)
    (hread : Reading config tokens (q + 1) p frame.latest.reverse) (hclose : Closes tokens p q) :
    Reading config tokens q (p + 1) (frame.close config) := by
  obtain ⟨opener, latest⟩ := frame
  cases opener with
  | brace =>
    have hlast : Reading config tokens p (p + 1) [.text Token.closing.written] :=
      .single hclose.1 (not_tagAt_of_ne hclose.1 (by simp))
    exact .literal hopener (not_tagAt_of_ne hopener (by simp)) (hread.append hlast)
  | tag name =>
    exact .tag ⟨hopener, hclose, hshallow⟩ hread (DocTree.joined_joinTexts _)
      (tagNode_spec config name _) (.nil _)

/-- Frames that are never closed read as their openers, as text, and what they hold. -/
theorem FramesAt.reading_finish {qs : List Nat} {frames : List Frame} {outer : List DocNode}
    (h : FramesAt config tokens qs frames outer p)
    (hno : ∀ q ∈ qs, ∀ j name, ¬ TagAt tokens q j name) :
    Reading config tokens 0 p (outer.reverse ++ frames.reverse.flatMap Frame.giveUp) := by
  induction qs generalizing frames p with
  | nil =>
    cases frames with
    | nil => simpa [FramesAt] using h
    | cons frame frames => exact h.elim
  | cons q qs ih =>
    cases frames with
    | nil => exact h.elim
    | cons frame frames =>
      obtain ⟨hopener, -, hread, hrest⟩ := h
      rw [List.forall_mem_cons] at hno
      have houter := ih hrest hno.2
      have hframe : Reading config tokens q p frame.giveUp := .literal hopener hno.1 hread
      simpa using houter.append hframe

/-! ## Steps -/

/-- The state in which the reader has read the tokens before `p`. -/
structure ReadUpTo (config : Config) (tokens : List Token) (p : Nat) (state : ReadState)
    (counted framed : List Nat) : Prop where
  openers : openBefore tokens p = counted ++ framed
  depth : counted.length = state.literalDepth
  frames : FramesAt config tokens framed state.frames state.outer p
  bound : framed.length ≤ maxNesting
  full : counted ≠ [] → framed.length = maxNesting

namespace ReadUpTo

variable {counted framed : List Nat} {token : Token}

theorem start (config : Config) (tokens : List Token) : ReadUpTo config tokens 0 {} [] [] where
  openers := rfl
  depth := rfl
  frames := .nil 0
  bound := Nat.zero_le _
  full := fun h => (h rfl).elim

theorem length_frames (h : ReadUpTo config tokens p state counted framed) :
    state.frames.length = framed.length := h.frames.length_eq.symm

theorem literalDepth_push (nodes : List DocNode) (state : ReadState) :
    (state.push nodes).literalDepth = state.literalDepth := by
  unfold ReadState.push
  split <;> rfl

/-- A literal token is pushed; `counted'` are the counted openers after it. -/
theorem pushText (h : ReadUpTo config tokens p state counted framed)
    (htoken : tokens[p]? = some token) (hno : ∀ j name, ¬ TagAt tokens p j name)
    {counted' : List Nat} (hopen : openBefore tokens (p + 1) = counted' ++ framed)
    (hfull : counted' ≠ [] → framed.length = maxNesting) :
    ReadUpTo config tokens (p + 1)
      { state.pushText token.written with literalDepth := counted'.length } counted' framed where
  openers := hopen
  depth := rfl
  frames := h.frames.push state (.single htoken hno)
  bound := h.bound
  full := hfull

/-- A literal token that leaves the openers as they are only adds its text. -/
theorem step_literal (h : ReadUpTo config tokens p state counted framed)
    (htoken : tokens[p]? = some token) (hne : ∀ name, token ≠ .opening (.tag name))
    (hopen : openBefore tokens (p + 1) = openBefore tokens p) :
    ReadUpTo config tokens (p + 1) (state.pushText token.written) counted framed := by
  have hdepth : (state.pushText token.written).literalDepth = counted.length := by
    rw [ReadState.pushText, literalDepth_push, h.depth]
  have := h.pushText htoken (not_tagAt_of_ne htoken hne) (hopen.trans h.openers) h.full
  rwa [← hdepth] at this

/-- An opener is counted when others are, or when there are too many frames. -/
theorem step_counted {opener : Opener} (h : ReadUpTo config tokens p state counted framed)
    (htoken : tokens[p]? = some (.opening opener))
    (hdeep : state.literalDepth > 0 ∨ state.frames.length ≥ maxNesting) :
    ReadUpTo config tokens (p + 1)
      { state.pushText opener.written with literalDepth := state.literalDepth + 1 }
      (p :: counted) framed := by
  have hfull : framed.length = maxNesting := by
    rcases hdeep with hdeep | hdeep
    · refine h.full fun hnil => ?_
      rw [← h.depth, hnil] at hdeep
      exact Nat.lt_irrefl 0 hdeep
    · have := h.bound
      rw [h.length_frames] at hdeep
      omega
  have hlength : maxNesting ≤ (openBefore tokens p).length := by
    rw [h.openers, List.length_append, hfull]
    omega
  have hopen : openBefore tokens (p + 1) = (p :: counted) ++ framed := by
    rw [openBefore_opening htoken, h.openers, List.cons_append]
  rw [← h.depth]
  exact h.pushText htoken (not_tagAt_of_deep hlength) hopen fun _ => hfull

/-- Any other opener gets a frame. -/
theorem step_framed {opener : Opener} (h : ReadUpTo config tokens p state [] framed)
    (htoken : tokens[p]? = some (.opening opener)) (hlt : state.frames.length < maxNesting) :
    ReadUpTo config tokens (p + 1) { state with frames := { opener } :: state.frames }
      [] (p :: framed) where
  openers := by
    rw [openBefore_opening htoken, h.openers]
    rfl
  depth := h.depth
  frames := by
    refine ⟨htoken, ?_, .nil _, h.frames⟩
    rw [h.openers, List.nil_append, ← h.length_frames]
    exact hlt
  bound := by
    rw [List.length_cons, ← h.length_frames]
    exact hlt
  full := fun hne => (hne rfl).elim

/-- A brace closes the innermost frame when no opener is counted. -/
theorem step_close {q : Nat} {qs : List Nat} {frame : Frame} {rest : List Frame}
    (h : ReadUpTo config tokens p state [] (q :: qs)) (hframes : state.frames = frame :: rest)
    (htoken : tokens[p]? = some .closing) :
    ReadUpTo config tokens (p + 1)
      (({ state with frames := rest } : ReadState).push (frame.close config)) [] qs where
  openers := by
    rw [openBefore_closing htoken, h.openers]
    rfl
  depth := by
    rw [literalDepth_push]
    exact h.depth
  frames := by
    have hat := h.frames
    rw [hframes] at hat
    obtain ⟨hopener, hshallow, hread, hrest⟩ := hat
    have hclose : Closes tokens p q := ⟨htoken, by rw [h.openers]; rfl⟩
    exact FramesAt.push { state with frames := rest } hrest
      (reading_close hopener hshallow hread hclose)
  bound := by
    have := h.bound
    rw [List.length_cons] at this
    omega
  full := fun hne => (hne rfl).elim

/-- The brace of a counted opener is text, and one opener less is counted. -/
theorem step_uncount {c : Nat} {cs : List Nat}
    (h : ReadUpTo config tokens p state (c :: cs) framed) (htoken : tokens[p]? = some .closing) :
    ReadUpTo config tokens (p + 1)
      { state.pushText Token.closing.written with literalDepth := state.literalDepth - 1 }
      cs framed := by
  have hopen : openBefore tokens (p + 1) = cs ++ framed := by
    rw [openBefore_closing htoken, h.openers]
    rfl
  have hdepth : state.literalDepth - 1 = cs.length := by
    rw [← h.depth, List.length_cons, Nat.add_sub_cancel]
  rw [hdepth]
  exact h.pushText htoken (not_tagAt_of_ne htoken (by simp)) hopen fun _ => h.full (by simp)

/-- Reading one more token keeps the invariant. -/
theorem step (h : ReadUpTo config tokens p state counted framed) (htoken : tokens[p]? = some token) :
    ∃ counted' framed', ReadUpTo config tokens (p + 1) (state.step config token)
      counted' framed' := by
  cases token with
  | text body => exact ⟨_, _, h.step_literal htoken (by simp) (openBefore_text htoken)⟩
  | opening opener =>
    rw [ReadState.step]
    by_cases hdeep : state.literalDepth > 0 ∨ state.frames.length ≥ maxNesting
    · rw [if_pos (by simpa using hdeep)]
      exact ⟨_, _, h.step_counted htoken hdeep⟩
    · rw [if_neg (by simpa using hdeep)]
      have hnil : counted = [] := by
        rw [← List.length_eq_zero_iff, h.depth]
        omega
      subst hnil
      exact ⟨_, _, h.step_framed htoken (by omega)⟩
  | closing =>
    rw [ReadState.step]
    cases counted with
    | cons c cs =>
      have hdepth : state.literalDepth > 0 := by
        rw [← h.depth]
        exact Nat.succ_pos _
      rw [if_pos hdepth]
      exact ⟨_, _, h.step_uncount htoken⟩
    | nil =>
      have hdepth : ¬ state.literalDepth > 0 := by
        rw [← h.depth]
        exact Nat.lt_irrefl 0
      rw [if_neg hdepth]
      have hlength := h.length_frames
      cases hframes : state.frames with
      | nil =>
        rw [hframes] at hlength
        have hnil : framed = [] := List.length_eq_zero_iff.1 hlength.symm
        subst hnil
        refine ⟨_, _, h.step_literal htoken (by simp) ?_⟩
        rw [openBefore_closing htoken, h.openers]
        rfl
      | cons frame rest =>
        rw [hframes] at hlength
        cases framed with
        | nil => cases hlength
        | cons q qs => exact ⟨_, _, h.step_close hframes htoken⟩

/-- Reading the rest of the tokens keeps the invariant. -/
theorem foldl {rest : List Token} (hp : p ≤ tokens.length) (hrest : tokens.drop p = rest)
    (h : ReadUpTo config tokens p state counted framed) :
    ∃ counted' framed', ReadUpTo config tokens tokens.length
      (rest.foldl (ReadState.step config) state) counted' framed' := by
  induction rest generalizing p state counted framed with
  | nil =>
    have hle : tokens.length ≤ p := List.drop_eq_nil_iff.1 hrest
    cases Nat.le_antisymm hp hle
    exact ⟨counted, framed, h⟩
  | cons token rest ih =>
    obtain ⟨htoken, hbehind⟩ := of_drop_eq_cons hrest
    obtain ⟨hlt, -⟩ := List.getElem?_eq_some_iff.1 htoken
    obtain ⟨counted', framed', hstep⟩ := h.step htoken
    exact ih hlt hbehind hstep

/-- At the end of the tokens the nodes are what all tokens read as. -/
theorem finish (h : ReadUpTo config tokens tokens.length state counted framed) :
    Reading config tokens 0 tokens.length state.finish := by
  refine h.frames.reading_finish fun q hq => not_tagAt_of_open ?_
  rw [h.openers]
  exact List.mem_append_right _ hq

end ReadUpTo

theorem exists_reading_parseBody (config : Config) (body : String) :
    ∃ nodes, Reading config (Token.tokenize body) 0 (Token.tokenize body).length nodes ∧
      DocTree.Joined nodes (parseBody config body) := by
  obtain ⟨counted, framed, h⟩ :=
    (ReadUpTo.start config (Token.tokenize body)).foldl (Nat.zero_le _) rfl
  exact ⟨_, h.finish, DocTree.joined_joinTexts _⟩

/-- The tree of a comment is the one that the matching of its braces gives. -/
theorem parseBody_eq_iff_reading (config : Config) (body : String) (tree : DocTree) :
    parseBody config body = tree ↔
      ∃ nodes, Reading config (Token.tokenize body) 0 (Token.tokenize body).length nodes ∧
        DocTree.Joined nodes tree := by
  obtain ⟨nodes, hread, hjoined⟩ := exists_reading_parseBody config body
  constructor
  · rintro rfl
    exact ⟨nodes, hread, hjoined⟩
  · rintro ⟨nodes', hread', hjoined'⟩
    cases hread.unique hread'
    exact hjoined.unique hjoined'

end DocWeave.Comment
