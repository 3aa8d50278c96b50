import DocWeave.Proofs.Comment.Reader
import DocWeave.Proofs.Comment.Tokens
import DocWeave.Proofs.DocTree.FullText
import DocWeave.Proofs.Text.Trim

/-!
# Nothing of a comment is lost

The full text of a tree is the text of the comment without the openers and the closing braces of the
tags that became nodes. Only blanks can be missing: around the target of an inclusion, and around
the reference of a link. This holds for any stretch of tokens between whose ends no tag of the
outside is closed (`Reading.fullText_eq`), and so it holds inside each tag as well, because tags are
nested.
-/

namespace DocWeave.Comment

variable {config : Config} {tokens : List Token} {i j k p q : Nat} {name : String}
  {nodes : List DocNode}

/-- The token at `p` opens or closes a tag that becomes a node. -/
def Delimits (tokens : List Token) (p : Nat) : Prop :=
  ∃ i j name, TagAt tokens i j name ∧ (p = i ∨ p = j)

/-- The name of the tag that the token at `i` opens. -/
def tagNameAt? (tokens : List Token) (i : Nat) : Option String :=
  match tokens[i]? with
  | some (.opening (.tag name)) => some name
  | _ => none

instance (tokens : List Token) (i j : Nat) (name : String) : Decidable (TagAt tokens i j name) :=
  have : Decidable (Closes tokens j i) := inferInstanceAs (Decidable (_ ∧ _))
  decidable_of_iff (tokens[i]? = some (.opening (.tag name)) ∧ Closes tokens j i ∧
    (openBefore tokens i).length < maxNesting)
    ⟨fun ⟨hopens, hcloses, hshallow⟩ => ⟨hopens, hcloses, hshallow⟩,
      fun h => ⟨h.opens, h.closes, h.shallow⟩⟩

theorem TagAt.bounds (h : TagAt tokens i j name) :
    i < tokens.length ∧ j < tokens.length ∧ name ∈ tagNameAt? tokens i := by
  refine ⟨(List.getElem?_eq_some_iff.1 h.opens).1, (List.getElem?_eq_some_iff.1 h.closes.1).1, ?_⟩
  rw [tagNameAt?, h.opens]
  rfl

theorem delimits_iff : Delimits tokens p ↔ ∃ i < tokens.length, ∃ j < tokens.length,
    ∃ name ∈ tagNameAt? tokens i, TagAt tokens i j name ∧ (p = i ∨ p = j) := by
  constructor
  · rintro ⟨i, j, name, h, hp⟩
    obtain ⟨hi, hj, hname⟩ := h.bounds
    exact ⟨i, hi, j, hj, name, hname, h, hp⟩
  · rintro ⟨i, -, j, -, name, -, h, hp⟩
    exact ⟨i, j, name, h, hp⟩

instance (tokens : List Token) : DecidablePred (Delimits tokens) :=
  fun _ => decidable_of_iff _ delimits_iff.symm

/-- The tokens from `i` up to `k` that delimit no node. -/
def undelimited (tokens : List Token) (i k : Nat) : List Token :=
  ((List.range' i (k - i)).filter (¬ Delimits tokens ·)).filterMap (tokens[·]?)

theorem undelimited_self (tokens : List Token) (i : Nat) : undelimited tokens i i = [] := by
  rw [undelimited, Nat.sub_self]
  rfl

theorem undelimited_append (hij : i ≤ j) (hjk : j ≤ k) :
    undelimited tokens i k = undelimited tokens i j ++ undelimited tokens j k := by
  have hrange : List.range' i (j - i) ++ List.range' (i + (j - i)) (k - j) =
      List.range' i (j - i + (k - j)) := List.range'_append_1
  rw [Nat.add_sub_cancel' hij, show j - i + (k - j) = k - i by omega] at hrange
  rw [undelimited, ← hrange, List.filter_append, List.filterMap_append, undelimited, undelimited]

theorem undelimited_of_delimits (h : Delimits tokens i) : undelimited tokens i (i + 1) = [] := by
  simp [undelimited, h]

theorem undelimited_of_not_delimits {token : Token} (h : ¬ Delimits tokens i)
    (htoken : tokens[i]? = some token) : undelimited tokens i (i + 1) = [token] := by
  simp [undelimited, h, htoken]

/-! ## Nested tags -/

/-- An opener stays open until it is closed. -/
theorem Closes.mem_openBefore (h : Closes tokens j i) (hip : i < p) (hpj : p ≤ j) :
    i ∈ openBefore tokens p := by
  by_contra hnot
  -- Once it is closed it is never open again, since only the token `i` itself opens it.
  have hlater : ∀ m, p ≤ m → i ∉ openBefore tokens m := by
    intro m hm
    induction hm with
    | refl => exact hnot
    | @step m hm ih =>
      intro hmem
      rcases mem_openBefore_succ hmem with rfl | hmem
      · have hlt : p ≤ i := hm
        omega
      · exact ih hmem
  exact hlater j hpj h.mem

/-- A brace closes the latest of the open openers. -/
theorem Closes.le_of_mem (h : Closes tokens j i) (hp : p ∈ openBefore tokens j) : p ≤ i := by
  obtain ⟨rest, hrest⟩ := List.head?_eq_some_iff.1 h.2
  have hpair := pairwise_openBefore tokens j
  rw [hrest, List.pairwise_cons] at hpair
  rw [hrest] at hp
  rcases List.mem_cons.1 hp with rfl | hp
  · exact Nat.le_refl p
  · exact Nat.le_of_lt (hpair.1 p hp)

/-- A tag that is closed inside another one is opened inside it. -/
theorem TagAt.lt_of_lt {name' : String} (h : TagAt tokens i j name) (h' : TagAt tokens q p name')
    (hip : i < p) (hpj : p < j) : i < q := by
  have hle : i ≤ q := h'.closes.le_of_mem (h.closes.mem_openBefore hip (Nat.le_of_lt hpj))
  have hne : i ≠ q := by
    rintro rfl
    have := h.closes.unique h'.closes
    omega
  omega

/-- A tag that is closed after another one is opened before or after it. -/
theorem TagAt.lt_or_lt {name' : String} (h : TagAt tokens i j name) (h' : TagAt tokens q p name')
    (hjp : j < p) : q < i ∨ j < q := by
  by_contra hinside
  have hqj : q ≠ j := by
    rintro rfl
    cases h.closes.1.symm.trans h'.opens
  have hqi : q ≠ i := by
    rintro rfl
    have := h.closes.unique h'.closes
    omega
  have hmem : q ∈ openBefore tokens j := h'.closes.mem_openBefore (by omega) (by omega)
  have := h.closes.le_of_mem hmem
  omega

/-! ## The text of a reading -/

/-- No tag that is opened before `i` is closed between `i` and `k`. -/
def Apart (tokens : List Token) (i k : Nat) : Prop :=
  ∀ q p name, TagAt tokens q p name → i ≤ p → p < k → i ≤ q

theorem TagAt.apart_inside (h : TagAt tokens i j name) : Apart tokens (i + 1) j :=
  fun _ _ _ h' hip hpj => h.lt_of_lt h' hip hpj

theorem TagAt.apart_behind (h : TagAt tokens i j name) (hapart : Apart tokens i k) :
    Apart tokens (j + 1) k := by
  intro q p name' h' hjp hpk
  have hij := h.closes.lt
  have hiq := hapart q p name' h' (by omega) hpk
  rcases h.lt_or_lt h' hjp with hlt | hlt
  · omega
  · exact hlt

theorem Apart.succ (hapart : Apart tokens i k) (hno : ∀ j name, ¬ TagAt tokens i j name) :
    Apart tokens (i + 1) k := by
  intro q p name h hip hpk
  have hiq := hapart q p name h (by omega) hpk
  have hne : q ≠ i := by
    rintro rfl
    exact hno p name h
  omega

theorem Apart.not_delimits (hapart : Apart tokens i k) (hik : i < k)
    (hno : ∀ j name, ¬ TagAt tokens i j name) : ¬ Delimits tokens i := by
  rintro ⟨q, p, name, h, rfl | rfl⟩
  · exact hno p name h
  · have hiq := hapart q i name h (Nat.le_refl i) hik
    have hlt := h.closes.lt
    omega

/-- A node has the same text as its content, apart from the characters that are not kept. -/
def KeepsContent (config : Config) (keep : Char → Bool) (tokens : List Token) (i k : Nat) : Prop :=
  ∀ q p name content node, i ≤ q → p < k → TagAt tokens q p name →
    Reading config tokens (q + 1) p content → TagNode config name (DocTree.joinTexts content) node →
    node.fullText.toList.filter keep = (DocTree.fullText content).toList.filter keep

/-- The text of a reading is that of its tokens without what delimits a node. -/
theorem Reading.fullText_eq {keep : Char → Bool} (h : Reading config tokens i k nodes)
    (hapart : Apart tokens i k) (hnodes : KeepsContent config keep tokens i k) :
    (DocTree.fullText nodes).toList.filter keep =
      (Token.writtenAll (undelimited tokens i k)).toList.filter keep := by
  induction h with
  | nil i =>
    rw [undelimited_self]
    rfl
  | @tag i j k name content rest joined node ht hcontent hjoined hnode hrest ihcontent ihrest =>
    have hij := ht.closes.lt
    have hjk := hrest.le
    have hopener : Delimits tokens i := ⟨i, j, name, ht, .inl rfl⟩
    have hcloser : Delimits tokens j := ⟨i, j, name, ht, .inr rfl⟩
    have hsplit : undelimited tokens i k =
        undelimited tokens (i + 1) j ++ undelimited tokens (j + 1) k := by
      rw [undelimited_append (Nat.le_succ i) (by omega : i + 1 ≤ k),
        undelimited_of_delimits hopener, List.nil_append,
        undelimited_append (by omega : i + 1 ≤ j) (by omega : j ≤ k),
        undelimited_append (Nat.le_succ j) hjk, undelimited_of_delimits hcloser, List.nil_append]
    have hinside : KeepsContent config keep tokens (i + 1) j :=
      fun q p name content node hiq hpj => hnodes q p name content node (by omega) (by omega)
    have hbehind : KeepsContent config keep tokens (j + 1) k :=
      fun q p name content node hjq hpk => hnodes q p name content node (by omega) hpk
    rw [← DocTree.joined_iff.1 hjoined] at hnode
    -- The stretch is the opener, the content, the closer and what follows; two of them delimit.
    rw [DocTree.fullText, hsplit, Token.writtenAll_append, String.toList_append,
      String.toList_append, List.filter_append, List.filter_append,
      hnodes i j name content node (Nat.le_refl i) (by omega) ht hcontent hnode,
      ihcontent ht.apart_inside hinside, ihrest (ht.apart_behind hapart) hbehind]
  | @literal i k token rest htoken hno hrest ih =>
    have hik : i < k := hrest.le
    have hbehind : KeepsContent config keep tokens (i + 1) k :=
      fun q p name content node hiq hpk => hnodes q p name content node (by omega) hpk
    rw [undelimited_append (Nat.le_succ i) hik,
      undelimited_of_not_delimits (hapart.not_delimits hik hno) htoken, Token.writtenAll_append,
      DocTree.fullText, String.toList_append, String.toList_append, List.filter_append,
      List.filter_append, ih (hapart.succ hno) hbehind, Token.writtenAll_cons, Token.writtenAll_nil,
      String.append_empty, DocNode.fullText]

/-! ## Links and inclusions -/

/-- The node of the tag is a group, neither a link nor an inclusion. -/
def IsGroupTag (config : Config) (name : String) : Prop :=
  config.isLinkTag name = false ∧ config.isIncludeTag name = false

/-- All tags that are opened from `i` on and before `k` are group tags. -/
def GroupsOnly (config : Config) (tokens : List Token) (i k : Nat) : Prop :=
  ∀ q p name, TagAt tokens q p name → i ≤ q → q < k → IsGroupTag config name

/-- There are only texts and groups if all tags are group tags. -/
theorem Reading.isProse_iff (h : Reading config tokens i k nodes) :
    DocTree.isProse nodes = true ↔ GroupsOnly config tokens i k := by
  induction h with
  | nil i =>
    simp only [DocTree.isProse, true_iff]
    intro q p name h hiq hqi
    omega
  | @tag i j k name content rest joined node ht hcontent hjoined hnode hrest ihcontent ihrest =>
    have hij := ht.closes.lt
    have hjk := hrest.le
    have hgroup : node.isProse = true ↔
        IsGroupTag config name ∧ DocTree.isProse content = true := by
      rw [← DocTree.joined_iff.1 hjoined] at hnode
      cases hnode with
      | link hlink => simp [DocNode.isProse, IsGroupTag, hlink]
      | inclusion hlink hinclude => simp [DocNode.isProse, IsGroupTag, hinclude]
      | container hlink hinclude =>
        simp [DocNode.isProse, IsGroupTag, hlink, hinclude, DocTree.isProse_joinTexts]
    rw [DocTree.isProse, Bool.and_eq_true, hgroup, ihcontent, ihrest]
    constructor
    · rintro ⟨⟨hname, hinside⟩, hbehind⟩ q p name' h hiq hqk
      rcases Nat.lt_trichotomy q j with hqj | rfl | hjq
      · rcases Nat.eq_or_lt_of_le hiq with rfl | hlt
        · cases ht.opens.symm.trans h.opens
          exact hname
        · exact hinside q p name' h hlt hqj
      · cases ht.closes.1.symm.trans h.opens
      · exact hbehind q p name' h hjq hqk
    · intro hall
      exact ⟨⟨hall i j name ht (Nat.le_refl i) (by omega),
        fun q p name' h hiq hqj => hall q p name' h (by omega) (by omega)⟩,
        fun q p name' h hjq hqk => hall q p name' h (by omega) hqk⟩
  | @literal i k token rest htoken hno hrest ih =>
    rw [DocTree.isProse, DocNode.isProse, Bool.true_and, ih]
    constructor
    · intro hall q p name h hiq hqk
      have hne : i ≠ q := by
        rintro rfl
        exact hno p name h
      exact hall q p name h (by omega) hqk
    · exact fun hall q p name h hiq hqk => hall q p name h (by omega) hqk

theorem cutReference_append (depth : Nat) (cs : List Char) :
    (cutReference depth cs).1 ++ (cutReference depth cs).2 = cs := by
  induction cs generalizing depth with
  | nil => rfl
  | cons c cs ih =>
    rw [cutReference]
    split
    · rfl
    · rw [List.cons_append, ih]

/-- The signature and the label of a link are its content, apart from blanks. -/
theorem nonBlanks_splitReference (content : DocTree) :
    Text.nonBlanks ((splitReference content).1 ++
        DocTree.fullText (splitReference content).2).toList =
      Text.nonBlanks (DocTree.fullText content).toList := by
  unfold splitReference
  split
  · rename_i first rest
    have hcut := cutReference_append 0 (Text.dropBlanks first.toList)
    generalize cutReference 0 (Text.dropBlanks first.toList) = cut at hcut ⊢
    have hlabel : (DocTree.fullText (if (Text.dropBlanks cut.2).isEmpty then rest
        else .text (String.ofList (Text.dropBlanks cut.2)) :: rest)).toList =
        Text.dropBlanks cut.2 ++ (DocTree.fullText rest).toList := by
      split
      · rename_i hempty
        rw [List.isEmpty_iff.1 hempty, List.nil_append]
      · simp [DocTree.fullText, DocNode.fullText]
    simp only [String.toList_append, String.toList_ofList, hlabel, DocTree.fullText,
      DocNode.fullText, Text.nonBlanks_append, Text.nonBlanks_dropBlanks]
    rw [← Text.nonBlanks_dropBlanks first.toList, ← hcut, Text.nonBlanks_append, List.append_assoc]
  · rw [String.empty_append]

/-- No inclusion tag encloses a link tag or another inclusion tag. -/
def InclusionsApart (config : Config) (tokens : List Token) : Prop :=
  ∀ i j name, TagAt tokens i j name → config.isLinkTag name = false →
    config.isIncludeTag name = true → GroupsOnly config tokens (i + 1) j

theorem groupsOnly_iff : GroupsOnly config tokens i k ↔
    ∀ q < tokens.length, ∀ p < tokens.length, ∀ name ∈ tagNameAt? tokens q,
      TagAt tokens q p name → i ≤ q → q < k → IsGroupTag config name := by
  constructor
  · exact fun h q _ p _ name _ => h q p name
  · intro h q p name ht
    obtain ⟨hq, hp, hname⟩ := ht.bounds
    exact h q hq p hp name hname ht

theorem inclusionsApart_iff : InclusionsApart config tokens ↔
    ∀ i < tokens.length, ∀ j < tokens.length, ∀ name ∈ tagNameAt? tokens i,
      TagAt tokens i j name → config.isLinkTag name = false → config.isIncludeTag name = true →
        GroupsOnly config tokens (i + 1) j := by
  constructor
  · exact fun h i _ j _ name _ => h i j name
  · intro h i j name ht
    obtain ⟨hi, hj, hname⟩ := ht.bounds
    exact h i hi j hj name hname ht

instance (config : Config) (name : String) : Decidable (IsGroupTag config name) :=
  inferInstanceAs (Decidable (_ ∧ _))

instance (config : Config) (tokens : List Token) (i k : Nat) :
    Decidable (GroupsOnly config tokens i k) :=
  decidable_of_iff _ groupsOnly_iff.symm

instance (config : Config) (tokens : List Token) : Decidable (InclusionsApart config tokens) :=
  decidable_of_iff _ inclusionsApart_iff.symm

theorem keepsContent_nonBlank (h : InclusionsApart config tokens) :
    KeepsContent config (!Text.isBlank ·) tokens i k := by
  intro q p name content node _ _ ht hcontent hnode
  cases hnode with
  | link =>
    rw [DocNode.fullText, ← DocTree.fullText_joinTexts content]
    exact nonBlanks_splitReference _
  | inclusion hlink hinclude =>
    -- The target is the plain text of the content, which leaves links and inclusions out.
    have hprose : DocTree.isProse content = true :=
      hcontent.isProse_iff.2 (h q p name ht hlink hinclude)
    rw [DocNode.fullText, DocTree.plainText_joinTexts, DocTree.plainText_of_isProse hprose,
      Text.trim, String.toList_ofList]
    exact Text.nonBlanks_trimChars _
  | container => rw [DocNode.fullText, DocTree.fullText_joinTexts]

theorem keepsContent_all (h : GroupsOnly config tokens i k) :
    KeepsContent config (fun _ => true) tokens i k := by
  intro q p name content node hiq hpk ht _ hnode
  have hqp := ht.closes.lt
  obtain ⟨hlink, hinclude⟩ := h q p name ht hiq (by omega)
  cases hnode with
  | link hlink' => cases hlink.symm.trans hlink'
  | inclusion _ hinclude' => cases hinclude.symm.trans hinclude'
  | container => rw [DocNode.fullText, DocTree.fullText_joinTexts]

/-! ## Comments without tags -/

theorem undelimited_eq_drop (h : ∀ p, ¬ Delimits tokens p) (hi : i ≤ tokens.length) :
    undelimited tokens i tokens.length = tokens.drop i := by
  induction hrest : tokens.drop i generalizing i with
  | nil =>
    have hle : tokens.length ≤ i := List.drop_eq_nil_iff.1 hrest
    cases Nat.le_antisymm hi hle
    exact undelimited_self tokens tokens.length
  | cons token rest ih =>
    obtain ⟨htoken, hbehind⟩ := of_drop_eq_cons hrest
    have hlt : i < tokens.length := (List.getElem?_eq_some_iff.1 htoken).1
    rw [undelimited_append (Nat.le_succ i) hlt, undelimited_of_not_delimits (h i) htoken,
      ih hlt hbehind]
    rfl

theorem Reading.forall_text (h : Reading config tokens i k nodes)
    (hno : ∀ q p name, ¬ TagAt tokens q p name) : ∀ node ∈ nodes, DocTree.StartsText [node] := by
  induction h with
  | nil => exact fun _ hnode => absurd hnode List.not_mem_nil
  | tag ht => exact absurd ht (hno _ _ _)
  | literal _ _ _ ih => exact List.forall_mem_cons.2 ⟨trivial, ih⟩

theorem not_tagAt_of_not_opensTag {body : String} (h : ¬ Token.OpensTag body.toList) (q p : Nat)
    (name : String) : ¬ TagAt (Token.tokenize body) q p name :=
  fun ht => h (Token.opensTag_of_mem_tokenizeChars (List.mem_of_getElem? ht.opens))

/-! ## The tree of a comment -/

/-- If there are only group tags, the tree has the text of the other tokens, with all blanks. -/
theorem fullText_parseBody_of_groupsOnly {body : String}
    (h : GroupsOnly config (Token.tokenize body) 0 (Token.tokenize body).length) :
    DocTree.fullText (parseBody config body) =
      Token.writtenAll (undelimited (Token.tokenize body) 0 (Token.tokenize body).length) := by
  obtain ⟨nodes, hread, hjoined⟩ := exists_reading_parseBody config body
  have heq := hread.fullText_eq (fun q _ _ _ _ _ => Nat.zero_le q) (keepsContent_all h)
  rw [List.filter_true, List.filter_true] at heq
  rw [← DocTree.joined_iff.1 hjoined, DocTree.fullText_joinTexts]
  exact String.toList_inj.1 heq

/-- A comment without the opener of a tag is one text. -/
theorem parseBody_of_not_opensTag {body : String} (h : ¬ Token.OpensTag body.toList) :
    parseBody config body = if body = "" then [] else [.text body] := by
  have hno : ∀ q p name, ¬ TagAt (Token.tokenize body) q p name := not_tagAt_of_not_opensTag h
  have hfull : DocTree.fullText (parseBody config body) = body := by
    rw [fullText_parseBody_of_groupsOnly fun q p name ht => absurd ht (hno q p name),
      undelimited_eq_drop (fun _ ⟨i, j, name, ht, _⟩ => hno i j name ht) (Nat.zero_le _)]
    exact Token.writtenAll_tokenize body
  obtain ⟨nodes, hread, hjoined⟩ := exists_reading_parseBody config body
  rw [← DocTree.joined_iff.1 hjoined] at hfull ⊢
  split
  · rename_i hempty
    have htokens : Token.tokenize body = [] := by
      rw [Token.tokenize, hempty]
      exact Token.tokenizeChars.eq_1
    rw [htokens] at hread
    rw [hread.unique (.nil 0)]
    rfl
  · rename_i hne
    have hnodes : nodes ≠ [] := by
      rintro rfl
      exact hne hfull.symm
    rw [DocTree.joinTexts_of_forall_text (hread.forall_text hno) hnodes,
      ← DocTree.fullText_joinTexts, hfull]

/-- Nothing of a comment is lost, repeated or moved. Its tree, read in order, has the text of the
comment without what opens and closes the tags that became nodes: up to blanks if no inclusion
encloses a link or an inclusion, and exactly if there is no link and no inclusion. Without the
opener of a tag there is only the text itself. -/
theorem parseBody_keeps_text (config : Config) (body : String) :
    let tokens := Token.tokenize body
    let tree := parseBody config body
    let kept := Token.writtenAll (undelimited tokens 0 tokens.length)
    Token.writtenAll tokens = body ∧
      (∃ nodes, Reading config tokens 0 tokens.length nodes ∧ DocTree.Joined nodes tree) ∧
      (InclusionsApart config tokens →
        Text.nonBlanks (DocTree.fullText tree).toList = Text.nonBlanks kept.toList) ∧
      (DocTree.isProse tree = true → DocTree.fullText tree = kept) ∧
      (¬ Token.OpensTag body.toList → tree = if body = "" then [] else [.text body]) := by
  intro tokens tree kept
  obtain ⟨nodes, hread, hjoined⟩ := exists_reading_parseBody config body
  have htree : DocTree.joinTexts nodes = tree := DocTree.joined_iff.1 hjoined
  refine ⟨Token.writtenAll_tokenize body, ⟨nodes, hread, hjoined⟩, fun h => ?_, fun hprose => ?_,
    parseBody_of_not_opensTag⟩
  · rw [← htree, DocTree.fullText_joinTexts]
    exact hread.fullText_eq (fun q _ _ _ _ _ => Nat.zero_le q) (keepsContent_nonBlank h)
  · rw [← htree, DocTree.isProse_joinTexts, hread.isProse_iff] at hprose
    exact fullText_parseBody_of_groupsOnly hprose

/-- A comment with a link, a group around an inclusion, plain braces and an open tag. -/
def mixedBody : String :=
  "See \x7b@link a.B#c(int, T) the call\x7d \x7bor \x7b@b \x7b@include  d.E \x7d\x7d\x7d, \x7b@i no"

theorem parseBody_keeps_text_mixed :
    InclusionsApart {} (Token.tokenize mixedBody) ∧
      Text.nonBlanks (DocTree.fullText (parseBody {} mixedBody)).toList =
        "Seea.B#c(int,T)thecall\x7bord.E\x7d,\x7b@ino".toList := by
  have happly := (parseBody_keeps_text {} mixedBody).2.2.1
  have hapart : InclusionsApart {} (Token.tokenize mixedBody) := by decide +kernel
  refine ⟨hapart, (happly hapart).trans ?_⟩
  decide +kernel

end DocWeave.Comment
