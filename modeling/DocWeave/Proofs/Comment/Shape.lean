import DocWeave.Proofs.Comment.Conservation

/-!
# The shape of comments

Openers stay on the stack while the content of a tag is read, so a tag inside another one stands
deeper in it (`suffix_openBefore`), and a tag becomes a node only if fewer than `maxNesting` openers
are open. This bounds the nesting of links and groups (`Reading.depth_le`). Neighbouring texts are
joined wherever nodes come to stand side by side for good, and what a link takes from its first text
leaves no empty text and no two neighbouring ones (`shaped_splitReference`).
-/

namespace DocWeave

mutual

/-- How deep links and groups are nested in a node. -/
def DocNode.depth : DocNode → Nat
  | .text _ => 0
  | .link _ label => DocTree.depth label + 1
  | .container children => DocTree.depth children + 1
  | .inclusion _ => 0

/-- How deep links and groups are nested. -/
def DocTree.depth : List DocNode → Nat
  | [] => 0
  | node :: rest => max node.depth (DocTree.depth rest)

end

namespace DocTree

variable {node : DocNode} {nodes rest : DocTree}

/-- No two neighbours are texts. -/
def Parted (nodes : DocTree) : Prop :=
  nodes.IsChain fun a b => ¬ (StartsText [a] ∧ StartsText [b])

theorem parted_cons_iff : Parted (node :: rest) ↔
    (StartsText [node] → ¬ StartsText rest) ∧ Parted rest := by
  cases rest with
  | nil => simp [Parted, StartsText]
  | cons second rest =>
    have hstart : StartsText (second :: rest) ↔ StartsText [second] := by
      cases second <;> rfl
    rw [Parted, List.isChain_cons_cons, hstart, not_and]
    rfl

theorem parted_consJoined (node : DocNode) (h : Parted rest) : Parted (consJoined node rest) := by
  unfold consJoined
  split
  · rw [parted_cons_iff] at h ⊢
    exact ⟨fun _ => h.1 trivial, h.2⟩
  · rename_i hnot
    refine parted_cons_iff.2 ⟨fun hnode hrest => ?_, h⟩
    cases node with
    | text s =>
      cases rest with
      | nil => exact hrest
      | cons second rest =>
        cases second with
        | text t => exact hnot s t rest rfl rfl
        | _ => exact hrest
    | _ => exact hnode

theorem parted_joinTexts (nodes : DocTree) : Parted (joinTexts nodes) := by
  induction nodes with
  | nil => exact .nil
  | cons node rest ih =>
    rw [joinTexts_cons]
    exact parted_consJoined node ih

theorem depth_consJoined (node : DocNode) (rest : DocTree) :
    depth (consJoined node rest) = max node.depth (depth rest) := by
  unfold consJoined
  split
  · simp [depth, DocNode.depth]
  · rfl

theorem depth_joinTexts (nodes : DocTree) : depth (joinTexts nodes) = depth nodes := by
  induction nodes with
  | nil => rfl
  | cons node rest ih =>
    rw [joinTexts_cons, depth_consJoined, ih, depth]

end DocTree

namespace Comment

open DocTree (Parted StartsText)

variable {config : Config} {tokens : List Token} {i j k p q b d : Nat} {name : String}
  {cs : List Char} {nodes content : List DocNode} {node : DocNode}

/-- Every blank stands between parentheses. -/
def BlanksEnclosed (cs : List Char) : Prop :=
  ∀ before c after, cs = before ++ c :: after → Text.isBlank c = true →
    before.foldl parenDepth 0 ≠ 0

/-- A text in front of the label starts with a character that is not blank. -/
def LabelStart (label : DocTree) : Prop :=
  ∀ body, label.head? = some (.text body) → ∃ c ∈ body.toList.head?, Text.isBlank c = false

/-- The form of a node and of all nodes inside of it. -/
inductive Shaped : DocNode → Prop where
  | text {body : String} : body ≠ "" → Shaped (.text body)
  | link {signature : String} {label : List DocNode} : BlanksEnclosed signature.toList →
    LabelStart label → Parted label → (∀ node ∈ label, Shaped node) → Shaped (.link signature label)
  | container {children : List DocNode} : Parted children → (∀ node ∈ children, Shaped node) →
    Shaped (.container children)
  | inclusion {target : String} : Text.Trimmed target.toList → Shaped (.inclusion target)

/-! ## Tags inside tags -/

/-- What was open when an opener was read is open as long as the opener is. -/
theorem suffix_openBefore (h : i ∈ openBefore tokens p) :
    i :: openBefore tokens i <:+ openBefore tokens p := by
  induction p with
  | zero => cases h
  | succ p ih =>
    rcases openBefore_succ tokens p with he | he | he <;> rw [he] at h ⊢
    · rcases List.mem_cons.1 h with rfl | h
      · exact List.suffix_rfl
      · exact (ih h).trans (List.suffix_cons ..)
    · -- The opener that is closed is the nearest one, so it is not `i`.
      have hpair := pairwise_openBefore tokens p
      have hsuffix := ih (List.mem_of_mem_tail h)
      cases hopen : openBefore tokens p with
      | nil => simp [hopen] at h
      | cons top rest =>
        rw [hopen] at h hpair hsuffix
        rcases List.suffix_cons_iff.1 hsuffix with heq | hsuffix
        · cases heq
          exact absurd ((List.pairwise_cons.1 hpair).1 i h) (Nat.lt_irrefl i)
        · exact hsuffix
    · exact ih h

/-- More openers are open inside a tag than before it. -/
theorem TagAt.length_openBefore_lt (h : TagAt tokens i j name) (hiq : i < q) (hqj : q ≤ j) :
    (openBefore tokens i).length < (openBefore tokens q).length :=
  (suffix_openBefore (h.closes.mem_openBefore hiq hqj)).length_le

/-! ## Nesting -/

theorem depth_splitReference_le (content : DocTree) :
    DocTree.depth (splitReference content).2 ≤ DocTree.depth content := by
  unfold splitReference
  split
  · rename_i first rest
    simp only
    split <;> simp [DocTree.depth, DocNode.depth]
  · exact Nat.le_refl _

theorem TagNode.depth_le (h : TagNode config name content node) :
    node.depth ≤ DocTree.depth content + 1 := by
  cases h with
  | link => exact Nat.succ_le_succ (depth_splitReference_le content)
  | inclusion => exact Nat.zero_le _
  | container => exact Nat.le_refl _

/-- Where all tags stand under `b` openers, what is read has only the rest of the levels. -/
theorem Reading.depth_le (h : Reading config tokens i k nodes)
    (hdeep : ∀ q p name, TagAt tokens q p name → i ≤ q → q < k → b ≤ (openBefore tokens q).length) :
    DocTree.depth nodes ≤ maxNesting - b := by
  induction h generalizing b with
  | nil => exact Nat.zero_le _
  | @tag i j k name content rest joined node ht hcontent hjoined hnode hrest ihcontent ihrest =>
    have hij := ht.closes.lt
    have hjk := hrest.le
    have hb : b ≤ (openBefore tokens i).length := hdeep i j name ht (Nat.le_refl i) (by omega)
    have hshallow := ht.shallow
    -- All that the tag encloses stands under its opener as well.
    have hinside : DocTree.depth content ≤ maxNesting - ((openBefore tokens i).length + 1) :=
      ihcontent fun q _ _ _ hiq hqj => ht.length_openBefore_lt hiq (Nat.le_of_lt hqj)
    have hbehind : DocTree.depth rest ≤ maxNesting - b :=
      ihrest fun q p name h hjq hqk => hdeep q p name h (by omega) hqk
    have hdepth := hnode.depth_le
    rw [← DocTree.joined_iff.1 hjoined, DocTree.depth_joinTexts] at hdepth
    rw [DocTree.depth]
    omega
  | @literal i k token rest htoken hno hrest ih =>
    have hbehind : DocTree.depth rest ≤ maxNesting - b :=
      ih fun q p name h hiq hqk => hdeep q p name h (by omega) hqk
    rw [DocTree.depth, DocNode.depth]
    omega

/-! ## Texts -/

theorem written_ne_empty {token : Token} (h : token ∈ Token.tokenizeChars cs) :
    token.written ≠ "" := by
  fun_induction Token.tokenizeChars cs with
  | case1 => cases h
  | case2 cs name rest hname ih =>
    rcases List.mem_cons.1 h with rfl | h
    · simp [Token.written, Opener.written]
    · exact ih h
  | case3 cs hnone ih =>
    rcases List.mem_cons.1 h with rfl | h
    · decide
    · exact ih h
  | case4 cs _ ih =>
    rcases List.mem_cons.1 h with rfl | h
    · decide
    · exact ih h
  | case5 c cs _ _ ih =>
    rcases List.mem_cons.1 h with rfl | h
    · simp [Token.written, ← String.toList_inj]
    · exact ih h

theorem shaped_joinTexts (h : ∀ n ∈ nodes, Shaped n) : ∀ n ∈ DocTree.joinTexts nodes, Shaped n := by
  refine DocTree.forall_mem_joinTexts (fun s t hs _ => ?_) h
  cases hs with
  | text hne => exact .text (by simp [hne])

/-! ## Links -/

/-- Scanning stops at the first blank outside parentheses, so there is none before it. -/
theorem cutReference_blanks {before after : List Char} {c : Char}
    (h : (cutReference d cs).1 = before ++ c :: after) (hc : Text.isBlank c = true) :
    before.foldl parenDepth d ≠ 0 := by
  induction cs generalizing d before with
  | nil => simp [cutReference] at h
  | cons x cs ih =>
    rw [cutReference] at h
    split at h
    · simp at h
    · rename_i hx
      cases before with
      | nil =>
        obtain ⟨rfl, -⟩ := List.cons.inj h
        simpa [hc] using hx
      | cons y before =>
        obtain ⟨rfl, htail⟩ := List.cons.inj h
        rw [List.foldl_cons]
        exact ih htail

theorem labelStart_of_not_startsText (h : ¬ StartsText nodes) : LabelStart nodes := by
  intro body hbody
  obtain ⟨rest, rfl⟩ := List.head?_eq_some_iff.1 hbody
  exact absurd trivial h

theorem labelStart_dropBlanks (h : Text.dropBlanks cs ≠ []) :
    LabelStart (.text (String.ofList (Text.dropBlanks cs)) :: nodes) := by
  intro body hbody
  cases hbody
  rw [String.toList_ofList]
  refine ⟨_, List.head?_eq_some_head h, ?_⟩
  exact List.head_dropWhile_not Text.isBlank h

/-- A text that is taken off the front or cut down leaves the neighbours apart. -/
theorem shaped_splitReference (hparted : Parted content) (hshaped : ∀ n ∈ content, Shaped n) :
    Shaped (.link (splitReference content).1 (splitReference content).2) := by
  unfold splitReference
  split
  · rename_i first rest
    rw [DocTree.parted_cons_iff] at hparted
    rw [List.forall_mem_cons] at hshaped
    have hrest : ¬ StartsText rest := hparted.1 trivial
    have hcut : BlanksEnclosed (cutReference 0 (Text.dropBlanks first.toList)).1 :=
      fun _ _ _ => cutReference_blanks
    generalize cutReference 0 (Text.dropBlanks first.toList) = cut at hcut ⊢
    obtain ⟨reference, label⟩ := cut
    have hblanks : BlanksEnclosed (String.ofList reference).toList := by
      rwa [String.toList_ofList]
    simp only
    split
    · exact .link hblanks (labelStart_of_not_startsText hrest) hparted.2 hshaped.2
    · rename_i hlabel
      rw [List.isEmpty_iff] at hlabel
      have hne : String.ofList (Text.dropBlanks label) ≠ "" := by simpa using hlabel
      exact .link hblanks (labelStart_dropBlanks hlabel)
        (DocTree.parted_cons_iff.2 ⟨fun _ => hrest, hparted.2⟩)
        (List.forall_mem_cons.2 ⟨.text hne, hshaped.2⟩)
  · rename_i hnot
    have hblanks : BlanksEnclosed "".toList := by
      intro before c after hsplit
      simp at hsplit
    refine .link hblanks (labelStart_of_not_startsText fun hstart => ?_) hparted hshaped
    cases content with
    | nil => exact hstart
    | cons node rest =>
      cases node with
      | text first => exact hnot first rest rfl
      | _ => exact hstart

theorem TagNode.shaped (h : TagNode config name content node) (hparted : Parted content)
    (hshaped : ∀ n ∈ content, Shaped n) : Shaped node := by
  cases h with
  | link => exact shaped_splitReference hparted hshaped
  | inclusion =>
    refine .inclusion ?_
    rw [Text.trim, String.toList_ofList]
    exact Text.trimmed_trimChars _
  | container => exact .container hparted hshaped

theorem Reading.shaped (h : Reading config tokens i k nodes)
    (htokens : ∀ token ∈ tokens, token.written ≠ "") : ∀ n ∈ nodes, Shaped n := by
  induction h with
  | nil => exact fun _ hn => absurd hn List.not_mem_nil
  | @tag i j k name content rest joined node ht hcontent hjoined hnode hrest ihcontent ihrest =>
    rw [← DocTree.joined_iff.1 hjoined] at hnode
    exact List.forall_mem_cons.2
      ⟨hnode.shaped (DocTree.parted_joinTexts content) (shaped_joinTexts ihcontent), ihrest⟩
  | literal htoken _ _ ih =>
    exact List.forall_mem_cons.2 ⟨.text (htokens _ (List.mem_of_getElem? htoken)), ih⟩

/-! ## The tree of a comment -/

/-- In the tree of every comment links and groups are nested at most 64 deep (`maxNesting`). Nowhere
in it is a text empty or next to another one. The signatures of links have blanks only between
parentheses, a text in front of a label does not start with a blank, and the targets of inclusions
are trimmed. -/
theorem parse_shaped (config : Config) (raw : String) :
    DocTree.depth (parse config raw) ≤ maxNesting ∧ Parted (parse config raw) ∧
      ∀ node ∈ parse config raw, Shaped node := by
  obtain ⟨nodes, hread, hjoined⟩ := exists_reading_parseBody config (undecorate raw)
  have htree : DocTree.joinTexts nodes = parse config raw := DocTree.joined_iff.1 hjoined
  have hwritten : ∀ token ∈ Token.tokenize (undecorate raw), token.written ≠ "" :=
    fun _ => written_ne_empty
  rw [← htree, DocTree.depth_joinTexts]
  exact ⟨hread.depth_le (b := 0) fun _ _ _ _ _ _ => Nat.zero_le _, DocTree.parted_joinTexts nodes,
    shaped_joinTexts (hread.shaped hwritten)⟩

example : maxNesting = 64 := rfl

end Comment
end DocWeave
