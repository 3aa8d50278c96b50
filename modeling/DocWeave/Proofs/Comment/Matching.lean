import DocWeave.Comment.Parser
import DocWeave.Proofs.DocTree.Joined

/-!
# Matched braces

`openBefore tokens i` lists the openers that are still open before token `i`, and a closing brace
closes the nearest of them. A tag becomes a node if it is closed and if fewer than 64 openers
(`maxNesting`) were open when it was read; every other token is literal text. `Reading` says what a
stretch of tokens reads as under these rules, without any reader: `Reading.unique` shows that it
reads as one list of nodes only.
-/

namespace DocWeave.Comment

variable {config : Config} {tokens : List Token} {i j k : Nat} {name : String}

/-- The positions of the openers that are open before token `i`, the nearest first. -/
def openBefore (tokens : List Token) : Nat → List Nat
  | 0 => []
  | i + 1 =>
    match tokens[i]? with
    | some (.opening _) => i :: openBefore tokens i
    | some .closing => (openBefore tokens i).tail
    | _ => openBefore tokens i

/-- The brace at `j` closes the opener at `i`, the nearest that is open. -/
def Closes (tokens : List Token) (j i : Nat) : Prop :=
  tokens[j]? = some .closing ∧ (openBefore tokens j).head? = some i

/-- The tag `name` opens at `i`, where fewer than 64 openers (`maxNesting`) are open, and is closed
at `j`. -/
structure TagAt (tokens : List Token) (i j : Nat) (name : String) : Prop where
  opens : tokens[i]? = some (.opening (.tag name))
  closes : Closes tokens j i
  shallow : (openBefore tokens i).length < maxNesting

/-- The node of a tag with the given content. -/
inductive TagNode (config : Config) (name : String) (content : DocTree) : DocNode → Prop where
  | link : config.isLinkTag name = true →
    TagNode config name content (.link (splitReference content).1 (splitReference content).2)
  | inclusion : config.isLinkTag name = false → config.isIncludeTag name = true →
    TagNode config name content (.inclusion (Text.trim (DocTree.plainText content)))
  | container : config.isLinkTag name = false → config.isIncludeTag name = false →
    TagNode config name content (.container content)

/-- What the tokens from `i` up to `k` read as, before neighbouring texts are joined. -/
inductive Reading (config : Config) (tokens : List Token) : Nat → Nat → List DocNode → Prop where
  | nil (i : Nat) : Reading config tokens i i []
  | tag {i j k : Nat} {name : String} {content rest : List DocNode} {joined : DocTree}
    {node : DocNode} :
    TagAt tokens i j name → Reading config tokens (i + 1) j content →
    DocTree.Joined content joined → TagNode config name joined node →
    Reading config tokens (j + 1) k rest → Reading config tokens i k (node :: rest)
  | literal {i k : Nat} {token : Token} {rest : List DocNode} :
    tokens[i]? = some token → (∀ j name, ¬ TagAt tokens i j name) →
    Reading config tokens (i + 1) k rest →
    Reading config tokens i k (.text token.written :: rest)

theorem of_drop_eq_cons {token : Token} {rest : List Token} (h : tokens.drop i = token :: rest) :
    tokens[i]? = some token ∧ tokens.drop (i + 1) = rest := by
  constructor
  · rw [← List.head?_drop, h]
    rfl
  · rw [← List.tail_drop, h]
    rfl

/-! ## Open openers -/

theorem openBefore_opening {opener : Opener} (h : tokens[i]? = some (.opening opener)) :
    openBefore tokens (i + 1) = i :: openBefore tokens i := by
  rw [openBefore, h]

theorem openBefore_closing (h : tokens[i]? = some .closing) :
    openBefore tokens (i + 1) = (openBefore tokens i).tail := by
  rw [openBefore, h]

theorem openBefore_text {body : String} (h : tokens[i]? = some (.text body)) :
    openBefore tokens (i + 1) = openBefore tokens i := by
  rw [openBefore, h]

/-- A token opens itself or leaves open what was open, except perhaps the nearest opener. -/
theorem openBefore_succ (tokens : List Token) (i : Nat) :
    openBefore tokens (i + 1) = i :: openBefore tokens i ∨
      openBefore tokens (i + 1) = (openBefore tokens i).tail ∨
      openBefore tokens (i + 1) = openBefore tokens i := by
  rw [openBefore]
  split
  · exact .inl rfl
  · exact .inr (.inl rfl)
  · exact .inr (.inr rfl)

theorem mem_openBefore_succ (h : k ∈ openBefore tokens (i + 1)) :
    k = i ∨ k ∈ openBefore tokens i := by
  rcases openBefore_succ tokens i with he | he | he <;> rw [he] at h
  · exact List.mem_cons.1 h
  · exact .inr (List.mem_of_mem_tail h)
  · exact .inr h

theorem lt_of_mem_openBefore (h : k ∈ openBefore tokens i) : k < i := by
  induction i with
  | zero => cases h
  | succ i ih =>
    rcases mem_openBefore_succ h with rfl | h
    · omega
    · have := ih h
      omega

theorem pairwise_openBefore (tokens : List Token) (i : Nat) :
    (openBefore tokens i).Pairwise (· > ·) := by
  induction i with
  | zero => exact .nil
  | succ i ih =>
    rcases openBefore_succ tokens i with he | he | he <;> rw [he]
    · exact .cons (fun k hk => lt_of_mem_openBefore hk) ih
    · exact ih.tail
    · exact ih

theorem Closes.mem (h : Closes tokens j i) : i ∈ openBefore tokens j :=
  List.mem_of_mem_head? h.2

theorem Closes.lt (h : Closes tokens j i) : i < j :=
  lt_of_mem_openBefore h.mem

/-- A closed opener is not open any more, however many tokens follow. -/
theorem Closes.not_mem (h : Closes tokens j i) (hk : j < k) : i ∉ openBefore tokens k := by
  induction k with
  | zero => omega
  | succ k ih =>
    intro hmem
    by_cases hjk : j = k
    · subst hjk
      obtain ⟨rest, hrest⟩ := List.head?_eq_some_iff.1 h.2
      have hpair := pairwise_openBefore tokens j
      rw [openBefore_closing h.1, hrest, List.tail_cons] at hmem
      rw [hrest, List.pairwise_cons] at hpair
      have := hpair.1 i hmem
      omega
    · rcases mem_openBefore_succ hmem with rfl | hmem
      · have := h.lt
        omega
      · exact ih (by omega) hmem

theorem Closes.unique (h : Closes tokens j i) (h' : Closes tokens k i) : j = k := by
  rcases Nat.lt_trichotomy j k with hlt | heq | hlt
  · exact (h.not_mem hlt h'.mem).elim
  · exact heq
  · exact (h'.not_mem hlt h.mem).elim

/-! ## Readings -/

theorem TagNode.unique {content : DocTree} {node node' : DocNode}
    (h : TagNode config name content node) (h' : TagNode config name content node') :
    node = node' := by
  cases h <;> cases h' <;> simp_all

namespace Reading

variable {nodes nodes' : List DocNode}

theorem le (h : Reading config tokens i k nodes) : i ≤ k := by
  induction h with
  | nil => omega
  | tag ht _ _ _ _ _ ih =>
    have := ht.closes.lt
    omega
  | literal _ _ _ ih => omega

theorem append (h : Reading config tokens i j nodes) (h' : Reading config tokens j k nodes') :
    Reading config tokens i k (nodes ++ nodes') := by
  induction h with
  | nil => exact h'
  | tag ht hc hj hn _ _ ih => exact .tag ht hc hj hn (ih h')
  | literal htoken hno _ ih => exact .literal htoken hno (ih h')

theorem single {token : Token} (htoken : tokens[i]? = some token)
    (hno : ∀ j name, ¬ TagAt tokens i j name) :
    Reading config tokens i (i + 1) [.text token.written] :=
  .literal htoken hno (.nil _)

/-- The same tokens read as the same nodes. -/
theorem unique (h : Reading config tokens i k nodes) (h' : Reading config tokens i k nodes') :
    nodes = nodes' := by
  induction h generalizing nodes' with
  | nil i =>
    cases h' with
    | nil => rfl
    | tag ht _ _ _ hr =>
      have := hr.le
      have := ht.closes.lt
      omega
    | literal _ _ hr =>
      have := hr.le
      omega
  | tag ht _ hj hn hr ihc ihr =>
    cases h' with
    | nil =>
      have := hr.le
      have := ht.closes.lt
      omega
    | tag ht' hc' hj' hn' hr' =>
      cases ht.opens.symm.trans ht'.opens
      cases ht.closes.unique ht'.closes
      cases ihc hc'
      cases hj.unique hj'
      rw [hn.unique hn', ihr hr']
    | literal _ hno _ => exact (hno _ _ ht).elim
  | literal htoken hno hr ih =>
    cases h' with
    | nil =>
      have := hr.le
      omega
    | tag ht _ _ _ _ => exact (hno _ _ ht).elim
    | literal htoken' _ hr' =>
      cases htoken.symm.trans htoken'
      rw [ih hr']

end Reading
end DocWeave.Comment
