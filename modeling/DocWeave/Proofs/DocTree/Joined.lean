import DocWeave.DocTree

/-!
# Joined texts

`Joined nodes joined` says what it means to join neighbouring texts: every longest run of texts
becomes one text and every other node stays. `joined_iff` says that `joinTexts` does just this.
-/

namespace DocWeave.DocTree

variable {nodes rest joined : DocTree} {node : DocNode}

/-- Whether a text comes first. -/
def StartsText : DocTree → Prop
  | .text _ :: _ => True
  | _ => False

/-- `joined` is `nodes` with every longest run of texts as one text. -/
inductive Joined : DocTree → DocTree → Prop where
  | nil : Joined [] []
  | node {node : DocNode} {nodes joined : DocTree} : ¬ StartsText [node] → Joined nodes joined →
    Joined (node :: nodes) (node :: joined)
  | run {first : String} {texts : List String} {nodes joined : DocTree} : ¬ StartsText nodes →
    Joined nodes joined →
    Joined ((first :: texts).map .text ++ nodes) (.text (String.join (first :: texts)) :: joined)

theorem consJoined_of_not_text (h : ¬ StartsText [node]) (rest : DocTree) :
    consJoined node rest = node :: rest := by
  unfold consJoined
  split
  · exact (h trivial).elim
  · rfl

theorem consJoined_of_not_startsText (h : ¬ StartsText rest) (node : DocNode) :
    consJoined node rest = node :: rest := by
  unfold consJoined
  split
  · exact (h trivial).elim
  · rfl

theorem joinTexts_cons (node : DocNode) (rest : DocTree) :
    joinTexts (node :: rest) = consJoined node (joinTexts rest) := rfl

theorem startsText_of_joinTexts (h : StartsText (joinTexts nodes)) : StartsText nodes := by
  cases nodes with
  | nil => exact h
  | cons node rest =>
    cases node with
    | text body => exact trivial
    | _ =>
      rw [joinTexts_cons, consJoined_of_not_text id] at h
      exact h

/-- What holds of a node and of the others holds of all that they are joined to. -/
theorem forall_mem_consJoined {P : DocNode → Prop}
    (htext : ∀ s t, P (.text s) → P (.text t) → P (.text (s ++ t))) (hnode : P node)
    (hrest : ∀ n ∈ rest, P n) : ∀ n ∈ consJoined node rest, P n := by
  unfold consJoined
  split
  · rw [List.forall_mem_cons] at hrest
    exact List.forall_mem_cons.2 ⟨htext _ _ hnode hrest.1, hrest.2⟩
  · exact List.forall_mem_cons.2 ⟨hnode, hrest⟩

theorem forall_mem_joinTexts {P : DocNode → Prop}
    (htext : ∀ s t, P (.text s) → P (.text t) → P (.text (s ++ t))) (h : ∀ n ∈ nodes, P n) :
    ∀ n ∈ joinTexts nodes, P n := by
  induction nodes with
  | nil => exact h
  | cons node rest ih =>
    rw [List.forall_mem_cons] at h
    rw [joinTexts_cons]
    exact forall_mem_consJoined htext h.1 (ih h.2)

theorem joinTexts_run (h : ¬ StartsText nodes) (first : String) (texts : List String) :
    joinTexts ((first :: texts).map .text ++ nodes) =
      .text (String.join (first :: texts)) :: joinTexts nodes := by
  have hstart : ¬ StartsText (joinTexts nodes) := fun hs => h (startsText_of_joinTexts hs)
  induction texts generalizing first with
  | nil => simp [joinTexts_cons, consJoined_of_not_startsText hstart, String.join_cons]
  | cons second texts ih =>
    rw [List.map_cons, List.cons_append, joinTexts_cons, ih second, consJoined]
    rw [String.join_cons (s := first)]

theorem Joined.joinTexts_eq (h : Joined nodes joined) : joinTexts nodes = joined := by
  induction h with
  | nil => rfl
  | node hnode _ ih => rw [joinTexts_cons, ih, consJoined_of_not_text hnode]
  | run hnodes _ ih => rw [joinTexts_run hnodes, ih]

/-- A text in front makes a new run or prolongs the first one. -/
theorem Joined.text_cons (h : Joined nodes joined) (body : String) :
    Joined (.text body :: nodes) (consJoined (.text body) joined) := by
  -- a run of one text
  have alone : ∀ {nodes joined : DocTree}, ¬ StartsText nodes → Joined nodes joined →
      Joined (.text body :: nodes) (.text body :: joined) := by
    intro nodes joined hnodes h
    have hrun : Joined ([body].map .text ++ nodes) (.text (String.join [body]) :: joined) :=
      .run hnodes h
    simpa [String.join_cons] using hrun
  cases h with
  | nil => exact alone id .nil
  | @node node nodes joined hnode hrest =>
    have hstart : ∀ tail, ¬ StartsText (node :: tail) := by
      intro tail hs
      cases node with
      | text body => exact hnode trivial
      | _ => exact hs
    rw [consJoined_of_not_startsText (hstart joined)]
    exact alone (hstart nodes) (.node hnode hrest)
  | @run first texts nodes joined hnodes hrest =>
    rw [consJoined, ← String.join_cons]
    exact .run hnodes hrest

theorem joined_joinTexts (nodes : DocTree) : Joined nodes (joinTexts nodes) := by
  induction nodes with
  | nil => exact .nil
  | cons node rest ih =>
    cases node with
    | text body => exact ih.text_cons body
    | _ =>
      rw [joinTexts_cons, consJoined_of_not_text id]
      exact .node id ih

theorem joined_iff : Joined nodes joined ↔ joinTexts nodes = joined := by
  constructor
  · exact Joined.joinTexts_eq
  · rintro rfl
    exact joined_joinTexts nodes

theorem Joined.unique {joined' : DocTree} (h : Joined nodes joined) (h' : Joined nodes joined') :
    joined = joined' :=
  (joined_iff.1 h).symm.trans (joined_iff.1 h')

end DocWeave.DocTree
