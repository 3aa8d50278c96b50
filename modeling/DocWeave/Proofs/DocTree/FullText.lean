import DocWeave.Proofs.DocTree.Joined

/-!
# The full text of a tree

`fullText` reads a tree in order with all that is written in it: unlike `plainText` it has the
signatures of links and the targets of inclusions. In prose, where there are no links and no
inclusions, the two are the same.
-/

namespace DocWeave

mutual

/-- The text of a node, with the signature of a link before its label. -/
def DocNode.fullText : DocNode → String
  | .text body => body
  | .link signature label => signature ++ DocTree.fullText label
  | .container children => DocTree.fullText children
  | .inclusion target => target

/-- The texts of nodes in order. -/
def DocTree.fullText : List DocNode → String
  | [] => ""
  | node :: rest => node.fullText ++ DocTree.fullText rest

end

mutual

/-- Whether a node is neither a link nor an inclusion and holds none. -/
def DocNode.isProse : DocNode → Bool
  | .text _ => true
  | .link .. => false
  | .container children => DocTree.isProse children
  | .inclusion _ => false

/-- Whether there are only texts and groups. -/
def DocTree.isProse : List DocNode → Bool
  | [] => true
  | node :: rest => node.isProse && DocTree.isProse rest

end

mutual

theorem DocNode.plainText_of_isProse : ∀ {node : DocNode}, node.isProse = true →
    node.plainText = node.fullText
  | .text _, _ => rfl
  | .container _, h => DocTree.plainText_of_isProse h

theorem DocTree.plainText_of_isProse : ∀ {nodes : List DocNode}, DocTree.isProse nodes = true →
    DocTree.plainText nodes = DocTree.fullText nodes
  | [], _ => rfl
  | node :: rest, h => by
    rw [DocTree.isProse, Bool.and_eq_true] at h
    rw [DocTree.plainText, DocTree.fullText, node.plainText_of_isProse h.1,
      DocTree.plainText_of_isProse h.2]

end

namespace DocTree

variable {nodes : DocTree}

theorem fullText_consJoined (node : DocNode) (rest : DocTree) :
    fullText (consJoined node rest) = node.fullText ++ fullText rest := by
  unfold consJoined
  split
  · simp [fullText, DocNode.fullText, String.append_assoc]
  · simp [fullText]

theorem fullText_joinTexts (nodes : DocTree) : fullText (joinTexts nodes) = fullText nodes := by
  induction nodes with
  | nil => rfl
  | cons node rest ih =>
    rw [joinTexts_cons, fullText_consJoined, ih, fullText]

theorem isProse_consJoined (node : DocNode) (rest : DocTree) :
    isProse (consJoined node rest) = (node.isProse && isProse rest) := by
  unfold consJoined
  split
  · simp [isProse, DocNode.isProse]
  · simp [isProse]

theorem isProse_joinTexts (nodes : DocTree) : isProse (joinTexts nodes) = isProse nodes := by
  induction nodes with
  | nil => rfl
  | cons node rest ih =>
    rw [joinTexts_cons, isProse_consJoined, ih, isProse]

/-- Nothing but texts becomes one text. -/
theorem joinTexts_of_forall_text (h : ∀ node ∈ nodes, StartsText [node]) (hne : nodes ≠ []) :
    joinTexts nodes = [.text (fullText nodes)] := by
  induction nodes with
  | nil => exact absurd rfl hne
  | cons node rest ih =>
    rw [List.forall_mem_cons] at h
    cases node with
    | text body =>
      rw [joinTexts_cons, fullText, DocNode.fullText]
      by_cases hrest : rest = []
      · subst hrest
        simp [joinTexts, consJoined, fullText]
      · rw [ih h.2 hrest, consJoined]
    | _ => exact h.1.elim

end DocTree
end DocWeave
