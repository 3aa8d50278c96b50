/-!
# Document trees

The documentation of a module: text, links to other symbols with a label, inclusions of other
modules, and groups of nodes.
-/

namespace DocWeave

inductive DocNode where
  | text (body : String)
  | link (signature : String) (label : List DocNode)
  | container (children : List DocNode)
  | inclusion (target : String)
  deriving Repr, Inhabited

/-- The nodes of a document in order. -/
abbrev DocTree := List DocNode

mutual

/-- The text that a node shows when nothing is resolved. -/
def DocNode.plainText : DocNode → String
  | .text body => body
  | .link _ label => DocTree.plainText label
  | .container children => DocTree.plainText children
  | .inclusion _ => ""

/-- The texts of nodes, labels and groups in order; inclusions show nothing. -/
def DocTree.plainText : List DocNode → String
  | [] => ""
  | node :: rest => node.plainText ++ DocTree.plainText rest

end

namespace DocTree

/-- Puts a node in front; a text is joined with a text that it comes to stand before. -/
def consJoined : DocNode → DocTree → DocTree
  | .text s, .text t :: rest => .text (s ++ t) :: rest
  | node, rest => node :: rest

/-- Joins neighbouring texts. -/
def joinTexts (nodes : DocTree) : DocTree :=
  nodes.foldr consJoined []

theorem plainText_consJoined (node : DocNode) (rest : DocTree) :
    plainText (consJoined node rest) = node.plainText ++ plainText rest := by
  unfold consJoined
  split
  · simp [plainText, DocNode.plainText, String.append_assoc]
  · simp [plainText]

theorem plainText_joinTexts (nodes : DocTree) : plainText (joinTexts nodes) = plainText nodes := by
  induction nodes with
  | nil => rfl
  | cons node rest ih =>
    rw [show joinTexts (node :: rest) = consJoined node (joinTexts rest) from rfl,
      plainText_consJoined, ih, plainText]

end DocTree
end DocWeave
