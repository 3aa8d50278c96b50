import DocWeave.Proofs.Comment.Shape

/-!
# Normal forms of trees

A tree is in normal form if it has no groups, no empty text and no neighbouring texts, and if the
label of each link is one trimmed text. `normalForm` takes groups apart, at every depth, drops empty
texts, joins the texts that come to stand side by side, and puts the text that it shows in place of
a label. Its result is in normal form, and a tree that is so already stays as it is.
-/

namespace DocWeave

mutual

/-- What is left of a node without groups and empty texts and with plain labels. -/
def DocNode.flatten : DocNode → DocTree
  | .text body => if body = "" then [] else [.text body]
  | .link signature label => [.link signature [.text (Text.trim (DocTree.plainText label))]]
  | .container children => DocTree.flatten children
  | .inclusion target => [.inclusion target]

/-- What is left of the nodes, in order. -/
def DocTree.flatten : List DocNode → DocTree
  | [] => []
  | node :: rest => node.flatten ++ DocTree.flatten rest

end

namespace DocTree

variable {node : DocNode} {nodes rest : DocTree}

def normalForm (nodes : DocTree) : DocTree :=
  joinTexts (flatten nodes)

/-- A node of a tree in normal form. -/
inductive NormalNode : DocNode → Prop where
  | text {body : String} : body ≠ "" → NormalNode (.text body)
  | link {signature shown : String} : Text.trim shown = shown →
    NormalNode (.link signature [.text shown])
  | inclusion {target : String} : NormalNode (.inclusion target)

/-- The tree is in normal form. -/
structure Normal (nodes : DocTree) : Prop where
  parted : Parted nodes
  forall_mem : ∀ node ∈ nodes, NormalNode node

theorem flatten_append (nodes rest : DocTree) :
    flatten (nodes ++ rest) = flatten nodes ++ flatten rest := by
  induction nodes with
  | nil => rw [List.nil_append, flatten, List.nil_append]
  | cons node nodes ih => rw [List.cons_append, flatten, ih, flatten, List.append_assoc]

theorem plainText_singleton (body : String) : plainText [.text body] = body := by
  rw [plainText, plainText, DocNode.plainText, String.append_empty]

/-! ## The normal form is normal -/

theorem normalNode_of_mem_flatten : ∀ {nodes : DocTree}, ∀ n ∈ flatten nodes, NormalNode n
  | [], n, hn => by
    rw [flatten] at hn
    cases hn
  | node :: rest, n, hn => by
    rw [flatten, List.mem_append] at hn
    rcases hn with hn | hn
    · cases node with
      | text body =>
        rw [DocNode.flatten] at hn
        split at hn
        · cases hn
        · rename_i hne
          cases List.mem_singleton.1 hn
          exact .text hne
      | link signature label =>
        rw [DocNode.flatten, List.mem_singleton] at hn
        subst hn
        exact .link (Text.trim_trim _)
      | container children =>
        rw [DocNode.flatten] at hn
        exact normalNode_of_mem_flatten n hn
      | inclusion target =>
        rw [DocNode.flatten, List.mem_singleton] at hn
        subst hn
        exact .inclusion
    · exact normalNode_of_mem_flatten n hn

theorem normal_normalForm (nodes : DocTree) : Normal (normalForm nodes) where
  parted := parted_joinTexts (flatten nodes)
  forall_mem := by
    refine forall_mem_joinTexts (fun s t hs _ => ?_) normalNode_of_mem_flatten
    cases hs with
    | text hne => exact .text (by simp [hne])

/-! ## A normal tree is its own normal form -/

theorem NormalNode.flatten_eq (h : NormalNode node) : node.flatten = [node] := by
  cases h with
  | text hne => rw [DocNode.flatten, if_neg hne]
  | link hshown => rw [DocNode.flatten, plainText_singleton, hshown]
  | inclusion => rw [DocNode.flatten]

theorem joinTexts_of_parted (h : Parted nodes) : joinTexts nodes = nodes := by
  induction nodes with
  | nil => rfl
  | cons node rest ih =>
    rw [parted_cons_iff] at h
    rw [joinTexts_cons, ih h.2]
    by_cases hnode : StartsText [node]
    · exact consJoined_of_not_startsText (h.1 hnode) node
    · exact consJoined_of_not_text hnode rest

theorem Normal.normalForm_eq (h : Normal nodes) : normalForm nodes = nodes := by
  have hflatten : ∀ {nodes : DocTree}, (∀ n ∈ nodes, NormalNode n) → flatten nodes = nodes := by
    intro nodes hnodes
    induction nodes with
    | nil => rw [flatten]
    | cons node rest ih =>
      rw [List.forall_mem_cons] at hnodes
      rw [flatten, hnodes.1.flatten_eq, ih hnodes.2, List.singleton_append]
  rw [normalForm, hflatten h.forall_mem, joinTexts_of_parted h.parted]

end DocTree
end DocWeave
