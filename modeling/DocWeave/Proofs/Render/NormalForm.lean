import DocWeave.Proofs.DocTree.NormalForm
import DocWeave.Proofs.Render.Unreached

/-!
# Rendering a tree and its normal form

A tree and its normal form have different effects, but these run alike: the same text is written up
to the same failure, whatever the spliced modules add (`runAlike_normalForm`). So neither the module
itself nor one that includes it shows a difference, and of a label only its trimmed text counts.
-/

namespace DocWeave

namespace Workspace

variable {w : Workspace} {x n : QualifiedName}

/-- The workspace with the tree of `x`, if there is one, in normal form. -/
def normalizeDoc (w : Workspace) (x : QualifiedName) : Workspace :=
  match w.docTree? x with
  | some nodes => w.setDoc x (.tree nodes.normalForm)
  | none => w

theorem docTree?_setDoc_self (w : Workspace) (x : QualifiedName) (doc : ModuleDoc) :
    (w.setDoc x doc).docTree? x = some (doc.nodes w.config) := by
  rw [docTree?, setDoc, Registry.find?_insert, if_pos rfl]
  rfl

end Workspace

namespace Renderer

open DocTree (normalForm flatten)
open Effect (RunAlike)

variable {r r' : Renderer} {module x n : QualifiedName} {nodes nodes' : DocTree}

/-! ## Effects of a tree -/

/-- Nothing of a label but the text that it shows has an influence. -/
theorem linkEffect_congr_label {label label' : DocTree} (signature : String)
    (h : Text.trim (DocTree.plainText label) = Text.trim (DocTree.plainText label')) :
    r.linkEffect n signature label = r.linkEffect n signature label' := by
  have hshown : ∀ symbol, labelText symbol label = labelText symbol label' := by
    intro symbol
    rw [labelText, labelText, h]
  have hsymbol : ∀ symbol, r.symbolEffect symbol label = r.symbolEffect symbol label' := by
    intro symbol
    cases symbol <;> simp only [symbolEffect, hshown]
  unfold linkEffect
  simp only [hsymbol]

theorem treeEffects_cons (node : DocNode) (rest : DocTree) :
    r.treeEffects n (node :: rest) = r.nodeEffects n node ++ r.treeEffects n rest := by
  rw [treeEffects]

theorem treeEffects_append (nodes rest : DocTree) :
    r.treeEffects n (nodes ++ rest) = r.treeEffects n nodes ++ r.treeEffects n rest := by
  rw [treeEffects_eq_flatMap, treeEffects_eq_flatMap, treeEffects_eq_flatMap, List.flatMap_append]

theorem runAlike_flatten : ∀ nodes : DocTree,
    RunAlike (r.treeEffects n (flatten nodes)) (r.treeEffects n nodes)
  | [] => by
    rw [flatten]
    exact .refl _
  | node :: rest => by
    rw [flatten, treeEffects_append, treeEffects_cons]
    refine RunAlike.append ?_ (runAlike_flatten rest)
    cases node with
    | text body =>
      rw [DocNode.flatten]
      split
      · rename_i hempty
        rw [treeEffects, nodeEffects, hempty]
        exact Effect.runAlike_emit_empty.symm
      · rw [treeEffects_cons, treeEffects, List.append_nil]
        exact .refl _
    | link signature label =>
      rw [DocNode.flatten, treeEffects_cons, treeEffects, List.append_nil, nodeEffects, nodeEffects]
      have hlabel : r.linkEffect n signature [.text (Text.trim (DocTree.plainText label))] =
          r.linkEffect n signature label := by
        apply linkEffect_congr_label
        rw [DocTree.plainText_singleton, Text.trim_trim]
      rw [hlabel]
      exact .refl _
    | container children =>
      rw [DocNode.flatten, nodeEffects]
      exact runAlike_flatten children
    | inclusion target =>
      rw [DocNode.flatten, treeEffects_cons, treeEffects, List.append_nil]
      exact .refl _

theorem runAlike_consJoined (node : DocNode) (rest : DocTree) :
    RunAlike (r.treeEffects n (DocTree.consJoined node rest))
      (r.nodeEffects n node ++ r.treeEffects n rest) := by
  unfold DocTree.consJoined
  split
  · rename_i s t rest
    rw [treeEffects_cons, treeEffects_cons, ← List.append_assoc, nodeEffects, nodeEffects,
      nodeEffects]
    exact (Effect.runAlike_emit_append s t).append (.refl _)
  · rw [treeEffects_cons]
    exact .refl _

theorem runAlike_joinTexts (nodes : DocTree) :
    RunAlike (r.treeEffects n (DocTree.joinTexts nodes)) (r.treeEffects n nodes) := by
  induction nodes with
  | nil => exact .refl _
  | cons node rest ih =>
    rw [DocTree.joinTexts_cons, treeEffects_cons]
    exact (runAlike_consJoined node _).trans ((RunAlike.refl _).append ih)

theorem runAlike_normalForm (nodes : DocTree) :
    RunAlike (r.treeEffects n (normalForm nodes)) (r.treeEffects n nodes) :=
  (runAlike_joinTexts (flatten nodes)).trans (runAlike_flatten nodes)

/-- Without links and inclusions there is only text. -/
theorem runAlike_of_isProse : ∀ {nodes : DocTree}, DocTree.isProse nodes = true →
    RunAlike (r.treeEffects n nodes) [.emit (DocTree.plainText nodes)]
  | [], _ => by
    rw [treeEffects, DocTree.plainText]
    exact Effect.runAlike_emit_empty.symm
  | node :: rest, h => by
    rw [DocTree.isProse, Bool.and_eq_true] at h
    have hnode : RunAlike (r.nodeEffects n node) [.emit node.plainText] := by
      cases node with
      | text body =>
        rw [nodeEffects, DocNode.plainText]
        exact .refl _
      | container children =>
        rw [nodeEffects, DocNode.plainText]
        exact runAlike_of_isProse h.1
      | link signature label => cases h.1
      | inclusion target => cases h.1
    rw [treeEffects_cons, DocTree.plainText]
    exact (hnode.append (runAlike_of_isProse h.2)).trans (Effect.runAlike_emit_append _ _).symm

/-! ## Effects of a module -/

/-- The renderer after the tree of `x` has been set. -/
def withTree (r : Renderer) (x : QualifiedName) (nodes : DocTree) : Renderer :=
  r.withWorkspace (r.workspace.setDoc x (.tree nodes))

theorem treeEffects_withTree (r : Renderer) (x n : QualifiedName) (nodes nodes' : DocTree) :
    (r.withTree x nodes).treeEffects n nodes' = r.treeEffects n nodes' := by
  have hscope : (r.scopeOf n).Agrees ((r.withTree x nodes).scopeOf n) :=
    ⟨rfl, fun _ => rfl, rfl, rfl, rfl⟩
  exact treeEffects_of_agrees hscope nodes'

theorem moduleEffects_withTree_self (r : Renderer) (x : QualifiedName) (nodes : DocTree) :
    (r.withTree x nodes).moduleEffects x = r.treeEffects x nodes := by
  have hdoc : (r.withTree x nodes).workspace.docTree? x = some nodes :=
    Workspace.docTree?_setDoc_self r.workspace x (.tree nodes)
  rw [moduleEffects, hdoc]
  exact treeEffects_withTree r x x nodes nodes

theorem moduleEffects_withTree_of_ne (hn : n ≠ x) (nodes : DocTree) :
    (r.withTree x nodes).moduleEffects n = r.moduleEffects n :=
  moduleEffects_of_sameAt ⟨rfl, fun _ => rfl, rfl, Workspace.docTree?_setDoc_of_ne hn _⟩

/-- A tree can stand for any documentation whose effects run alike. -/
theorem render_withTree_of_runAlike (h : RunAlike (r.treeEffects x nodes) (r'.moduleEffects x))
    (hothers : ∀ n, n ≠ x → r.moduleEffects n = r'.moduleEffects n) (module : QualifiedName)
    (s : IncludeStack × String) : (r.withTree x nodes).render module s = r'.render module s := by
  refine render_of_runAlike (fun n _ => ?_) s
  by_cases hn : n = x
  · subst hn
    rw [moduleEffects_withTree_self]
    exact h
  · rw [moduleEffects_withTree_of_ne hn]
    exact .of_eq (hothers n hn)

/-- Trees with the same normal form can stand for each other. -/
theorem render_withTree_congr (h : normalForm nodes = normalForm nodes') (module : QualifiedName)
    (s : IncludeStack × String) :
    (r.withTree x nodes).render module s = (r.withTree x nodes').render module s := by
  refine render_withTree_of_runAlike ?_ (fun n hn => (moduleEffects_withTree_of_ne hn nodes').symm)
    module s
  have hnodes := (runAlike_normalForm (r := r) (n := x) nodes).symm
  rw [h] at hnodes
  rw [moduleEffects_withTree_self]
  exact hnodes.trans (runAlike_normalForm nodes')

theorem render_normalizeDoc (r : Renderer) (x module : QualifiedName) (s : IncludeStack × String) :
    (r.withWorkspace (r.workspace.normalizeDoc x)).render module s = r.render module s := by
  unfold Workspace.normalizeDoc
  split
  · rename_i nodes hdoc
    refine render_withTree_of_runAlike ?_ (fun _ _ => rfl) module s
    rw [moduleEffects, hdoc]
    exact runAlike_normalForm nodes
  · rfl

theorem render_normalizeDocs (r : Renderer) (xs : List QualifiedName) (module : QualifiedName)
    (s : IncludeStack × String) :
    (r.withWorkspace (xs.foldl Workspace.normalizeDoc r.workspace)).render module s =
      r.render module s := by
  induction xs generalizing r with
  | nil => rfl
  | cons x xs ih => exact (ih (r.withWorkspace _)).trans (r.render_normalizeDoc x module s)

theorem flatten_replace_label (front back : DocTree) (signature : String) {label label' : DocTree}
    (h : Text.trim (DocTree.plainText label) = Text.trim (DocTree.plainText label')) :
    flatten (front ++ .link signature label :: back) =
      flatten (front ++ .link signature label' :: back) := by
  rw [DocTree.flatten_append, DocTree.flatten_append, flatten, flatten, DocNode.flatten,
    DocNode.flatten, h]

/-- A module without links and inclusions renders to its plain text. -/
theorem render_of_isProse (hdoc : r.workspace.docTree? module = some nodes)
    (hprose : DocTree.isProse nodes = true) {stack : IncludeStack} (hm : module ∉ stack.entries)
    (out : String) :
    r.render module (stack, out) = (.ok (), stack, out ++ DocTree.plainText nodes) := by
  obtain ⟨inside, hin⟩ := IncludeStack.exists_enter hm
  have hpiece : r.piece stack module = { text := DocTree.plainText nodes } := by
    rw [piece_of_enter hin, moduleEffects, hdoc]
    exact (runAlike_of_isProse hprose _).trans (Piece.concat_singleton _)
  rw [render_eq, hpiece]

/-- Rendering depends on nothing of a tree but its normal form. Documents may be brought to their
normal forms, and any document may be replaced by one that has the same normal form: rendering any
module inside any stack and behind any text has the same outcome and leaves the same stack and the
same text, also where it fails. In particular no link and no inclusion inside a label makes a
difference, and a document without links and inclusions renders to its plain text. -/
theorem render_depends_on_normalForm (r : Renderer) :
    (∀ nodes : DocTree, nodes.normalForm.Normal ∧ (nodes.Normal → nodes.normalForm = nodes)) ∧
    (∀ (xs : List QualifiedName) module s,
      (r.withWorkspace (xs.foldl Workspace.normalizeDoc r.workspace)).render module s =
        r.render module s) ∧
    (∀ x (nodes nodes' : DocTree), nodes.normalForm = nodes'.normalForm → ∀ module s,
      (r.withTree x nodes).render module s = (r.withTree x nodes').render module s) ∧
    (∀ x (front back : DocTree) signature (label label' : DocTree),
      Text.trim (DocTree.plainText label) = Text.trim (DocTree.plainText label') → ∀ module s,
      (r.withTree x (front ++ .link signature label :: back)).render module s =
        (r.withTree x (front ++ .link signature label' :: back)).render module s) ∧
    ∀ module nodes, r.workspace.docTree? module = some nodes → DocTree.isProse nodes = true →
      ∀ stack out, module ∉ stack.entries →
        r.render module (stack, out) = (.ok (), stack, out ++ DocTree.plainText nodes) := by
  refine ⟨fun nodes => ⟨DocTree.normal_normalForm nodes, DocTree.Normal.normalForm_eq⟩,
    r.render_normalizeDocs, fun x nodes nodes' => render_withTree_congr, ?label, ?prose⟩
  case label =>
    intro x front back signature label label' h
    apply render_withTree_congr
    rw [normalForm, normalForm, flatten_replace_label front back signature h]
  case prose =>
    exact fun module nodes hdoc hprose stack out hm => render_of_isProse hdoc hprose hm out

/-- Groups, an empty text, and a label that holds a link and an inclusion which lead nowhere. -/
def groupedTree : DocTree :=
  [.container [.text "", .container [.text "x"], .text "y"], .inclusion "b",
    .link "a.b" [.text " z ", .link "none" [], .inclusion "none"]]

/-- The normal form of `groupedTree`. -/
def plainTree : DocTree :=
  [.text "xy", .inclusion "b", .link "a.b" [.text "z"]]

theorem render_depends_on_normalForm_sample :
    let renderedInside r module := r.render module (⟨["e"], by simp⟩, ">")
    (plainTree.Normal ∧ groupedTree.normalForm = plainTree.normalForm ∧
      renderedInside (sample.withTree "a" groupedTree) "a" =
        renderedInside (sample.withTree "a" plainTree) "a") ∧
    (Text.trim (DocTree.plainText [.text " z ", .link "none" [], .inclusion "none"]) =
        Text.trim (DocTree.plainText [.text "z"]) ∧
      renderedInside (sample.withTree "a"
          ([.text "xy"] ++ .link "a.b" [.text " z ", .link "none" [], .inclusion "none"] :: [])) "a" =
        renderedInside (sample.withTree "a" ([.text "xy"] ++ .link "a.b" [.text "z"] :: [])) "a") ∧
    sample.workspace.docTree? "a.b" = some [.text "y"] ∧
      renderedInside sample "a.b" = (.ok (), ⟨["e"], by simp⟩, ">y") := by
  intro renderedInside
  obtain ⟨hnormal, -, hcongr, hlabel, hprose⟩ := render_depends_on_normalForm sample
  have hform : groupedTree.normalForm = plainTree := by rfl
  have hplain : plainTree.Normal := hform ▸ (hnormal groupedTree).1
  have hsame : groupedTree.normalForm = plainTree.normalForm :=
    hform.trans ((hnormal plainTree).2 hplain).symm
  have htrim : Text.trim (DocTree.plainText [.text " z ", .link "none" [], .inclusion "none"]) =
      Text.trim (DocTree.plainText [.text "z"]) := by decide
  have hdoc : sample.workspace.docTree? "a.b" = some [.text "y"] := by rfl
  exact ⟨⟨hplain, hsame, hcongr "a" _ _ hsame "a" _⟩,
    ⟨htrim, hlabel "a" [.text "xy"] [] "a.b" _ _ htrim "a" _⟩, hdoc,
    hprose "a.b" _ hdoc (by decide) _ _ (by decide)⟩

end Renderer
end DocWeave
