import DocWeave.Proofs.Render.Splicing
import DocWeave.Proofs.Resolution.Agreement

/-!
# Modules that are not reached

What a module renders to depends on the effects of the modules that it reaches and on nothing else
(`render_congr`). New documentation or new imports of a module have an influence on the effects of
that module alone, so they are not seen by modules that do not reach it.
-/

namespace DocWeave

namespace Workspace

variable {x n : QualifiedName} {w w' w'' : Workspace}

/-- What can happen to the documentation and the imports of `x`. Only a declared module is declared
again. -/
inductive Edits (x : QualifiedName) : Workspace → Workspace → Prop where
  | document (w : Workspace) (doc : ModuleDoc) : Edits x w (w.setDoc x doc)
  | redeclare {w : Workspace} (imports : List Import) : x ∈ w.index.modules.keys →
    Edits x w (w.addModule { name := x, imports })

/-- The workspaces hold the same of everything that the rendering of `n` itself looks at. -/
structure SameAt (n : QualifiedName) (w w' : Workspace) : Prop where
  types : w'.index.types = w.index.types
  modules : ∀ name, w'.index.lookupModule? name = w.index.lookupModule? name
  imports : w'.index.imports n = w.index.imports n
  docTree : w'.docTree? n = w.docTree? n

theorem SameAt.trans (h : SameAt n w w') (h' : SameAt n w' w'') : SameAt n w w'' where
  types := h'.types.trans h.types
  modules name := (h'.modules name).trans (h.modules name)
  imports := h'.imports.trans h.imports
  docTree := h'.docTree.trans h.docTree

theorem sameAt_markGenerated (n : QualifiedName) (w : Workspace) (marked : QualifiedName) :
    SameAt n w (w.markGenerated marked) :=
  ⟨rfl, fun _ => rfl, rfl, rfl⟩

theorem docTree?_setDoc_of_ne (hn : n ≠ x) (doc : ModuleDoc) :
    (w.setDoc x doc).docTree? n = w.docTree? n := by
  rw [docTree?, docTree?, setDoc, Registry.find?_insert, if_neg hn.symm]

theorem imports_addModule_of_ne {decl : ModuleDecl} (hn : n ≠ decl.name) :
    (w.addModule decl).index.imports n = w.index.imports n := by
  simp only [addModule, SymbolIndex.addModule, SymbolIndex.imports, Registry.find?_insert,
    if_neg hn.symm]

/-- A module that is declared again is not a new one. -/
theorem lookupModule?_addModule_of_mem {decl : ModuleDecl}
    (hd : decl.name ∈ w.index.modules.keys) (name : QualifiedName) :
    (w.addModule decl).index.lookupModule? name = w.index.lookupModule? name := by
  ext found
  rw [SymbolIndex.lookupModule?_eq_some_iff, SymbolIndex.lookupModule?_eq_some_iff]
  simp only [addModule, SymbolIndex.addModule, Registry.keys_insert, if_pos hd]

theorem Edits.sameAt (h : Edits x w w') (hn : n ≠ x) : SameAt n w w' := by
  cases h with
  | document doc => exact ⟨rfl, fun _ => rfl, rfl, docTree?_setDoc_of_ne hn doc⟩
  | redeclare imports hd =>
    exact ⟨rfl, lookupModule?_addModule_of_mem hd, imports_addModule_of_ne hn, rfl⟩

theorem sameAt_of_edits (h : Relation.ReflTransGen (Edits x) w w') (hn : n ≠ x) :
    SameAt n w w' := by
  induction h with
  | refl => exact ⟨rfl, fun _ => rfl, rfl, rfl⟩
  | tail _ hedit ih => exact ih.trans (hedit.sameAt hn)

end Workspace

namespace Renderer

variable {r r' : Renderer} {module x n : QualifiedName} {w w' : Workspace}

/-- Only the effects of the modules that are reached count. -/
theorem render_congr (h : ∀ n, r.Reaches module n → r'.moduleEffects n = r.moduleEffects n)
    (s : IncludeStack × String) : r'.render module s = r.render module s :=
  render_of_runAlike (fun n hn => .of_eq (h n hn)) s

theorem renderModule_congr (h : ∀ n, r.Reaches module n → r'.moduleEffects n = r.moduleEffects n) :
    r'.renderModule module = r.renderModule module := by
  rw [renderModule, renderModule, render_congr h]

/-- The renderer of another workspace. -/
def withWorkspace (r : Renderer) (w : Workspace) : Renderer :=
  { r with workspace := w }

/-! ## Effects of the other modules -/

/-- Trees have the same effects where links and inclusions have. -/
theorem treeEffects_congr
    (hlink : ∀ signature label, r'.linkEffect n signature label = r.linkEffect n signature label)
    (hinclusion : ∀ target, r'.inclusionEffect n target = r.inclusionEffect n target) :
    ∀ nodes : DocTree, r'.treeEffects n nodes = r.treeEffects n nodes
  | [] => by rw [treeEffects, treeEffects]
  | node :: rest => by
    rw [treeEffects, treeEffects, treeEffects_congr hlink hinclusion rest]
    congr 1
    cases node with
    | text body => rw [nodeEffects, nodeEffects]
    | link signature label => rw [nodeEffects, nodeEffects, hlink]
    | container children =>
      rw [nodeEffects, nodeEffects, treeEffects_congr hlink hinclusion children]
    | inclusion target => rw [nodeEffects, nodeEffects, hinclusion]

theorem scopeOf_agrees (h : Workspace.SameAt n r.workspace w) :
    (r.scopeOf n).Agrees ((r.withWorkspace w).scopeOf n) where
  types := h.types
  modules := h.modules
  imports := h.imports
  module := rfl
  defaultNamespace := rfl

theorem linkEffect_of_agrees (h : (r.scopeOf n).Agrees ((r.withWorkspace w).scopeOf n))
    (signature : String) (label : DocTree) :
    (r.withWorkspace w).linkEffect n signature label = r.linkEffect n signature label := by
  have hsymbol : (r.withWorkspace w).symbolEffect = r.symbolEffect := rfl
  simp only [linkEffect, h.resolve?, hsymbol]

theorem inclusionEffect_of_agrees (h : (r.scopeOf n).Agrees ((r.withWorkspace w).scopeOf n))
    (target : String) :
    (r.withWorkspace w).inclusionEffect n target = r.inclusionEffect n target := by
  have hmodules : ∀ name, (r.withWorkspace w).workspace.index.lookupModule? name =
      r.workspace.index.lookupModule? name := h.modules
  simp only [inclusionEffect, hmodules]

/-- A tree has the same effects where names mean the same. -/
theorem treeEffects_of_agrees (h : (r.scopeOf n).Agrees ((r.withWorkspace w).scopeOf n))
    (nodes : DocTree) : (r.withWorkspace w).treeEffects n nodes = r.treeEffects n nodes :=
  treeEffects_congr (linkEffect_of_agrees h) (inclusionEffect_of_agrees h) nodes

theorem moduleEffects_of_sameAt (h : Workspace.SameAt n r.workspace w) :
    (r.withWorkspace w).moduleEffects n = r.moduleEffects n := by
  have hdoc : (r.withWorkspace w).workspace.docTree? n = r.workspace.docTree? n := h.docTree
  unfold moduleEffects
  rw [hdoc]
  cases r.workspace.docTree? n with
  | none => rfl
  | some nodes => exact treeEffects_of_agrees (scopeOf_agrees h) nodes

/-- New documentation of a module that is not reached, and new imports if it is declared, make no
difference: the text or the failure stays what it was, inside any modules on the stack and behind
any text. Nor does it make a difference to any module which ones are marked. -/
theorem render_of_unreached (r : Renderer) (module : QualifiedName) :
    (∀ x w, ¬ r.Reaches module x → Relation.ReflTransGen (Workspace.Edits x) r.workspace w →
      (r.withWorkspace w).renderModule module = r.renderModule module ∧
        ∀ s, (r.withWorkspace w).render module s = r.render module s) ∧
    ∀ marked, (r.withWorkspace (r.workspace.markGenerated marked)).renderModule module =
      r.renderModule module := by
  refine ⟨fun x w hx hedits => ?_, fun marked => ?_⟩
  · have heffects : ∀ n, r.Reaches module n →
        (r.withWorkspace w).moduleEffects n = r.moduleEffects n := by
      intro n hn
      have hne : n ≠ x := by
        rintro rfl
        exact hx hn
      exact moduleEffects_of_sameAt (Workspace.sameAt_of_edits hedits hne)
    exact ⟨renderModule_congr heffects, render_congr heffects⟩
  · exact renderModule_congr fun n _ =>
      moduleEffects_of_sameAt (Workspace.sameAt_markGenerated n r.workspace marked)

/-- `a` does not reach `c`. When `c` gets an import that cannot be split and a comment that asks for
it, `c` fails, but `a` renders as before; and so it does when `c` is marked. -/
theorem render_of_unreached_sample :
    let w := (sample.workspace.addModule { name := "c", imports := [{ path := "List" }] }).setDoc
      "c" (.comment "/** {@link Foo} */")
    (sample.withWorkspace w).renderModule "c" = .error (.malformedImport "c" "List") ∧
      ¬ sample.Reaches "a" "c" ∧
      Relation.ReflTransGen (Workspace.Edits "c") sample.workspace w ∧
      (sample.withWorkspace w).renderModule "a" = .ok "xy" ∧
      (sample.withWorkspace (sample.workspace.markGenerated "c")).renderModule "a" = .ok "xy" := by
  intro w
  have hunreached : ¬ sample.Reaches "a" "c" := by
    intro h
    have hmem := mem_of_sample_reaches h
    simp at hmem
  have hedits : Relation.ReflTransGen (Workspace.Edits "c") sample.workspace w :=
    (Relation.ReflTransGen.single (.redeclare [{ path := "List" }] (by decide))).tail
      (.document _ (.comment "/** {@link Foo} */"))
  have ha : sample.renderModule "a" = .ok "xy" := by decide +kernel
  obtain ⟨hedited, hmarked⟩ := render_of_unreached sample "a"
  refine ⟨?_, hunreached, hedits, ?_, ?_⟩
  · decide +kernel
  · rw [(hedited "c" w hunreached hedits).1, ha]
  · rw [hmarked, ha]

end Renderer
end DocWeave
