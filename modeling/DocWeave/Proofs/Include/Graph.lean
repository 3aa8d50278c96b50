import DocWeave.Render.Effect
import Mathlib.Logic.Relation

/-!
# The include graph

The active nodes of a module are its links and inclusions outside of labels. An active node that
leads to a declared module is an edge `r.Includes a b`; one that leads nowhere is broken. The lemmas
here read both off the effects of a module: a module splices exactly the modules that it includes,
and it holds a failure if and only if one of its active nodes is broken.
-/

namespace DocWeave

/-- The links and inclusions that are reached from the top level through groups alone. -/
inductive DocTree.Active : DocTree → DocNode → Prop where
  | link {nodes : DocTree} {signature : String} {label : DocTree} :
    .link signature label ∈ nodes → Active nodes (.link signature label)
  | inclusion {nodes : DocTree} {target : String} :
    .inclusion target ∈ nodes → Active nodes (.inclusion target)
  | group {nodes children : DocTree} {node : DocNode} :
    .container children ∈ nodes → Active children node → Active nodes node

theorem DocTree.Active.mono {nodes nodes' : DocTree} {node : DocNode} (h : Active nodes node)
    (hsub : ∀ n ∈ nodes, n ∈ nodes') : Active nodes' node := by
  cases h with
  | link hm => exact .link (hsub _ hm)
  | inclusion hm => exact .inclusion (hsub _ hm)
  | group hm h => exact .group (hsub _ hm) h

namespace Renderer

variable {r : Renderer} {a b : QualifiedName}

/-- A link or inclusion in the documentation of a module, outside of labels. -/
def Active (r : Renderer) (module : QualifiedName) (node : DocNode) : Prop :=
  ∃ nodes, r.workspace.docTree? module = some nodes ∧ DocTree.Active nodes node

/-- An active node of `a` leads to the declared module `b`. -/
inductive Includes (r : Renderer) (a b : QualifiedName) : Prop where
  | inclusion {target : String} (active : r.Active a (.inclusion target))
    (found : r.workspace.index.lookupModule? (QualifiedName.join a (Text.trim target)) = some b)
  | link {signature : String} {label : DocTree} {reference : Reference}
    (active : r.Active a (.link signature label))
    (parsed : Reference.parse signature = .ok reference) (bare : reference.isMember = false)
    (found : (r.scopeOf a).resolve? reference = .ok (some (.module b)))

/-- `b` is `a` or is included in it, perhaps through other modules. -/
abbrev Reaches (r : Renderer) : QualifiedName → QualifiedName → Prop :=
  Relation.ReflTransGen r.Includes

/-- A node of `module` that leads nowhere. -/
inductive Broken (r : Renderer) (module : QualifiedName) : DocNode → Prop where
  | undeclared {target : String} :
    r.workspace.index.lookupModule? (QualifiedName.join module (Text.trim target)) = none →
    Broken r module (.inclusion target)
  | malformed {signature : String} {label : DocTree} {cause : ReferenceError} :
    Reference.parse signature = .error cause → Broken r module (.link signature label)
  | notFound {signature : String} {label : DocTree} {reference : Reference} :
    Reference.parse signature = .ok reference →
    (r.scopeOf module).resolve? reference = .ok none → Broken r module (.link signature label)
  | unresolved {signature : String} {label : DocTree} {reference : Reference} {e : DocError} :
    Reference.parse signature = .ok reference →
    (r.scopeOf module).resolve? reference = .error e → Broken r module (.link signature label)

/-! ## Effects of active nodes -/

theorem treeEffects_eq_flatMap (r : Renderer) (a : QualifiedName) (nodes : DocTree) :
    r.treeEffects a nodes = nodes.flatMap (r.nodeEffects a) := by
  induction nodes with
  | nil => simp [treeEffects]
  | cons node rest ih => rw [treeEffects, ih, List.flatMap_cons]

/-- A module has the effects of its active nodes. -/
theorem mem_treeEffects_of_active {nodes : DocTree} {node : DocNode} {effect : Effect}
    (h : DocTree.Active nodes node) (he : effect ∈ r.nodeEffects a node) :
    effect ∈ r.treeEffects a nodes := by
  induction h with
  | link hm | inclusion hm =>
    rw [treeEffects_eq_flatMap]
    exact List.mem_flatMap.2 ⟨_, hm, he⟩
  | group hm _ ih =>
    rw [treeEffects_eq_flatMap]
    refine List.mem_flatMap.2 ⟨_, hm, ?_⟩
    rw [nodeEffects]
    exact ih he

/-- Every effect but text comes from an active node. -/
theorem active_of_mem_treeEffects {effect : Effect} (hne : ∀ text, effect ≠ .emit text) :
    ∀ {nodes : DocTree}, effect ∈ r.treeEffects a nodes →
      (∃ signature label, DocTree.Active nodes (.link signature label) ∧
        effect = r.linkEffect a signature label) ∨
      ∃ target, DocTree.Active nodes (.inclusion target) ∧ effect = r.inclusionEffect a target
  | [], h => by simp [treeEffects] at h
  | node :: rest, h => by
    rw [treeEffects, List.mem_append] at h
    rcases h with h | h
    · cases node with
      | text body => exact (hne body (by simpa [nodeEffects] using h)).elim
      | link signature label =>
        exact .inl ⟨signature, label, .link List.mem_cons_self, by simpa [nodeEffects] using h⟩
      | inclusion target =>
        exact .inr ⟨target, .inclusion List.mem_cons_self, by simpa [nodeEffects] using h⟩
      | container children =>
        rw [nodeEffects] at h
        rcases active_of_mem_treeEffects hne h with ⟨s, l, hactive, he⟩ | ⟨t, hactive, he⟩
        · exact .inl ⟨s, l, .group List.mem_cons_self hactive, he⟩
        · exact .inr ⟨t, .group List.mem_cons_self hactive, he⟩
    · have hsub : ∀ n ∈ rest, n ∈ node :: rest := fun _ => List.mem_cons_of_mem _
      rcases active_of_mem_treeEffects hne h with ⟨s, l, hactive, he⟩ | ⟨t, hactive, he⟩
      · exact .inl ⟨s, l, hactive.mono hsub, he⟩
      · exact .inr ⟨t, hactive.mono hsub, he⟩

theorem mem_moduleEffects_iff {effect : Effect} (hne : ∀ text, effect ≠ .emit text) :
    effect ∈ r.moduleEffects a ↔
      (∃ signature label, r.Active a (.link signature label) ∧
        effect = r.linkEffect a signature label) ∨
      ∃ target, r.Active a (.inclusion target) ∧ effect = r.inclusionEffect a target := by
  unfold moduleEffects
  constructor
  · intro h
    split at h
    · rename_i nodes hdoc
      rcases active_of_mem_treeEffects hne h with ⟨s, l, hactive, he⟩ | ⟨t, hactive, he⟩
      · exact .inl ⟨s, l, ⟨nodes, hdoc, hactive⟩, he⟩
      · exact .inr ⟨t, ⟨nodes, hdoc, hactive⟩, he⟩
    · cases h
  · rintro (⟨s, l, ⟨nodes, hdoc, hactive⟩, rfl⟩ | ⟨t, ⟨nodes, hdoc, hactive⟩, rfl⟩) <;> rw [hdoc]
    · exact mem_treeEffects_of_active hactive (by simp [nodeEffects])
    · exact mem_treeEffects_of_active hactive (by simp [nodeEffects])

/-! ## Links and inclusions -/

/-- Only a reference without a member leads to a module, and the module is declared. -/
theorem lookupModule?_of_resolve? {scope : Scope} {reference : Reference}
    (h : scope.resolve? reference = .ok (some (.module b))) :
    reference.isMember = false ∧ scope.index.lookupModule? reference.target = some b := by
  unfold Scope.resolve? at h
  split at h
  · cases h
  · rename_i found _
    split at h
    · -- a member leads to a method or a field
      cases found with
      | none => cases h
      | some owner =>
        rcases hm : scope.resolveMember? owner reference with e | _ | member
        · simp [hm, Except.map] at h
        · simp [hm, Except.map] at h
        · by_cases hf : member.isField = true <;>
            simp [hm, Except.map, Scope.memberSymbol, hf] at h
    · rename_i hmember
      cases found with
      | some type => simp at h
      | none => exact ⟨by simpa using hmember, by simpa using h⟩

/-- Among the effects of symbols, only that of a module is a splice. -/
theorem symbolEffect_eq_splice_iff {symbol : Symbol} {label : DocTree} :
    r.symbolEffect symbol label = .splice b ↔ symbol = .module b := by
  cases symbol <;> simp [symbolEffect]

theorem symbolEffect_ne_fail (symbol : Symbol) (label : DocTree) (e : DocError) :
    r.symbolEffect symbol label ≠ .fail e := by
  cases symbol <;> simp [symbolEffect]

theorem linkEffect_eq_splice_iff {signature : String} {label : DocTree} :
    r.linkEffect a signature label = .splice b ↔
      ∃ reference, Reference.parse signature = .ok reference ∧
        (r.scopeOf a).resolve? reference = .ok (some (.module b)) := by
  unfold linkEffect
  cases hp : Reference.parse signature with
  | error cause => simp
  | ok reference =>
    rcases hr : (r.scopeOf a).resolve? reference with e | _ | symbol
    · simp [hr]
    · simp [hr]
    · simp [hr, symbolEffect_eq_splice_iff]

theorem inclusionEffect_eq_splice_iff {target : String} :
    r.inclusionEffect a target = .splice b ↔
      r.workspace.index.lookupModule? (QualifiedName.join a (Text.trim target)) = some b := by
  rw [inclusionEffect]
  split <;> simp [*]

/-- A link fails because it is malformed, because its reference cannot be resolved, or because there
is nothing that it refers to. -/
theorem linkEffect_eq_fail_iff {signature : String} {label : DocTree} {e : DocError} :
    r.linkEffect a signature label = .fail e ↔
      (∃ cause, Reference.parse signature = .error cause ∧
        e = .malformedReference a signature cause) ∨
      ∃ reference, Reference.parse signature = .ok reference ∧
        ((r.scopeOf a).resolve? reference = .error e ∨
          (r.scopeOf a).resolve? reference = .ok none ∧ e = .unresolvedLink a signature) := by
  unfold linkEffect
  cases hp : Reference.parse signature with
  | error cause => simp [eq_comm]
  | ok reference =>
    rcases hr : (r.scopeOf a).resolve? reference with e' | _ | symbol
    · simp [hr]
    · simp [hr, eq_comm]
    · simp [hr, symbolEffect_ne_fail]

theorem inclusionEffect_eq_fail_iff {target : String} {e : DocError} :
    r.inclusionEffect a target = .fail e ↔
      r.workspace.index.lookupModule? (QualifiedName.join a (Text.trim target)) = none ∧
        e = .missingModule a (QualifiedName.join a (Text.trim target)) := by
  rw [inclusionEffect]
  split <;> simp [*, eq_comm]

theorem exists_linkEffect_eq_fail_iff {signature : String} {label : DocTree} :
    (∃ e, r.linkEffect a signature label = .fail e) ↔ r.Broken a (.link signature label) := by
  constructor
  · rintro ⟨e, h⟩
    rcases linkEffect_eq_fail_iff.1 h with ⟨cause, hp, -⟩ | ⟨reference, hp, hr | ⟨hr, -⟩⟩
    · exact .malformed hp
    · exact .unresolved hp hr
    · exact .notFound hp hr
  · intro h
    cases h with
    | malformed hp => exact ⟨_, linkEffect_eq_fail_iff.2 (.inl ⟨_, hp, rfl⟩)⟩
    | notFound hp hr => exact ⟨_, linkEffect_eq_fail_iff.2 (.inr ⟨_, hp, .inr ⟨hr, rfl⟩⟩)⟩
    | unresolved hp hr => exact ⟨_, linkEffect_eq_fail_iff.2 (.inr ⟨_, hp, .inl hr⟩)⟩

theorem exists_inclusionEffect_eq_fail_iff {target : String} :
    (∃ e, r.inclusionEffect a target = .fail e) ↔ r.Broken a (.inclusion target) := by
  constructor
  · rintro ⟨e, h⟩
    exact .undeclared (inclusionEffect_eq_fail_iff.1 h).1
  · rintro ⟨hl⟩
    exact ⟨_, inclusionEffect_eq_fail_iff.2 ⟨hl, rfl⟩⟩

/-! ## Edges and failures in the effects of a module -/

theorem splice_mem_moduleEffects_iff : .splice b ∈ r.moduleEffects a ↔ r.Includes a b := by
  rw [mem_moduleEffects_iff (by simp)]
  constructor
  · rintro (⟨s, l, hactive, he⟩ | ⟨t, hactive, he⟩)
    · obtain ⟨reference, hp, hr⟩ := linkEffect_eq_splice_iff.1 he.symm
      exact .link hactive hp (lookupModule?_of_resolve? hr).1 hr
    · exact .inclusion hactive (inclusionEffect_eq_splice_iff.1 he.symm)
  · rintro (⟨hactive, hl⟩ | ⟨hactive, hp, -, hr⟩)
    · exact .inr ⟨_, hactive, (inclusionEffect_eq_splice_iff.2 hl).symm⟩
    · exact .inl ⟨_, _, hactive, (linkEffect_eq_splice_iff.2 ⟨_, hp, hr⟩).symm⟩

theorem exists_fail_mem_moduleEffects_iff :
    (∃ e, .fail e ∈ r.moduleEffects a) ↔ ∃ node, r.Active a node ∧ r.Broken a node := by
  constructor
  · rintro ⟨e, h⟩
    rcases (mem_moduleEffects_iff (by simp)).1 h with ⟨s, l, hactive, he⟩ | ⟨t, hactive, he⟩
    · exact ⟨_, hactive, exists_linkEffect_eq_fail_iff.1 ⟨e, he.symm⟩⟩
    · exact ⟨_, hactive, exists_inclusionEffect_eq_fail_iff.1 ⟨e, he.symm⟩⟩
  · rintro ⟨node, hactive, hbroken⟩
    cases node with
    | link s l =>
      obtain ⟨e, he⟩ := exists_linkEffect_eq_fail_iff.2 hbroken
      exact ⟨e, (mem_moduleEffects_iff (by simp)).2 (.inl ⟨s, l, hactive, he.symm⟩)⟩
    | inclusion t =>
      obtain ⟨e, he⟩ := exists_inclusionEffect_eq_fail_iff.2 hbroken
      exact ⟨e, (mem_moduleEffects_iff (by simp)).2 (.inr ⟨t, hactive, he.symm⟩)⟩
    | text body | container children => cases hbroken

theorem Includes.declared (h : r.Includes a b) : b ∈ r.workspace.index.modules.keys := by
  cases h with
  | inclusion _ hl => exact SymbolIndex.mem_keys_of_lookupModule? hl
  | link _ _ _ hr => exact SymbolIndex.mem_keys_of_lookupModule? (lookupModule?_of_resolve? hr).2

end Renderer
end DocWeave
