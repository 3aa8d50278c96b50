import DocWeave.Description
import DocWeave.Proofs.Workspace.History
import Mathlib.Data.List.Induction

/-!
# Descriptions as histories

A description is turned into a workspace by two runs over its entries, and both put an entry only if
its key is new (`putNew`): the first entry that repeats a key is the failure, and without one all
entries are put. So a description that is accepted is a history written down, in which nothing is
ever replaced.
-/

namespace DocWeave

/-! ## Entries with new keys -/

section NewEntries

variable {σ α : Type} {key : α → String} {seen : σ → String → Bool} {put : σ → α → σ}
  {fault : String → LoadError} {s : σ} {as : List α} {a : α}

/-- The entry is the first one whose key an earlier entry has. -/
def FirstRepeat (key : α → String) (as : List α) (a : α) : Prop :=
  ∃ before after, as = before ++ a :: after ∧ (before.map key).Nodup ∧ key a ∈ before.map key

theorem exists_firstRepeat (h : ¬ (as.map key).Nodup) : ∃ a, FirstRepeat key as a := by
  induction as using List.reverseRecOn with
  | nil => exact absurd List.nodup_nil h
  | append_singleton as a ih =>
    by_cases hnodup : (as.map key).Nodup
    · refine ⟨a, as, [], rfl, hnodup, ?_⟩
      by_contra hnew
      apply h
      rw [List.map_append, List.nodup_append]
      refine ⟨hnodup, by simp, fun k hk k' hk' => ?_⟩
      obtain rfl : k' = key a := by simpa using hk'
      rintro rfl
      exact hnew hk
    · obtain ⟨b, before, after, rfl, hbefore, hmem⟩ := ih hnodup
      exact ⟨b, before, after ++ [a], by simp, hbefore, hmem⟩

/-- Entries with distinct keys are singled out by their keys. -/
theorem filter_key_of_nodup (h : (as.map key).Nodup) (ha : a ∈ as) :
    as.filter (key · == key a) = [a] := by
  induction as with
  | nil => cases ha
  | cons b as ih =>
    rw [List.map_cons, List.nodup_cons] at h
    rcases List.mem_cons.1 ha with rfl | ha
    · have hrest : as.filter (key · == key a) = [] := by
        refine List.filter_eq_nil_iff.2 fun c hc hkey => h.1 ?_
        rw [← eq_of_beq hkey]
        exact List.mem_map_of_mem hc
      rw [List.filter_cons_of_pos (by simp), hrest]
    · have hne : key b ≠ key a := fun heq => h.1 (heq ▸ List.mem_map_of_mem ha)
      rw [List.filter_cons_of_neg (by simpa using hne), ih h.2 ha]

theorem eraseDups_of_nodup {names : List String} (h : names.Nodup) : names.eraseDups = names := by
  induction names with
  | nil => rfl
  | cons name names ih =>
    rw [List.nodup_cons] at h
    have hrest : names.filter (!· == name) = names :=
      List.filter_eq_self.2 fun other hother => by
        rw [Bool.not_eq_true', beq_eq_false_iff_ne]
        rintro rfl
        exact h.1 hother
    rw [List.eraseDups_cons, hrest, ih h.2]

/-- Puts an entry whose key was not seen before. -/
def putNew (key : α → String) (seen : σ → String → Bool) (put : σ → α → σ)
    (fault : String → LoadError) (s : σ) (a : α) : Except LoadError σ :=
  if seen s (key a) then .error (fault (key a)) else .ok (put s a)

section

variable (hnone : ∀ k, seen s k = false)
  (hput : ∀ s a k, seen (put s a) k = true ↔ k = key a ∨ seen s k = true)

include hnone hput

/-- From a state that has seen nothing, the keys that are seen are those that were put. -/
theorem seen_foldl (as : List α) (k : String) :
    seen (as.foldl put s) k = true ↔ k ∈ as.map key := by
  induction as using List.reverseRecOn with
  | nil => simp [hnone]
  | append_singleton as a ih =>
    rw [List.foldl_append, List.foldl_cons, List.foldl_nil, hput, ih]
    simp [or_comm]

theorem foldlM_putNew_of_nodup (h : (as.map key).Nodup) :
    as.foldlM (putNew key seen put fault) s = .ok (as.foldl put s) := by
  induction as using List.reverseRecOn with
  | nil => rfl
  | append_singleton as a ih =>
    rw [List.map_append, List.nodup_append] at h
    have hnew : ¬ seen (as.foldl put s) (key a) = true := by
      rw [seen_foldl hnone hput]
      exact fun hmem => h.2.2 _ hmem _ List.mem_cons_self rfl
    rw [List.foldlM_append, ih h.1, List.foldl_append]
    change putNew key seen put fault (as.foldl put s) a >>= pure = _
    rw [putNew, if_neg hnew]
    rfl

theorem foldlM_putNew_of_firstRepeat (h : FirstRepeat key as a) :
    as.foldlM (putNew key seen put fault) s = .error (fault (key a)) := by
  obtain ⟨before, after, rfl, hnodup, hmem⟩ := h
  rw [List.foldlM_append, foldlM_putNew_of_nodup hnone hput hnodup]
  change putNew key seen put fault (before.foldl put s) a >>= _ = _
  rw [putNew, if_pos ((seen_foldl hnone hput before (key a)).2 hmem)]
  rfl

end

end NewEntries

/-! ## The history of a description -/

open Workspace (Step)

/-- What an entry for a module asks to be done. -/
def ModuleEntry.steps (entry : ModuleEntry) : List Step :=
  .addModule entry.decl :: (entry.doc?.toList.map fun raw => .setDoc entry.name (.comment raw)) ++
    if entry.generate then [.markGenerated entry.name] else []

namespace Description

/-- The types that are described, and then the modules. -/
def history (description : Description) : List Step :=
  description.types.map (fun entry => .addType entry.decl) ++
    description.modules.flatMap ModuleEntry.steps

/-- The empty workspace with the configuration that is described, or else the standard one. -/
def start (description : Description) : Workspace where
  config := description.config?.getD {}

end Description

variable {description : Description} {entry : ModuleEntry}

theorem ModuleEntry.filterMap_steps (entry : ModuleEntry) :
    entry.steps.filterMap Step.addedType? = [] ∧
    entry.steps.filterMap Step.addedModule? = [entry.decl] ∧
    entry.steps.filterMap Step.doc? =
      (entry.doc?.map fun raw => (entry.name, ModuleDoc.comment raw)).toList ∧
    entry.steps.filterMap Step.mark? = if entry.generate then [entry.name] else [] := by
  unfold steps
  cases entry.doc? <;> cases entry.generate <;> exact ⟨rfl, rfl, rfl, rfl⟩

theorem Workspace.addNewType_eq : Workspace.addNewType = putNew TypeEntry.name
    (fun w name => w.index.hasType name) (fun w entry => w.addType entry.decl) .duplicateType :=
  rfl

theorem Workspace.addEntry_eq : Workspace.addEntry = putNew ModuleEntry.name
    (fun w name => w.index.hasModule name) (fun w entry => w.run entry.steps)
    .duplicateModule := by
  funext w entry
  rw [Workspace.addEntry, putNew, ModuleEntry.steps]
  cases entry.doc? <;> cases entry.generate <;> rfl

theorem Workspace.hasType_addType_decl (w : Workspace) (entry : TypeEntry)
    (name : QualifiedName) : (w.addType entry.decl).index.hasType name = true ↔
      name = entry.name ∨ w.index.hasType name = true := by
  rw [SymbolIndex.hasType, SymbolIndex.hasType, Registry.contains_eq_true_iff,
    Registry.contains_eq_true_iff, entry.decl_eq]
  exact Registry.mem_keys_insert

theorem Workspace.hasModule_run_steps (w : Workspace) (entry : ModuleEntry)
    (name : QualifiedName) : (w.run entry.steps).index.hasModule name = true ↔
      name = entry.name ∨ w.index.hasModule name = true := by
  obtain ⟨-, hmodules, -, -⟩ := entry.filterMap_steps
  rw [SymbolIndex.hasModule, SymbolIndex.hasModule, Registry.contains_eq_true_iff,
    Registry.contains_eq_true_iff, run_eq, addedModules, hmodules]
  exact Registry.mem_keys_insert

namespace Description

theorem filterMap_history {β : Type} (f : Step → Option β) : description.history.filterMap f =
    (description.types.filterMap fun entry => f (.addType entry.decl)) ++
      description.modules.flatMap fun entry => entry.steps.filterMap f := by
  rw [history, List.filterMap_append, List.filterMap_map, List.filterMap_flatMap]
  rfl

theorem addedTypes_history :
    Workspace.addedTypes description.history = description.types.map TypeEntry.decl := by
  rw [Workspace.addedTypes, filterMap_history]
  simp [Step.addedType?, ModuleEntry.filterMap_steps]

theorem addedModules_history :
    Workspace.addedModules description.history = description.modules.map ModuleEntry.decl := by
  rw [Workspace.addedModules, filterMap_history]
  simp [Step.addedModule?, ModuleEntry.filterMap_steps, List.map_eq_flatMap]

theorem docsSet_history :
    Workspace.docsSet description.history = description.modules.filterMap fun entry =>
      entry.doc?.map fun raw => (entry.name, .comment raw) := by
  rw [Workspace.docsSet, filterMap_history]
  simp only [Step.doc?, List.filterMap_none, List.nil_append, ModuleEntry.filterMap_steps]
  rw [List.filterMap_eq_flatMap_toList]

theorem filter_docsSet_history (module : QualifiedName) :
    (Workspace.docsSet description.history).filter (·.1 == module) =
      (description.modules.filter (·.name == module)).filterMap fun entry =>
        entry.doc?.map fun raw => (entry.name, .comment raw) := by
  rw [docsSet_history, List.filter_filterMap, List.filterMap_filter]
  congr 1
  funext entry
  cases entry.doc? with
  | none => simp
  | some raw => by_cases h : entry.name = module <;> simp [h]

theorem marksMade_history : Workspace.marksMade description.history =
    (description.modules.filter (·.generate)).map ModuleEntry.name := by
  rw [Workspace.marksMade, filterMap_history]
  simp only [Step.mark?, List.filterMap_none, List.nil_append, ModuleEntry.filterMap_steps]
  induction description.modules with
  | nil => rfl
  | cons entry modules ih =>
    rw [List.flatMap_cons, ih]
    cases hgenerate : entry.generate <;> simp [hgenerate]

/-! ## Acceptance and refusal -/

/-- The workspace with the types that are described, before any module is added. -/
def withTypes (description : Description) : Workspace :=
  description.types.foldl (fun w entry => w.addType entry.decl) description.start

theorem hasModule_withTypes (description : Description) (name : QualifiedName) :
    description.withTypes.index.hasModule name = false := by
  have hsteps : description.withTypes =
      description.start.run (description.types.map fun entry => .addType entry.decl) := by
    rw [Workspace.run, List.foldl_map]
    rfl
  have hnone :
      Workspace.addedModules (description.types.map fun entry => .addType entry.decl) = [] := by
    simp [Workspace.addedModules, List.filterMap_map, Function.comp_def, Step.addedModule?]
  rw [hsteps, Workspace.run_eq, hnone]
  rfl

theorem run_history (description : Description) : description.start.run description.history =
    description.modules.foldl (fun w entry => w.run entry.steps) description.withTypes := by
  rw [history, Workspace.run, List.foldl_append, List.foldl_map, List.foldl_flatMap]
  rfl

theorem build_eq (description : Description) : description.build =
    description.types.foldlM Workspace.addNewType description.start >>= fun w =>
      description.modules.foldlM Workspace.addEntry w :=
  rfl

theorem foldlM_addNewType (h : (description.types.map TypeEntry.name).Nodup) :
    description.types.foldlM Workspace.addNewType description.start =
      .ok description.withTypes := by
  rw [Workspace.addNewType_eq]
  exact foldlM_putNew_of_nodup (fun _ => rfl) Workspace.hasType_addType_decl h

theorem build_of_nodup (htypes : (description.types.map TypeEntry.name).Nodup)
    (hmodules : (description.modules.map ModuleEntry.name).Nodup) :
    description.build = .ok (description.start.run description.history) := by
  rw [build_eq, foldlM_addNewType htypes, Workspace.addEntry_eq, run_history]
  exact foldlM_putNew_of_nodup description.hasModule_withTypes
    Workspace.hasModule_run_steps hmodules

theorem build_of_repeated_type {entry : TypeEntry}
    (h : FirstRepeat TypeEntry.name description.types entry) :
    description.build = .error (.duplicateType entry.name) := by
  rw [build_eq, Workspace.addNewType_eq,
    foldlM_putNew_of_firstRepeat (fun _ => rfl) Workspace.hasType_addType_decl h]
  rfl

theorem build_of_repeated_module (htypes : (description.types.map TypeEntry.name).Nodup)
    (h : FirstRepeat ModuleEntry.name description.modules entry) :
    description.build = .error (.duplicateModule entry.name) := by
  rw [build_eq, foldlM_addNewType htypes, Workspace.addEntry_eq]
  exact foldlM_putNew_of_firstRepeat description.hasModule_withTypes
    Workspace.hasModule_run_steps h

theorem exists_build_iff : (∃ w, description.build = .ok w) ↔
    (description.types.map TypeEntry.name).Nodup ∧
      (description.modules.map ModuleEntry.name).Nodup := by
  constructor
  · rintro ⟨w, hbuild⟩
    have htypes : (description.types.map TypeEntry.name).Nodup := by
      by_contra hrepeat
      obtain ⟨entry, hentry⟩ := exists_firstRepeat hrepeat
      cases hbuild.symm.trans (build_of_repeated_type hentry)
    refine ⟨htypes, ?_⟩
    by_contra hrepeat
    obtain ⟨entry, hentry⟩ := exists_firstRepeat hrepeat
    cases hbuild.symm.trans (build_of_repeated_module htypes hentry)
  · rintro ⟨htypes, hmodules⟩
    exact ⟨_, build_of_nodup htypes hmodules⟩

theorem build_eq_error_iff (fault : LoadError) : description.build = .error fault ↔
    (∃ entry, FirstRepeat TypeEntry.name description.types entry ∧
      fault = .duplicateType entry.name) ∨
    (description.types.map TypeEntry.name).Nodup ∧
      ∃ entry, FirstRepeat ModuleEntry.name description.modules entry ∧
        fault = .duplicateModule entry.name := by
  constructor
  · intro hbuild
    by_cases htypes : (description.types.map TypeEntry.name).Nodup
    · have hmodules : ¬ (description.modules.map ModuleEntry.name).Nodup := by
        intro hmodules
        cases hbuild.symm.trans (build_of_nodup htypes hmodules)
      obtain ⟨entry, hentry⟩ := exists_firstRepeat hmodules
      cases hbuild.symm.trans (build_of_repeated_module htypes hentry)
      exact .inr ⟨htypes, entry, hentry, rfl⟩
    · obtain ⟨entry, hentry⟩ := exists_firstRepeat htypes
      cases hbuild.symm.trans (build_of_repeated_type hentry)
      exact .inl ⟨entry, hentry, rfl⟩
  · rintro (⟨entry, hentry, rfl⟩ | ⟨htypes, entry, hentry, rfl⟩)
    · exact build_of_repeated_type hentry
    · exact build_of_repeated_module htypes hentry

/-! ## Faithfulness -/

/-- The workspace holds what is described, in the order in which it is described, and no more. -/
structure Describes (description : Description) (w : Workspace) : Prop where
  config : w.config = description.config?.getD {}
  types : w.index.types.entries = description.types.map TypeEntry.decl
  modules : w.index.modules.entries = description.modules.map ModuleEntry.decl
  typeDecl : ∀ entry ∈ description.types, w.index.types.find? entry.name = some {
    name := entry.name
    supertypes := entry.supertypes
    members := entry.members.map fun m => { name := m.name, kind := m.kind, params := m.params } }
  members : ∀ entry ∈ description.types, w.index.membersOf entry.name =
    entry.members.map fun m =>
      { name := m.name, kind := m.kind, params := m.params, owner := entry.name }
  imports : ∀ entry ∈ description.modules, w.index.imports entry.name =
    entry.imports.map (fun path => ({ path } : Import)) ++
      entry.staticImports.map fun path => { path, isStatic := true }
  docTree : ∀ entry ∈ description.modules, w.docTree? entry.name =
    entry.doc?.map (Comment.parse (description.config?.getD {}))
  noDocTree : ∀ module ∉ description.modules.map ModuleEntry.name, w.docTree? module = none
  discover : w.discover = (description.modules.filter (·.generate)).map ModuleEntry.name

theorem answers_start (description : Description) :
    Workspace.Answers (description.config?.getD {}) description.history
      (description.start.run description.history) :=
  Workspace.answers_run ..

theorem describes_run_history (htypes : (description.types.map TypeEntry.name).Nodup)
    (hmodules : (description.modules.map ModuleEntry.name).Nodup) :
    description.Describes (description.start.run description.history) := by
  have hanswers := description.answers_start
  have hdecls : (description.modules.map ModuleEntry.decl).map ModuleDecl.name =
      description.modules.map ModuleEntry.name := by
    rw [List.map_map]
    rfl
  have htypeDecls : (description.types.map TypeEntry.decl).map TypeDecl.name =
      description.types.map TypeEntry.name := by
    rw [List.map_map]
    exact List.map_congr_left fun entry _ => entry.name_decl
  have hfind : ∀ entry ∈ description.types,
      (description.start.run description.history).index.types.find? entry.name =
        some entry.decl := by
    intro entry hentry
    rw [hanswers.typeDecl, addedTypes_history, ← entry.name_decl,
      filter_key_of_nodup (htypeDecls ▸ htypes) (List.mem_map_of_mem hentry)]
    rfl
  constructor
  case config => exact hanswers.sameConfig
  case types =>
    rw [Workspace.run_eq, addedTypes_history]
    exact Registry.entries_foldl_insert_empty (htypeDecls ▸ htypes)
  case modules =>
    rw [Workspace.run_eq, addedModules_history]
    exact Registry.entries_foldl_insert_empty (hdecls ▸ hmodules)
  case typeDecl =>
    intro entry hentry
    rw [hfind entry hentry, entry.decl_eq]
  case members =>
    intro entry hentry
    rw [SymbolIndex.membersOf, hfind entry hentry, entry.decl_eq]
    exact List.map_map ..
  case imports =>
    intro entry hentry
    have hmodule : ((description.modules.map ModuleEntry.decl).filter (·.name == entry.name)) =
        [entry.decl] :=
      filter_key_of_nodup (hdecls ▸ hmodules) (List.mem_map_of_mem hentry)
    rw [hanswers.imports, addedModules_history, hmodule]
    rfl
  case docTree =>
    intro entry hentry
    rw [hanswers.docTree, filter_docsSet_history, filter_key_of_nodup hmodules hentry]
    cases hdoc : entry.doc? <;> simp [hdoc, ModuleDoc.nodes]
  case noDocTree =>
    intro module hmodule
    have hnone : description.modules.filter (·.name == module) = [] := by
      refine List.filter_eq_nil_iff.2 fun entry hentry hname => hmodule ?_
      exact eq_of_beq hname ▸ List.mem_map_of_mem hentry
    rw [hanswers.docTree, filter_docsSet_history, hnone]
    rfl
  case discover =>
    have hmarks : ((description.modules.filter (·.generate)).map ModuleEntry.name).Nodup :=
      hmodules.sublist (List.filter_sublist.map _)
    rw [hanswers.discover, marksMade_history, addedModules_history, hdecls,
      eraseDups_of_nodup hmarks]
    refine List.filter_eq_self.2 fun module hmodule => decide_eq_true ?_
    exact (List.filter_sublist.map _).subset hmodule

/-- A description is accepted if no two types and no two modules have the same name, and the
workspace is then the one that is described. Otherwise the first type that repeats an earlier one is
reported, or, if the types are distinct, the first such module. -/
theorem build_faithful_or_rejected (description : Description) :
    ((∃ w, description.build = .ok w) ↔ (description.types.map TypeEntry.name).Nodup ∧
      (description.modules.map ModuleEntry.name).Nodup) ∧
    (∀ fault, description.build = .error fault ↔
      (∃ entry, FirstRepeat TypeEntry.name description.types entry ∧
        fault = .duplicateType entry.name) ∨
      (description.types.map TypeEntry.name).Nodup ∧
        ∃ entry, FirstRepeat ModuleEntry.name description.modules entry ∧
          fault = .duplicateModule entry.name) ∧
    ∀ w, description.build = .ok w → description.Describes w := by
  refine ⟨exists_build_iff, build_eq_error_iff, fun w hbuild => ?_⟩
  obtain ⟨htypes, hmodules⟩ := exists_build_iff.1 ⟨w, hbuild⟩
  cases hbuild.symm.trans (build_of_nodup htypes hmodules)
  exact describes_run_history htypes hmodules

/-- A type and a module may share a name; of the modules that are repeated, `n` is the first one. -/
theorem build_faithful_or_rejected_shared :
    let shared : Description := {
      types := [{ name := "p.A", supertypes := ["p.B"], members := [
        { name := "f", kind := .field },
        { name := "m", kind := .method, params := [.primitive .int] }] }]
      modules := [{ name := "m" }, { name := "p.A", doc? := some "t", generate := true }] }
    let repeated : Description := { shared with
      modules := [{ name := "m" }, { name := "n" }, { name := "n" }, { name := "m" }] }
    (∃ w, shared.build = .ok w ∧ shared.Describes w ∧ w.discover = ["p.A"] ∧
        w.index.membersOf "p.A" = [
          { name := "f", kind := .field, owner := "p.A" },
          { name := "m", kind := .method, params := [.primitive .int], owner := "p.A" }]) ∧
      repeated.build = .error (.duplicateModule "n") := by
  intro shared repeated
  obtain ⟨haccepted, -, hfaithful⟩ := build_faithful_or_rejected shared
  obtain ⟨w, hbuild⟩ := haccepted.2 (by decide)
  have hdescribes := hfaithful w hbuild
  refine ⟨⟨w, hbuild, hdescribes, hdescribes.discover,
    hdescribes.members _ List.mem_cons_self⟩, ?_⟩
  have hfirst : FirstRepeat ModuleEntry.name repeated.modules { name := "n" } :=
    ⟨[{ name := "m" }, { name := "n" }], [{ name := "m" }], rfl, by decide, by decide⟩
  exact ((build_faithful_or_rejected repeated).2.1 _).2 (.inr ⟨by decide, _, hfirst, rfl⟩)

end Description
end DocWeave
