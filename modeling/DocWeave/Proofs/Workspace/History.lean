import DocWeave.Proofs.Members.Enumeration
import DocWeave.Workspace

/-!
# What a workspace remembers of its history

A workspace is made by steps that declare types and modules, set documentation and mark modules.
Each kind of step writes to a registry of its own (`run_eq`), so steps of different kinds can be
swapped. Of the steps of one kind the last one for a name counts, but the name keeps the place that
the first one gave it. What joins the registries is asked of them at the end: marks and
documentation may come before the declaration.
-/

namespace DocWeave.Workspace

/-- What can be done to a workspace. Documentation is set as a comment or as a tree. -/
inductive Step where
  | addType (decl : TypeDecl)
  | addModule (decl : ModuleDecl)
  | setDoc (module : QualifiedName) (doc : ModuleDoc)
  | markGenerated (module : QualifiedName)

namespace Step

inductive Kind where
  | type | module | doc | mark
  deriving DecidableEq

def kind : Step → Kind
  | addType _ => .type
  | addModule _ => .module
  | setDoc _ _ => .doc
  | markGenerated _ => .mark

/-- The name that the step is about. -/
def name : Step → QualifiedName
  | addType decl => decl.name
  | addModule decl => decl.name
  | setDoc module _ => module
  | markGenerated module => module

def addedType? : Step → Option TypeDecl
  | addType decl => some decl
  | _ => none

def addedModule? : Step → Option ModuleDecl
  | addModule decl => some decl
  | _ => none

def doc? : Step → Option (QualifiedName × ModuleDoc)
  | setDoc module doc => some (module, doc)
  | _ => none

def mark? : Step → Option QualifiedName
  | markGenerated module => some module
  | _ => none

end Step

def take (w : Workspace) : Step → Workspace
  | .addType decl => w.addType decl
  | .addModule decl => w.addModule decl
  | .setDoc module doc => w.setDoc module doc
  | .markGenerated module => w.markGenerated module

/-- The workspace after some steps, taken in order. -/
def run (w : Workspace) (history : List Step) : Workspace :=
  history.foldl take w

def addedTypes (history : List Step) : List TypeDecl :=
  history.filterMap Step.addedType?

def addedModules (history : List Step) : List ModuleDecl :=
  history.filterMap Step.addedModule?

def docsSet (history : List Step) : List (QualifiedName × ModuleDoc) :=
  history.filterMap Step.doc?

def marksMade (history : List Step) : List QualifiedName :=
  history.filterMap Step.mark?

/-- The answers of a workspace that was empty before the history: the last declaration and the last
documentation of each name, and all names in the order in which they come first. -/
structure Answers (config : Config) (history : List Step) (w : Workspace) : Prop where
  sameConfig : w.config = config
  typeDecl : ∀ name, w.index.types.find? name =
    ((addedTypes history).filter (·.name == name)).getLast?
  moduleDecl : ∀ name, w.index.modules.find? name =
    ((addedModules history).filter (·.name == name)).getLast?
  imports : ∀ name, w.index.imports name =
    (((addedModules history).filter (·.name == name)).getLast?.map ModuleDecl.imports).getD []
  lookupType : ∀ name found, w.index.lookupType? name = some found ↔
    found = name ∧ name ∈ (addedTypes history).map TypeDecl.name
  lookupModule : ∀ name found, w.index.lookupModule? name = some found ↔
    found = name ∧ name ∈ (addedModules history).map ModuleDecl.name
  typeCount : w.index.types.size = ((addedTypes history).map TypeDecl.name).eraseDups.length
  moduleCount : w.index.modules.size = ((addedModules history).map ModuleDecl.name).eraseDups.length
  types : w.index.types.entries.map some = ((addedTypes history).map TypeDecl.name).eraseDups.map
    fun name => ((addedTypes history).filter (·.name == name)).getLast?
  modules : w.index.modules.entries.map some =
    ((addedModules history).map ModuleDecl.name).eraseDups.map
      fun name => ((addedModules history).filter (·.name == name)).getLast?
  docTree : ∀ module, w.docTree? module =
    ((docsSet history).filter (·.1 == module)).getLast?.map fun set => set.2.nodes config
  isGenerated : ∀ module, w.isGenerated module = true ↔ module ∈ marksMade history
  discover : w.discover = (marksMade history).eraseDups.filter
    fun module => module ∈ (addedModules history).map ModuleDecl.name

/-- The workspaces give the same answers about each name. -/
structure SameByName (w w' : Workspace) : Prop where
  typeDecl : ∀ name, w'.index.types.find? name = w.index.types.find? name
  moduleDecl : ∀ name, w'.index.modules.find? name = w.index.modules.find? name
  lookupType : ∀ name, w'.index.lookupType? name = w.index.lookupType? name
  lookupModule : ∀ name, w'.index.lookupModule? name = w.index.lookupModule? name
  imports : ∀ name, w'.index.imports name = w.index.imports name
  allMembers : ∀ type, w'.index.allMembers type = w.index.allMembers type
  docTree : ∀ module, w'.docTree? module = w.docTree? module
  isGenerated : ∀ module, w'.isGenerated module = w.isGenerated module

/-- The registries hold the same under each name. -/
structure Alike (w w' : Workspace) : Prop where
  config : w'.config = w.config
  types : ∀ name, w'.index.types.find? name = w.index.types.find? name
  modules : ∀ name, w'.index.modules.find? name = w.index.modules.find? name
  docs : ∀ name, w'.docs.find? name = w.docs.find? name
  marked : ∀ name, w'.marked.find? name = w.marked.find? name

variable {w w' : Workspace} {a b step : Step} {config : Config} {history before after : List Step}

/-! ## Four registries -/

theorem run_eq (w : Workspace) (history : List Step) : w.run history = {
    config := w.config
    index := {
      types := (addedTypes history).foldl Registry.insert w.index.types
      modules := (addedModules history).foldl Registry.insert w.index.modules }
    docs := (docsSet history).foldl Registry.insert w.docs
    marked := (marksMade history).foldl Registry.insert w.marked } := by
  induction history generalizing w with
  | nil => rfl
  | cons step history ih =>
    have hstep : w.run (step :: history) = (w.take step).run history := rfl
    rw [hstep, ih]
    cases step <;> rfl

/-- A history that leads to the workspace. -/
def ownHistory (w : Workspace) : List Step :=
  w.index.types.entries.map .addType ++ w.index.modules.entries.map .addModule ++
    w.docs.entries.map (fun set => .setDoc set.1 set.2) ++ w.marked.entries.map .markGenerated

theorem run_ownHistory (w : Workspace) :
    ({ config := w.config } : Workspace).run w.ownHistory = w := by
  have htypes : addedTypes w.ownHistory = w.index.types.entries := by
    simp [addedTypes, ownHistory, List.filterMap_map, Function.comp_def, Step.addedType?]
  have hmodules : addedModules w.ownHistory = w.index.modules.entries := by
    simp [addedModules, ownHistory, List.filterMap_map, Function.comp_def, Step.addedModule?]
  have hdocs : docsSet w.ownHistory = w.docs.entries := by
    simp [docsSet, ownHistory, List.filterMap_map, Function.comp_def, Step.doc?]
  have hmarks : marksMade w.ownHistory = w.marked.entries := by
    simp [marksMade, ownHistory, List.filterMap_map, Function.comp_def, Step.mark?]
  rw [run_eq, htypes, hmodules, hdocs, hmarks]
  simp only [Registry.foldl_insert_entries]

theorem answers_run (config : Config) (history : List Step) :
    Answers config history (({ config } : Workspace).run history) := by
  rw [run_eq]
  constructor
  case sameConfig => rfl
  case typeDecl => exact Registry.find?_foldl_insert_empty _
  case moduleDecl => exact Registry.find?_foldl_insert_empty _
  case imports =>
    intro name
    rw [SymbolIndex.imports, Registry.find?_foldl_insert_empty]
    cases ((addedModules history).filter (·.name == name)).getLast? <;> rfl
  case lookupType =>
    intro name found
    rw [SymbolIndex.lookupType?_eq_some_iff, eq_comm, and_congr_right_iff]
    rintro rfl
    exact Registry.mem_keys_foldl_insert_empty
  case lookupModule =>
    intro name found
    rw [SymbolIndex.lookupModule?_eq_some_iff, eq_comm, and_congr_right_iff]
    rintro rfl
    exact Registry.mem_keys_foldl_insert_empty
  case typeCount => rw [← Registry.length_keys, Registry.keys_foldl_insert_empty]
  case moduleCount => rw [← Registry.length_keys, Registry.keys_foldl_insert_empty]
  case types =>
    rw [Registry.map_some_entries, Registry.keys_foldl_insert_empty]
    exact List.map_congr_left fun name _ => Registry.find?_foldl_insert_empty _ name
  case modules =>
    rw [Registry.map_some_entries, Registry.keys_foldl_insert_empty]
    exact List.map_congr_left fun name _ => Registry.find?_foldl_insert_empty _ name
  case docTree =>
    intro module
    rw [docTree?, Registry.find?_foldl_insert_empty]
  case isGenerated =>
    intro module
    rw [isGenerated, Registry.contains_eq_true_iff, Registry.mem_keys_foldl_insert_empty,
      List.map_id]
  case discover =>
    have hmarked : ((marksMade history).foldl Registry.insert (.empty : NameSet)).keys =
        ((marksMade history).map id).eraseDups :=
      Registry.keys_foldl_insert_empty _
    rw [List.map_id, Registry.keys, List.map_id] at hmarked
    rw [discover, hmarked]
    refine List.filter_congr fun module _ => ?_
    rw [Bool.eq_iff_iff, decide_eq_true_iff, SymbolIndex.hasModule, Registry.contains_eq_true_iff,
      Registry.mem_keys_foldl_insert_empty]

/-! ## Steps in another order -/

theorem take_comm (h : a.kind ≠ b.kind) : (w.take a).take b = (w.take b).take a := by
  cases a <;> cases b
  case addType.addType | addModule.addModule | setDoc.setDoc | markGenerated.markGenerated =>
    exact absurd rfl h
  all_goals rfl

theorem run_swap (w : Workspace) (h : a.kind ≠ b.kind) (before after : List Step) :
    w.run (before ++ a :: b :: after) = w.run (before ++ b :: a :: after) := by
  rw [run, run, List.foldl_append, List.foldl_append, List.foldl_cons, List.foldl_cons, take_comm h,
    List.foldl_cons, List.foldl_cons]

theorem alike_take_comm (hkind : a.kind = b.kind) (hname : a.name ≠ b.name) :
    Alike ((w.take a).take b) ((w.take b).take a) := by
  have hsame : ∀ {α : Type} {key : α → String} (r : Registry α key) (k : String),
      r.find? k = r.find? k := fun _ _ => rfl
  match a, b with
  | .addType x, .addType y =>
    exact ⟨rfl, Registry.find?_insert_comm _ hname.symm, hsame _, hsame _, hsame _⟩
  | .addModule x, .addModule y =>
    exact ⟨rfl, hsame _, Registry.find?_insert_comm _ hname.symm, hsame _, hsame _⟩
  | .setDoc x doc, .setDoc y doc' =>
    exact ⟨rfl, hsame _, hsame _, Registry.find?_insert_comm _ hname.symm, hsame _⟩
  | .markGenerated x, .markGenerated y =>
    exact ⟨rfl, hsame _, hsame _, hsame _, Registry.find?_insert_comm _ hname.symm⟩

theorem Alike.take (h : Alike w w') (step : Step) : Alike (w.take step) (w'.take step) := by
  obtain ⟨hconfig, htypes, hmodules, hdocs, hmarked⟩ := h
  cases step with
  | addType decl =>
    exact ⟨hconfig, Registry.find?_insert_congr htypes decl, hmodules, hdocs, hmarked⟩
  | addModule decl =>
    exact ⟨hconfig, htypes, Registry.find?_insert_congr hmodules decl, hdocs, hmarked⟩
  | setDoc module doc =>
    exact ⟨hconfig, htypes, hmodules, Registry.find?_insert_congr hdocs (module, doc), hmarked⟩
  | markGenerated module =>
    exact ⟨hconfig, htypes, hmodules, hdocs, Registry.find?_insert_congr hmarked module⟩

theorem Alike.run (h : Alike w w') (history : List Step) :
    Alike (w.run history) (w'.run history) := by
  induction history generalizing w w' with
  | nil => exact h
  | cons step history ih => exact ih (h.take step)

/-- What is asked by name depends on what the registries hold under each name. -/
theorem Alike.sameByName (h : Alike w w') : SameByName w w' where
  typeDecl := h.types
  moduleDecl := h.modules
  lookupType name := by
    rw [SymbolIndex.lookupType?, SymbolIndex.lookupType?, SymbolIndex.hasType, SymbolIndex.hasType,
      Registry.contains, Registry.contains, h.types]
  lookupModule name := by
    rw [SymbolIndex.lookupModule?, SymbolIndex.lookupModule?, SymbolIndex.hasModule,
      SymbolIndex.hasModule, Registry.contains, Registry.contains, h.modules]
  imports name := by rw [SymbolIndex.imports, SymbolIndex.imports, h.modules]
  allMembers type := SymbolIndex.allMembers_congr fun name _ => h.types name
  docTree module := by rw [docTree?, docTree?, h.docs, h.config]
  isGenerated module := by
    rw [isGenerated, isGenerated, Registry.contains, Registry.contains, h.marked]

theorem sameByName_run_swap (w : Workspace) (hkind : a.kind = b.kind) (hname : a.name ≠ b.name)
    (before after : List Step) :
    SameByName (w.run (before ++ a :: b :: after)) (w.run (before ++ b :: a :: after)) := by
  have hswap : ∀ x y : Step, w.run (before ++ x :: y :: after) =
      (((w.run before).take x).take y).run after := by
    intro x y
    rw [run, List.foldl_append]
    rfl
  rw [hswap, hswap]
  exact ((alike_take_comm hkind hname).run after).sameByName

/-- After any history, the last declaration and the last documentation of a name count, declared
names and marks are listed once and in the order in which they come first, and the marked modules
that are declared by then are the ones to generate, at the places of their marks. Two steps that
follow each other and are of different kinds can be swapped; if they are of the same kind and about
different names, swapping them changes no answer about a name. No workspace is left out: each one
has a history. -/
theorem history_answers (config : Config) :
    (∀ w : Workspace, w.config = config →
      ∃ history, ({ config } : Workspace).run history = w) ∧
    (∀ history, Answers config history (({ config } : Workspace).run history)) ∧
    (∀ (before : List Step) (a b : Step) (after : List Step), a.kind ≠ b.kind →
      ({ config } : Workspace).run (before ++ a :: b :: after) =
        ({ config } : Workspace).run (before ++ b :: a :: after)) ∧
    ∀ (before : List Step) (a b : Step) (after : List Step), a.kind = b.kind → a.name ≠ b.name →
      SameByName (({ config } : Workspace).run (before ++ a :: b :: after))
        (({ config } : Workspace).run (before ++ b :: a :: after)) :=
  ⟨fun w hconfig => ⟨w.ownHistory, hconfig ▸ w.run_ownHistory⟩, answers_run config,
    fun before _ _ after h => run_swap _ h before after,
    fun before _ _ after hkind hname => sameByName_run_swap _ hkind hname before after⟩

/-- The mark of `b` and its documentation come before the module, and a mark of a module that is
never declared before all. -/
theorem history_answers_early :
    let marks : List Step := [.markGenerated "x", .markGenerated "b", .markGenerated "a"]
    let doc : Step := .setDoc "b" (.tree [.text "t"])
    let history := marks ++ doc :: .addModule { name := "a" } :: [.addModule { name := "b" }]
    let w := ({} : Workspace).run history
    Step.kind doc ≠ Step.kind (.addModule { name := "a" }) ∧
      w = ({} : Workspace).run
        (marks ++ .addModule { name := "a" } :: doc :: [.addModule { name := "b" }]) ∧
      Step.name (.markGenerated "b") ≠ Step.name (.markGenerated "a") ∧
      SameByName w (({} : Workspace).run (.markGenerated "x" :: .markGenerated "a" ::
        .markGenerated "b" :: doc :: .addModule { name := "a" } :: [.addModule { name := "b" }])) ∧
      w.discover = ["b", "a"] ∧ w.docTree? "b" = some [.text "t"] := by
  intro marks doc history w
  obtain ⟨-, hanswers, hswap, hsame⟩ := history_answers {}
  have hkind : Step.kind doc ≠ Step.kind (.addModule { name := "a" }) := by decide
  have hname : Step.name (.markGenerated "b") ≠ Step.name (.markGenerated "a") := by decide
  exact ⟨hkind, hswap marks _ _ _ hkind, hname, hsame [.markGenerated "x"] _ _ _ rfl hname,
    (hanswers history).discover.trans (by decide), (hanswers history).docTree "b"⟩

end DocWeave.Workspace
