import DocWeave.Proofs.Render.Splicing
import Mathlib.Data.List.Nodup
import Mathlib.Data.List.Perm.Subperm

/-!
# Rendering step by step

A run of the renderer is a sequence of moments. Each holds what is left to do, the modules that are
being rendered and the text so far; `r.Step` leads from one moment to the next, node by node, and
knows no bound on how deep the includes go. Every run comes to an end, with what `r.render` gives
(`steps_render`). On the way each module that was entered is the one that was asked for or a
declared one, and no module is entered twice (`Within`); so the declared modules that are not on
the stack at first bound the depth.
-/

namespace DocWeave

/-- What is left to do in a run. -/
inductive RenderTask where
  /-- Look at a node in the documentation of `module`. -/
  | visit (module : QualifiedName) (node : DocNode)
  | perform (effect : Effect)
  /-- Take the module on top off the stack. -/
  | leave

def RenderTask.isLeave : RenderTask → Bool
  | leave => true
  | _ => false

/-- A moment of a run. The modules on the stack are a plain list, the outermost first: that none is
on it twice is a fact about the runs. -/
structure Moment where
  todo : List RenderTask
  entries : List QualifiedName
  text : String
  outcome : Except DocError Unit := .ok ()

namespace Moment

/-- A module is to be rendered inside the given ones, behind the given text. -/
def start (module : QualifiedName) (entries : List QualifiedName) (text : String) : Moment :=
  { todo := [.perform (.splice module)], entries, text }

/-- Nothing is left to do, and the action has come out like this. -/
def finish : Except DocError Unit × (IncludeStack × String) → Moment
  | (outcome, stack, text) => { todo := [], entries := stack.entries, text, outcome }

end Moment

namespace Renderer

variable {r : Renderer} {a b c : Moment} {module k : QualifiedName} {e : DocError}
  {tasks tasks' rest : List RenderTask} {entries : List QualifiedName} {text : String}
  {stack inside : IncludeStack}

/-- What looking at a node leads to. -/
def nodeTasks (r : Renderer) (module : QualifiedName) : DocNode → List RenderTask
  | .text body => [.perform (.emit body)]
  | .link signature label => [.perform (r.linkEffect module signature label)]
  | .container children => children.map (.visit module)
  | .inclusion target => [.perform (r.inclusionEffect module target)]

/-- The nodes of a module are looked at in order. -/
def moduleTasks (r : Renderer) (module : QualifiedName) : List RenderTask :=
  ((r.workspace.docTree? module).getD []).map (.visit module)

/-- One step of a run. After a failure the tasks are dropped, and every module that was entered is
left all the same. -/
inductive Step (r : Renderer) : Moment → Moment → Prop where
  | visit {module : QualifiedName} {node : DocNode} {rest : List RenderTask}
      {entries : List QualifiedName} {text : String} :
    Step r ⟨.visit module node :: rest, entries, text, .ok ()⟩
      ⟨r.nodeTasks module node ++ rest, entries, text, .ok ()⟩
  | emit {added : String} {rest : List RenderTask} {entries : List QualifiedName} {text : String} :
    Step r ⟨.perform (.emit added) :: rest, entries, text, .ok ()⟩
      ⟨rest, entries, text ++ added, .ok ()⟩
  | fail {e : DocError} {rest : List RenderTask} {entries : List QualifiedName} {text : String} :
    Step r ⟨.perform (.fail e) :: rest, entries, text, .ok ()⟩ ⟨rest, entries, text, .error e⟩
  | enter {k : QualifiedName} {rest : List RenderTask} {entries : List QualifiedName}
      {text : String} : k ∉ entries →
    Step r ⟨.perform (.splice k) :: rest, entries, text, .ok ()⟩
      ⟨r.moduleTasks k ++ .leave :: rest, entries ++ [k], text, .ok ()⟩
  | repeated {k : QualifiedName} {rest : List RenderTask} {entries : List QualifiedName}
      {text : String} : k ∈ entries →
    Step r ⟨.perform (.splice k) :: rest, entries, text, .ok ()⟩
      ⟨rest, entries, text, .error (.circularInclude k (entries ++ [k]))⟩
  | leave {rest : List RenderTask} {entries : List QualifiedName} {text : String}
      {outcome : Except DocError Unit} :
    Step r ⟨.leave :: rest, entries, text, outcome⟩ ⟨rest, entries.dropLast, text, outcome⟩
  | drop {task : RenderTask} {rest : List RenderTask} {entries : List QualifiedName}
      {text : String} {e : DocError} : task.isLeave = false →
    Step r ⟨task :: rest, entries, text, .error e⟩ ⟨rest, entries, text, .error e⟩

/-- Any number of steps. -/
abbrev Steps (r : Renderer) : Moment → Moment → Prop :=
  Relation.ReflTransGen r.Step

theorem Step.unique (hb : r.Step a b) (hc : r.Step a c) : b = c := by
  cases hb with
  | visit | emit | fail =>
    cases hc
    rfl
  | enter hk =>
    cases hc with
    | enter => rfl
    | repeated hk' => exact (hk hk').elim
  | repeated hk =>
    cases hc with
    | enter hk' => exact (hk' hk).elim
    | repeated => rfl
  | leave =>
    cases hc with
    | leave => rfl
    | drop htask => cases htask
  | drop htask =>
    cases hc with
    | leave => cases htask
    | drop => rfl

theorem not_step_of_done (h : a.todo = []) : ¬ r.Step a b := by
  intro hb
  cases hb <;> cases h

/-! ## The whole run -/

/-- A run that gets to its end passes through every moment that it can reach. -/
theorem Steps.to_end (hb : r.Steps a b) (hdone : b.todo = []) (hc : r.Steps a c) : r.Steps c b := by
  have hunique : Relator.RightUnique r.Step := fun _ _ _ => Step.unique
  rcases Relation.ReflTransGen.total_of_right_unique hunique hb hc with h | h
  · rcases h.cases_head with rfl | ⟨d, hd, -⟩
    · exact .refl
    · exact (not_step_of_done hdone hd).elim
  · exact h

/-- A run that can get to its end cannot go on for ever. -/
theorem Steps.acc (hb : r.Steps a b) (hdone : b.todo = []) :
    Acc (fun later earlier => r.Step earlier later) a := by
  induction hb using Relation.ReflTransGen.head_induction_on with
  | refl => exact ⟨b, fun c hc => (not_step_of_done hdone hc).elim⟩
  | head hac _ ih =>
    refine ⟨_, fun d hd => ?_⟩
    rw [← hac.unique hd]
    exact ih

/-! ## What tasks add up to -/

theorem steps_drop (h : ∀ task ∈ tasks, task.isLeave = false) :
    r.Steps ⟨tasks ++ rest, entries, text, .error e⟩ ⟨rest, entries, text, .error e⟩ := by
  induction tasks with
  | nil => exact .refl
  | cons task tasks ih =>
    rw [List.forall_mem_cons] at h
    exact .head (.drop h.1) (ih h.2)

/-- Inside the given modules the tasks, none of which leaves a module, add the piece to whatever
text there is and come back to the same stack. -/
structure Performs (r : Renderer) (tasks : List RenderTask) (entries : List QualifiedName)
    (piece : Piece) : Prop where
  stays : ∀ task ∈ tasks, task.isLeave = false
  steps : ∀ rest text, r.Steps ⟨tasks ++ rest, entries, text, .ok ()⟩
    ⟨rest, entries, text ++ piece.text, piece.outcome⟩

theorem performs_nil : r.Performs [] entries {} := by
  refine ⟨List.forall_mem_nil _, fun rest text => ?_⟩
  rw [List.nil_append, String.append_empty]

theorem Performs.append {p q : Piece} (hp : r.Performs tasks entries p)
    (hq : r.Performs tasks' entries q) : r.Performs (tasks ++ tasks') entries (p.andThen q) := by
  refine ⟨List.forall_mem_append.2 ⟨hp.stays, hq.stays⟩, fun rest text => ?_⟩
  rw [List.append_assoc]
  refine (hp.steps _ text).trans ?_
  rcases p.ok_or_error with h | ⟨e, h⟩
  · rw [h, Piece.andThen_of_ok h, ← String.append_assoc]
    exact hq.steps rest _
  · rw [Piece.andThen_of_error h, h]
    exact steps_drop hq.stays

theorem performs_fail (e : DocError) : r.Performs [.perform (.fail e)] entries (.fail e) := by
  refine ⟨by simp [RenderTask.isLeave], fun rest text => ?_⟩
  rw [Piece.fail, String.append_empty]
  exact .single .fail

theorem performs_emit (added : String) :
    r.Performs [.perform (.emit added)] entries { text := added } :=
  ⟨by simp [RenderTask.isLeave], fun _ _ => .single .emit⟩

/-- Looking at a node comes to what the node leads to. -/
theorem Performs.visit {node : DocNode} {p : Piece}
    (h : r.Performs (r.nodeTasks module node) entries p) :
    r.Performs [.visit module node] entries p :=
  ⟨by simp [RenderTask.isLeave], fun rest text => .head .visit (h.steps rest text)⟩

/-- Looking at nodes in order performs their effects in order. -/
theorem performs_visits {spliced : QualifiedName → Piece} :
    ∀ {nodes : DocTree}, (∀ effect ∈ r.treeEffects module nodes,
        r.Performs [.perform effect] entries (effect.piece spliced)) →
      r.Performs (nodes.map (.visit module)) entries
        (.concat ((r.treeEffects module nodes).map (Effect.piece spliced)))
  | [], _ => by
    rw [treeEffects]
    exact performs_nil
  | node :: rest, h => by
    rw [treeEffects] at h ⊢
    rw [List.forall_mem_append] at h
    have hrest := performs_visits h.2
    rw [List.map_append, Piece.concat_append, List.map_cons, ← List.singleton_append]
    refine .append (.visit ?_) hrest
    cases node with
    | container children =>
      rw [nodeEffects] at h ⊢
      exact performs_visits h.1
    | text body | link signature label | inclusion target =>
      simp only [nodeEffects, List.forall_mem_singleton] at h ⊢
      rw [List.map_singleton, Piece.concat_singleton]
      exact h.1

/-- What looking at the nodes of a module adds up to. -/
theorem performs_module {spliced : QualifiedName → Piece}
    (h : ∀ effect ∈ r.moduleEffects module,
      r.Performs [.perform effect] entries (effect.piece spliced)) :
    r.Performs (r.moduleTasks module) entries
      (.concat ((r.moduleEffects module).map (Effect.piece spliced))) := by
  unfold moduleEffects at h ⊢
  unfold moduleTasks
  cases hdoc : r.workspace.docTree? module with
  | none => exact performs_nil
  | some nodes =>
    rw [hdoc] at h
    exact performs_visits h

/-- To splice a module is to add its piece, whatever is on the stack. -/
theorem performs_splice (r : Renderer) (stack : IncludeStack) (module : QualifiedName) :
    r.Performs [.perform (.splice module)] stack.entries (r.piece stack module) := by
  induction stack, module using r.include_induction with
  | repeated stack module hm =>
    rw [piece_of_mem hm, Piece.fail]
    refine ⟨by simp [RenderTask.isLeave], fun rest text => ?_⟩
    rw [String.append_empty]
    exact .single (.repeated hm)
  | entered stack module inside hin ih =>
    obtain ⟨hm, hentries⟩ := IncludeStack.entries_of_enter hin
    have heffects : ∀ effect ∈ r.moduleEffects module,
        r.Performs [.perform effect] inside.entries (r.effectPiece inside effect) := by
      intro effect heffect
      cases effect with
      | emit added => exact performs_emit added
      | fail e => exact performs_fail e
      | splice k => exact ih k (splice_mem_moduleEffects_iff.1 heffect)
    rw [piece_of_enter hin]
    refine ⟨by simp [RenderTask.isLeave], fun rest text => ?_⟩
    -- enter the module, look at its nodes and leave it
    refine .head (.enter hm) ?_
    rw [← hentries]
    refine ((performs_module heffects).steps (.leave :: rest) text).tail ?_
    have hleave : inside.entries.dropLast = stack.entries := by
      rw [hentries, List.dropLast_concat]
    rw [← hleave]
    exact .leave

/-- Step by step, rendering a module comes to what `render` gives. -/
theorem steps_render (r : Renderer) (module : QualifiedName) (stack : IncludeStack)
    (text : String) :
    r.Steps (.start module stack.entries text) (.finish (r.render module (stack, text))) := by
  rw [render_eq]
  exact (r.performs_splice stack module).steps [] text

/-! ## What is on the stack -/

/-- At every moment of a run the stack holds what it held at first and then the modules that were
entered and are to be left again. Each of these is the module asked for or a declared one, and so
is each that is still to be entered. -/
structure Within (r : Renderer) (module : QualifiedName) (entries : List QualifiedName)
    (a : Moment) : Prop where
  entered : ∃ inner, a.entries = entries ++ inner ∧ inner.length = a.todo.countP (·.isLeave) ∧
    ∀ k ∈ inner, k = module ∨ k ∈ r.workspace.index.modules.keys
  nodup : a.entries.Nodup
  splices : ∀ k, .perform (.splice k) ∈ a.todo → k = module ∨ k ∈ r.workspace.index.modules.keys

theorem isLeave_nodeTasks {node : DocNode} :
    ∀ task ∈ r.nodeTasks module node, task.isLeave = false := by
  cases node <;> simp [nodeTasks, RenderTask.isLeave]

theorem isLeave_moduleTasks : ∀ task ∈ r.moduleTasks module, task.isLeave = false := by
  simp [moduleTasks, RenderTask.isLeave]

/-- Only declared modules are spliced on account of a node. -/
theorem declared_of_mem_nodeTasks {node : DocNode}
    (h : .perform (.splice k) ∈ r.nodeTasks module node) :
    k ∈ r.workspace.index.modules.keys := by
  cases node with
  | text body => simp [nodeTasks] at h
  | container children => simp [nodeTasks] at h
  | link signature label =>
    have hlink : r.linkEffect module signature label = .splice k := by
      simpa [nodeTasks, eq_comm] using h
    obtain ⟨reference, -, hresolved⟩ := linkEffect_eq_splice_iff.1 hlink
    exact SymbolIndex.mem_keys_of_lookupModule? (lookupModule?_of_resolve? hresolved).2
  | inclusion target =>
    have hinclusion : r.inclusionEffect module target = .splice k := by
      simpa [nodeTasks, eq_comm] using h
    exact SymbolIndex.mem_keys_of_lookupModule? (inclusionEffect_eq_splice_iff.1 hinclusion)

namespace Within

variable {base : List QualifiedName} {task : RenderTask} {text' : String}
  {outcome outcome' : Except DocError Unit}

theorem start (h : entries.Nodup) : r.Within module entries (.start module entries text) where
  entered := ⟨[], (List.append_nil _).symm, rfl, List.forall_mem_nil _⟩
  nodup := h
  splices k hk := .inl (by simpa [Moment.start] using hk)

/-- A task that leaves no module is done. -/
theorem done (h : r.Within module base ⟨task :: rest, entries, text, outcome⟩)
    (htask : task.isLeave = false) : r.Within module base ⟨rest, entries, text', outcome'⟩ := by
  obtain ⟨inner, hentries, hlength, hinner⟩ := h.entered
  refine ⟨⟨inner, hentries, ?_, hinner⟩, h.nodup, ?_⟩
  · rw [hlength, List.countP_cons_of_neg (by simp [htask])]
  · intro k hk
    exact h.splices k (List.mem_cons_of_mem _ hk)

/-- Tasks that splice declared modules come in front. -/
theorem prepend (h : r.Within module base ⟨rest, entries, text, outcome⟩)
    (hstays : ∀ task ∈ tasks, task.isLeave = false)
    (hsplices : ∀ k, .perform (.splice k) ∈ tasks → k ∈ r.workspace.index.modules.keys) :
    r.Within module base ⟨tasks ++ rest, entries, text, outcome⟩ := by
  obtain ⟨inner, hentries, hlength, hinner⟩ := h.entered
  refine ⟨⟨inner, hentries, ?_, hinner⟩, h.nodup, ?_⟩
  · have hnone : tasks.countP (·.isLeave) = 0 :=
      List.countP_eq_zero.2 fun task htask => by simp [hstays task htask]
    rw [List.countP_append, hnone, Nat.zero_add]
    exact hlength
  · intro k hk
    rcases List.mem_append.1 hk with hk | hk
    · exact .inr (hsplices k hk)
    · exact h.splices k hk

theorem push (h : r.Within module base ⟨rest, entries, text, outcome⟩) (hk : k ∉ entries)
    (hallowed : k = module ∨ k ∈ r.workspace.index.modules.keys) :
    r.Within module base ⟨.leave :: rest, entries ++ [k], text, outcome⟩ := by
  obtain ⟨inner, hentries, hlength, hinner⟩ := h.entered
  simp only at hentries hlength
  refine ⟨⟨inner ++ [k], ?_, ?_, ?_⟩, ?_, ?_⟩
  · rw [hentries, List.append_assoc]
  · rw [List.countP_cons_of_pos rfl, List.length_append, hlength]
    rfl
  · exact List.forall_mem_append.2 ⟨hinner, List.forall_mem_singleton.2 hallowed⟩
  · exact List.nodup_append_comm.1 (List.nodup_cons.2 ⟨hk, h.nodup⟩)
  · intro j hj
    rcases List.mem_cons.1 hj with hj | hj
    · cases hj
    · exact h.splices j hj

theorem pop (h : r.Within module base ⟨.leave :: rest, entries, text, outcome⟩) :
    r.Within module base ⟨rest, entries.dropLast, text, outcome⟩ := by
  obtain ⟨inner, hentries, hlength, hinner⟩ := h.entered
  simp only at hentries
  rw [List.countP_cons_of_pos rfl] at hlength
  refine ⟨⟨inner.dropLast, ?_, ?_, ?_⟩, ?_, ?_⟩
  · -- as many modules were entered as are to be left, so the last one is not one of the base
    have hne : inner ≠ [] := by
      rintro rfl
      simp at hlength
    rw [hentries, List.dropLast_append_of_ne_nil hne]
  · rw [List.length_dropLast, hlength, Nat.add_sub_cancel]
  · intro j hj
    exact hinner j (List.dropLast_subset _ hj)
  · exact (List.dropLast_sublist _).nodup h.nodup
  · intro j hj
    exact h.splices j (List.mem_cons_of_mem _ hj)

/-- One step keeps what is on the stack in order. -/
theorem step (h : r.Within module base a) (hstep : r.Step a b) : r.Within module base b := by
  cases hstep with
  | visit => exact (h.done rfl).prepend isLeave_nodeTasks fun _ => declared_of_mem_nodeTasks
  | emit => exact h.done rfl
  | fail => exact h.done rfl
  | enter hk =>
    have hallowed := h.splices _ List.mem_cons_self
    exact ((h.done rfl).push hk hallowed).prepend isLeave_moduleTasks (by simp [moduleTasks])
  | repeated => exact h.done rfl
  | leave => exact h.pop
  | drop htask => exact h.done htask

theorem steps (h : r.Within module base a) (hsteps : r.Steps a b) : r.Within module base b := by
  induction hsteps with
  | refl => exact h
  | tail _ hstep ih => exact ih.step hstep

/-- The modules that were entered are distinct, so there are no more of them than the module asked
for and the declared ones that were not on the stack. -/
theorem length_le (h : r.Within module stack.entries a) :
    a.entries.length ≤ stack.depth + 1 + (r.outside stack).length := by
  obtain ⟨inner, hentries, -, hinner⟩ := h.entered
  have hnodup := h.nodup
  rw [hentries, List.nodup_append] at hnodup
  obtain ⟨-, hdistinct, hapart⟩ := hnodup
  have hsub : inner ⊆ module :: r.outside stack := by
    intro k hk
    rcases hinner k hk with rfl | hdeclared
    · exact List.mem_cons_self
    · exact List.mem_cons_of_mem _
        (mem_outside_iff.2 ⟨hdeclared, fun hstack => hapart k hstack k hk rfl⟩)
  have hle := (List.subperm_of_subset hdistinct hsub).length_le
  rw [hentries, List.length_append, IncludeStack.depth]
  rw [List.length_cons] at hle
  omega

end Within

/-- Any number of levels from the number of modules that can be entered on gives the same as
`render`. -/
theorem renderWithin_eq_render {levels : Nat} (h : r.includeLevels stack ≤ levels) :
    r.renderWithin levels module (stack, text) = r.render module (stack, text) := by
  rw [render_eq, yields_renderWithin, pieceWithin_eq_piece]
  · rw [includeLevels_eq] at h
    omega
  · rw [includeLevels_eq] at h
    exact .inr (by omega)

/-- Rendering a module ends, whatever the includes are. No run goes on for ever, and each comes to
what `render` gives without getting stuck before. At every moment the modules on the stack are
distinct, and there are at most as many as at first, the module asked for, and the declared modules
that were not on the stack. So any number of levels from that one on gives what `render` gives. -/
theorem render_terminates (r : Renderer) (module : QualifiedName) (stack : IncludeStack)
    (text : String) :
    Acc (fun later earlier => r.Step earlier later) (.start module stack.entries text) ∧
    r.Steps (.start module stack.entries text) (.finish (r.render module (stack, text))) ∧
    (∀ moment, r.Steps (.start module stack.entries text) moment →
      ((∃ next, r.Step moment next) ∨ moment = .finish (r.render module (stack, text))) ∧
      moment.entries.Nodup ∧
      moment.entries.length ≤ stack.depth + 1 + (r.outside stack).length) ∧
    ∀ levels, 1 + (r.outside stack).length ≤ levels →
      r.renderWithin levels module (stack, text) = r.render module (stack, text) := by
  have hend := r.steps_render module stack text
  refine ⟨Steps.acc hend rfl, hend, ?_, ?_⟩
  · intro moment hmoment
    have hwithin : r.Within module stack.entries moment :=
      (Within.start stack.nodup_entries).steps hmoment
    refine ⟨?_, hwithin.nodup, hwithin.length_le⟩
    rcases (Steps.to_end hend rfl hmoment).cases_head with heq | ⟨next, hnext, -⟩
    · exact .inr heq
    · exact .inl ⟨next, hnext⟩
  · intro levels hlevels
    rw [Nat.add_comm] at hlevels
    exact renderWithin_eq_render hlevels

/-- Inside `a`, the module `e` runs into the circle of `c` and `d`; its run ends with that failure,
and there are never more than six modules on the stack. -/
theorem render_terminates_sample :
    Acc (fun later earlier => sample.Step earlier later) (.start "e" ["a"] ">") ∧
    ∃ moment : Moment, sample.Steps (.start "e" ["a"] ">") moment ∧
      moment = ⟨[], ["a"], ">z", .error (.circularInclude "c" ["a", "e", "c", "d", "c"])⟩ ∧
      moment.entries.Nodup ∧ moment.entries.length ≤ 1 + 1 + 4 ∧
      sample.renderWithin 5 "e" (⟨["a"], by simp⟩, ">") =
        sample.render "e" (⟨["a"], by simp⟩, ">") := by
  have hpiece : sample.piece ⟨["a"], by simp⟩ "e" =
      { outcome := .error (.circularInclude "c" ["a", "e", "c", "d", "c"]), text := "z" } := by
    decide +kernel
  have houtside : (sample.outside ⟨["a"], by simp⟩).length = 4 := by decide +kernel
  obtain ⟨hacc, hend, hmoments, hlevels⟩ :=
    render_terminates sample "e" ⟨["a"], by simp⟩ ">"
  obtain ⟨-, hnodup, hdepth⟩ := hmoments _ hend
  rw [houtside] at hdepth
  refine ⟨hacc, _, hend, ?_, hnodup, hdepth, hlevels 5 ?_⟩
  · rw [render_eq, hpiece]
    rfl
  · omega

end Renderer
end DocWeave
