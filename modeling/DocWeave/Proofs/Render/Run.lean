import DocWeave.Proofs.Include.Graph
import DocWeave.Render

/-!
# Runs of the renderer

Rendering puts its text behind what is there and comes back to the stack that it started from, so
a run is described by a `Piece`: an outcome and the text that is added. `r.piece stack module` is
the piece of a module inside the modules on a stack, and `render_eq` says that it describes
`r.render`. `piece_eq` tells what it is made of: the pieces of the module's effects inside the
stack with the module on top. No bound on the levels is left there, because the declared modules
that are not on the stack run out before the levels do. `include_induction` is the induction that
follows the includes.
-/

namespace DocWeave

/-- Outcomes are compared by their constructors, so that a run on a given project can be evaluated
inside a proof. -/
instance decEqExcept {ε α : Type} [DecidableEq ε] [DecidableEq α] : DecidableEq (Except ε α)
  | .ok a, .ok b =>
    if h : a = b then isTrue (congrArg Except.ok h) else isFalse (fun eq => h (Except.ok.inj eq))
  | .error d, .error e =>
    if h : d = e then isTrue (congrArg Except.error h)
    else isFalse (fun eq => h (Except.error.inj eq))
  | .ok _, .error _ => isFalse nofun
  | .error _, .ok _ => isFalse nofun

/-- How an action ended and the text that it added. -/
structure Piece where
  outcome : Except DocError Unit := .ok ()
  text : String := ""
  deriving DecidableEq

namespace Piece

/-- A failure before any text. -/
def fail (e : DocError) : Piece := { outcome := .error e }

/-- One piece and then another, unless the first has failed. -/
def andThen (first second : Piece) : Piece :=
  match first.outcome with
  | .ok () => { second with text := first.text ++ second.text }
  | .error _ => first

/-- The pieces one after the other, up to the first that fails. -/
def concat : List Piece → Piece
  | [] => {}
  | piece :: rest => piece.andThen (concat rest)

theorem andThen_of_ok {first : Piece} (h : first.outcome = .ok ()) (second : Piece) :
    first.andThen second = { second with text := first.text ++ second.text } := by
  rw [andThen, h]

theorem andThen_of_error {first : Piece} {e : DocError} (h : first.outcome = .error e)
    (second : Piece) : first.andThen second = first := by
  rw [andThen, h]

theorem ok_or_error (piece : Piece) : piece.outcome = .ok () ∨ ∃ e, piece.outcome = .error e := by
  cases piece.outcome with
  | ok => exact .inl rfl
  | error e => exact .inr ⟨e, rfl⟩

theorem andThen_assoc (p q s : Piece) : (p.andThen q).andThen s = p.andThen (q.andThen s) := by
  rcases p.ok_or_error with hp | ⟨e, hp⟩
  · rw [andThen_of_ok hp, andThen_of_ok hp]
    rcases q.ok_or_error with hq | ⟨e, hq⟩
    · have hjoined : ({ q with text := p.text ++ q.text } : Piece).outcome = .ok () := hq
      rw [andThen_of_ok hjoined, andThen_of_ok hq, String.append_assoc]
    · have hjoined : ({ q with text := p.text ++ q.text } : Piece).outcome = .error e := hq
      rw [andThen_of_error hjoined, andThen_of_error hq]
  · rw [andThen_of_error hp, andThen_of_error hp, andThen_of_error hp]

theorem concat_singleton (p : Piece) : concat [p] = p := by
  rw [concat, concat]
  rcases p.ok_or_error with h | ⟨e, h⟩
  · rw [andThen_of_ok h, String.append_empty, ← h]
  · rw [andThen_of_error h]

theorem concat_append (pieces pieces' : List Piece) :
    concat (pieces ++ pieces') = (concat pieces).andThen (concat pieces') := by
  induction pieces with
  | nil => rw [List.nil_append, concat, andThen_of_ok rfl, String.empty_append]
  | cons p rest ih => rw [List.cons_append, concat, concat, ih, andThen_assoc]

theorem outcome_concat_eq_ok_iff {pieces : List Piece} :
    (concat pieces).outcome = .ok () ↔ ∀ p ∈ pieces, p.outcome = .ok () := by
  induction pieces with
  | nil => simp [concat]
  | cons p rest ih =>
    rw [concat, List.forall_mem_cons, ← ih]
    rcases p.ok_or_error with h | ⟨e, h⟩
    · simp [andThen_of_ok h, h]
    · simp [andThen_of_error h, h]

/-- A failure of the whole is the failure of one of the pieces. -/
theorem exists_mem_of_outcome_concat {pieces : List Piece} {e : DocError}
    (he : (concat pieces).outcome = .error e) : ∃ p ∈ pieces, p.outcome = .error e := by
  induction pieces with
  | nil => cases he
  | cons p rest ih =>
    rw [concat] at he
    rcases p.ok_or_error with h | ⟨e', h⟩
    · rw [andThen_of_ok h] at he
      obtain ⟨q, hq, hqe⟩ := ih he
      exact ⟨q, List.mem_cons_of_mem _ hq, hqe⟩
    · rw [andThen_of_error h] at he
      exact ⟨p, List.mem_cons_self, he⟩

end Piece

/-! ## Actions that add a piece -/

namespace RenderAction

variable {action first second : RenderAction} {splice : QualifiedName → RenderAction}
  {stack inside : IncludeStack} {module : QualifiedName} {piece : Piece}

/-- Inside the modules on the stack the action adds the piece to whatever text there is, and
leaves the stack as it was. -/
def Yields (action : RenderAction) (stack : IncludeStack) (piece : Piece) : Prop :=
  ∀ out, action (stack, out) = (piece.outcome, stack, out ++ piece.text)

theorem Yields.andThen {p q : Piece} (h₁ : first.Yields stack p) (h₂ : second.Yields stack q) :
    Yields (StackAction.andThen first second) stack (p.andThen q) := by
  intro out
  rw [StackAction.andThen, h₁ out]
  rcases p.ok_or_error with h | ⟨e, h⟩
  · simp [Piece.andThen_of_ok h, h, h₂ _, String.append_assoc]
  · simp [Piece.andThen_of_error h, h]

theorem yields_performAll {effects : List Effect} {f : Effect → Piece}
    (h : ∀ effect, (perform splice effect).Yields stack (f effect)) :
    (performAll splice effects).Yields stack (Piece.concat (effects.map f)) := by
  induction effects with
  | nil => intro out; simp [performAll, Piece.concat]
  | cons effect rest ih => exact (h effect).andThen ih

theorem yields_within_of_error {e : DocError} (h : stack.enter module = .error e) :
    Yields (StackAction.within module action) stack (.fail e) := by
  intro out
  simp [StackAction.within, h, Piece.fail]

theorem Yields.within (h : stack.enter module = .ok inside) (ha : action.Yields inside piece) :
    Yields (StackAction.within module action) stack piece := by
  intro out
  simp only [StackAction.within, h, ha out]
  rw [IncludeStack.leave_of_enter h]

end RenderAction

/-- The piece of one effect; `spliced` gives those of other modules. -/
def Effect.piece (spliced : QualifiedName → Piece) : Effect → Piece
  | .emit text => { text }
  | .splice module => spliced module
  | .fail e => .fail e

namespace Effect

variable {effects effects' effects'' rest rest' : List Effect}

/-- The two lists add the same text and end alike, whatever the modules that they splice add. -/
def RunAlike (effects effects' : List Effect) : Prop :=
  ∀ spliced : QualifiedName → Piece,
    Piece.concat (effects.map (piece spliced)) = Piece.concat (effects'.map (piece spliced))

theorem RunAlike.refl (effects : List Effect) : RunAlike effects effects := fun _ => rfl

theorem RunAlike.symm (h : RunAlike effects effects') : RunAlike effects' effects :=
  fun spliced => (h spliced).symm

theorem RunAlike.trans (h : RunAlike effects effects') (h' : RunAlike effects' effects'') :
    RunAlike effects effects'' :=
  fun spliced => (h spliced).trans (h' spliced)

theorem RunAlike.of_eq (h : effects = effects') : RunAlike effects effects' := h ▸ .refl effects

theorem RunAlike.append (h : RunAlike effects effects') (hrest : RunAlike rest rest') :
    RunAlike (effects ++ rest) (effects' ++ rest') := by
  intro spliced
  rw [List.map_append, List.map_append, Piece.concat_append, Piece.concat_append, h spliced,
    hrest spliced]

theorem runAlike_emit_empty : RunAlike [.emit ""] [] :=
  fun _ => Piece.concat_singleton _

theorem runAlike_emit_append (s t : String) : RunAlike [.emit (s ++ t)] [.emit s, .emit t] := by
  intro spliced
  simp [Piece.concat, piece, Piece.andThen]

end Effect

theorem RenderAction.yields_perform {splice : QualifiedName → RenderAction} {stack : IncludeStack}
    {spliced : QualifiedName → Piece} (h : ∀ module, (splice module).Yields stack (spliced module))
    (effect : Effect) : (perform splice effect).Yields stack (effect.piece spliced) := by
  intro out
  cases effect with
  | emit text => simp [perform, Effect.piece]
  | splice module => exact h module out
  | fail e => simp [perform, Effect.piece, Piece.fail]

namespace Renderer

variable {r : Renderer} {stack inside : IncludeStack} {module : QualifiedName}

/-! ## Levels -/

/-- The piece of a module with at most `levels` further modules entered inside each other. -/
def pieceWithin (r : Renderer) : Nat → IncludeStack → QualifiedName → Piece
  | 0, stack, module =>
    match stack.enter module with
    | .error e => .fail e
    | .ok _ => {}
  | levels + 1, stack, module =>
    match stack.enter module with
    | .error e => .fail e
    | .ok inside =>
      .concat ((r.moduleEffects module).map (Effect.piece (r.pieceWithin levels inside)))

theorem yields_renderWithin (r : Renderer) (levels : Nat) (stack : IncludeStack)
    (module : QualifiedName) :
    (r.renderWithin levels module).Yields stack (r.pieceWithin levels stack module) := by
  induction levels generalizing stack module with
  | zero =>
    rw [renderWithin, pieceWithin]
    split
    · rename_i h
      exact RenderAction.yields_within_of_error h
    · rename_i h
      exact RenderAction.Yields.within h fun out => by simp
  | succ levels ih =>
    rw [renderWithin, pieceWithin]
    split
    · rename_i h
      exact RenderAction.yields_within_of_error h
    · rename_i inside h
      refine RenderAction.Yields.within h ?_
      exact RenderAction.yields_performAll (RenderAction.yields_perform (ih inside))

/-- The declared modules that are not on the stack. -/
def outside (r : Renderer) (stack : IncludeStack) : List QualifiedName :=
  r.workspace.index.modules.keys.filter (!stack.contains ·)

theorem mem_outside_iff : module ∈ r.outside stack ↔
    module ∈ r.workspace.index.modules.keys ∧ module ∉ stack.entries := by
  simp [outside, IncludeStack.contains]

theorem outside_of_enter (h : stack.enter module = .ok inside) :
    r.outside inside = (r.outside stack).filter (· != module) := by
  rw [outside, outside, List.filter_filter]
  congr 1
  funext k
  rw [IncludeStack.contains, IncludeStack.contains, (IncludeStack.entries_of_enter h).2]
  by_cases hk : k = module <;> simp [hk]

theorem length_outside_le (h : stack.enter module = .ok inside) :
    (r.outside inside).length ≤ (r.outside stack).length := by
  rw [outside_of_enter h]
  exact List.length_filter_le ..

/-- Entering a declared module leaves fewer of them. -/
theorem length_outside_lt (h : stack.enter module = .ok inside)
    (hd : module ∈ r.workspace.index.modules.keys) :
    (r.outside inside).length < (r.outside stack).length := by
  rw [outside_of_enter h]
  refine List.length_filter_lt_length_iff_exists.2 ⟨module, ?_, by simp⟩
  exact mem_outside_iff.2 ⟨hd, (IncludeStack.entries_of_enter h).1⟩

/-- When all declared modules are on the stack, none of them can be entered. -/
theorem mem_entries_of_outside (h : (r.outside stack).length = 0)
    (hd : module ∈ r.workspace.index.modules.keys) : module ∈ stack.entries :=
  Classical.byContradiction fun hm => by
    have := List.length_pos_of_mem (mem_outside_iff.2 ⟨hd, hm⟩)
    omega

/-- A further level changes nothing once there is one for each declared module that is not on the
stack, and one for the module itself if it is not declared. -/
theorem pieceWithin_succ {levels : Nat} (h : (r.outside stack).length ≤ levels)
    (hd : module ∈ r.workspace.index.modules.keys ∨ (r.outside stack).length < levels) :
    r.pieceWithin (levels + 1) stack module = r.pieceWithin levels stack module := by
  induction levels generalizing stack module with
  | zero =>
    have hm : module ∈ stack.entries :=
      mem_entries_of_outside (by omega) (hd.resolve_right (by omega))
    simp only [pieceWithin, IncludeStack.enter_of_mem hm]
  | succ levels ih =>
    rw [pieceWithin, pieceWithin]
    split
    · rfl
    · rename_i inside hin
      have hle : (r.outside inside).length ≤ levels := by
        rcases hd with hd | hd
        · have := length_outside_lt hin hd
          omega
        · have := length_outside_le (r := r) hin
          omega
      congr 1
      apply List.map_congr_left
      intro effect he
      cases effect with
      | emit text => rfl
      | fail e => rfl
      | splice k => exact ih hle (.inl (splice_mem_moduleEffects_iff.1 he).declared)

/-! ## The piece of a module -/

/-- What rendering a module adds inside the modules on a stack, and how it ends. -/
def piece (r : Renderer) (stack : IncludeStack) (module : QualifiedName) : Piece :=
  r.pieceWithin (r.includeLevels stack) stack module

/-- What one effect adds inside the modules on a stack. -/
def effectPiece (r : Renderer) (stack : IncludeStack) : Effect → Piece :=
  Effect.piece (r.piece stack)

theorem render_eq (r : Renderer) (stack : IncludeStack) (module : QualifiedName) (out : String) :
    r.render module (stack, out) =
      ((r.piece stack module).outcome, stack, out ++ (r.piece stack module).text) :=
  r.yields_renderWithin (r.includeLevels stack) stack module out

theorem includeLevels_eq (r : Renderer) (stack : IncludeStack) :
    r.includeLevels stack = (r.outside stack).length + 1 := rfl

/-- Any number of levels that covers the declared modules outside of the stack gives the same. -/
theorem pieceWithin_eq_piece {levels : Nat} (h : (r.outside stack).length ≤ levels)
    (hd : module ∈ r.workspace.index.modules.keys ∨ (r.outside stack).length < levels) :
    r.pieceWithin levels stack module = r.piece stack module := by
  rw [piece, includeLevels_eq]
  obtain ⟨k, rfl⟩ := Nat.exists_eq_add_of_le h
  cases k with
  | zero =>
    rw [Nat.add_zero, pieceWithin_succ (Nat.le_refl _) (hd.imp_right fun h => by omega)]
  | succ k =>
    clear h hd
    induction k with
    | zero => rfl
    | succ k ih =>
      rw [← ih, ← Nat.add_assoc]
      exact pieceWithin_succ (by omega) (.inr (by omega))

theorem piece_of_mem (h : module ∈ stack.entries) :
    r.piece stack module = .fail (.circularInclude module (stack.entries ++ [module])) := by
  rw [piece, includeLevels_eq, pieceWithin, IncludeStack.enter_of_mem h]

/-- Inside a module that can be entered its effects yield their pieces one after the other. -/
theorem piece_of_enter (h : stack.enter module = .ok inside) :
    r.piece stack module = .concat ((r.moduleEffects module).map (r.effectPiece inside)) := by
  rw [piece, includeLevels_eq, pieceWithin, h]
  simp only
  congr 1
  apply List.map_congr_left
  intro effect he
  cases effect with
  | emit text => rfl
  | fail e => rfl
  | splice k =>
    exact pieceWithin_eq_piece (length_outside_le h)
      (.inl (splice_mem_moduleEffects_iff.1 he).declared)

theorem renderModule_eq_ok_iff {text : String} :
    r.renderModule module = .ok text ↔ r.piece {} module = { text } := by
  rw [renderModule, render_eq]
  obtain ⟨outcome, added⟩ := r.piece {} module
  cases outcome <;> simp

theorem renderModule_eq_error_iff {e : DocError} :
    r.renderModule module = .error e ↔ (r.piece {} module).outcome = .error e := by
  rw [renderModule, render_eq]
  obtain ⟨outcome, added⟩ := r.piece {} module
  cases outcome <;> simp

/-- Induction along the includes: what holds of a module that is on the stack, and of a module
whenever it holds, inside it, of the modules that it includes, holds of every module. -/
theorem include_induction (r : Renderer) {motive : IncludeStack → QualifiedName → Prop}
    (repeated : ∀ stack module, module ∈ stack.entries → motive stack module)
    (entered : ∀ stack module inside, stack.enter module = .ok inside →
      (∀ k, r.Includes module k → motive inside k) → motive stack module)
    (stack : IncludeStack) (module : QualifiedName) : motive stack module := by
  -- of a declared module there are as many levels left as declared modules off the stack
  have declared : ∀ levels stack module, (r.outside stack).length ≤ levels →
      module ∈ r.workspace.index.modules.keys → motive stack module := by
    intro levels
    induction levels with
    | zero =>
      intro stack module hle hd
      exact repeated stack module (mem_entries_of_outside (by omega) hd)
    | succ levels ih =>
      intro stack module hle hd
      by_cases hm : module ∈ stack.entries
      · exact repeated stack module hm
      · obtain ⟨inside, hin⟩ := IncludeStack.exists_enter hm
        have := length_outside_lt hin hd
        exact entered stack module inside hin fun k hk => ih inside k (by omega) hk.declared
  by_cases hm : module ∈ stack.entries
  · exact repeated stack module hm
  · obtain ⟨inside, hin⟩ := IncludeStack.exists_enter hm
    exact entered stack module inside hin fun k hk => declared _ inside k (Nat.le_refl _) hk.declared

/-- What a module adds and how it ends depends only on how the effects of the modules that it
reaches run. -/
theorem piece_of_runAlike {r' : Renderer}
    (h : ∀ n, r.Reaches module n → Effect.RunAlike (r'.moduleEffects n) (r.moduleEffects n))
    (stack : IncludeStack) : r'.piece stack module = r.piece stack module := by
  induction stack, module using r.include_induction with
  | repeated stack a hm => rw [piece_of_mem hm, piece_of_mem hm]
  | entered stack a inside hin ih =>
    rw [piece_of_enter hin, piece_of_enter hin, effectPiece, h a .refl]
    congr 1
    apply List.map_congr_left
    intro effect he
    cases effect with
    | emit text => rfl
    | fail e => rfl
    | splice k =>
      have hak : r.Includes a k := splice_mem_moduleEffects_iff.1 he
      exact ih k hak fun n hn => h n (.head hak hn)

theorem render_of_runAlike {r' : Renderer}
    (h : ∀ n, r.Reaches module n → Effect.RunAlike (r'.moduleEffects n) (r.moduleEffects n))
    (s : IncludeStack × String) : r'.render module s = r.render module s := by
  obtain ⟨stack, text⟩ := s
  rw [render_eq, render_eq, piece_of_runAlike h]

end Renderer
end DocWeave
