import DocWeave.DocError

/-!
# The include stack

The modules that are being rendered, the outermost first. No module is on it twice: entering one
again fails and leaves the stack alone. `StackAction.within` runs an action inside a module and
leaves the module whatever the action's outcome.
-/

namespace DocWeave

structure IncludeStack where
  entries : List QualifiedName := []
  nodup_entries : entries.Nodup := by exact List.nodup_nil

namespace IncludeStack

instance : Inhabited IncludeStack := ⟨{}⟩

def contains (stack : IncludeStack) (module : QualifiedName) : Bool :=
  stack.entries.contains module

def depth (stack : IncludeStack) : Nat :=
  stack.entries.length

/-- Puts a module on top; one that is already on the stack closes a circle. -/
def enter (stack : IncludeStack) (module : QualifiedName) : Except DocError IncludeStack :=
  if h : module ∈ stack.entries then
    .error (.circularInclude module (stack.entries ++ [module]))
  else
    .ok ⟨stack.entries ++ [module], by
      rw [List.nodup_append]
      refine ⟨stack.nodup_entries, by simp, fun a ha b hb => ?_⟩
      rw [List.mem_singleton] at hb
      exact fun hab => h (hb ▸ hab ▸ ha)⟩

/-- The module on top, if there is one. -/
def top? (stack : IncludeStack) : Option QualifiedName :=
  stack.entries.getLast?

/-- Takes the top module off. -/
def leave (stack : IncludeStack) : IncludeStack :=
  ⟨stack.entries.dropLast, (List.dropLast_sublist _).nodup stack.nodup_entries⟩

/-! ## Entering and leaving -/

variable {stack inside : IncludeStack} {module : QualifiedName}

theorem ext_entries {stack stack' : IncludeStack} (h : stack.entries = stack'.entries) :
    stack = stack' := by
  cases stack
  cases stack'
  cases h
  rfl

theorem enter_of_mem (h : module ∈ stack.entries) :
    stack.enter module = .error (.circularInclude module (stack.entries ++ [module])) := by
  rw [enter, dif_pos h]

theorem exists_enter (h : module ∉ stack.entries) : ∃ inside, stack.enter module = .ok inside := by
  rw [enter, dif_neg h]
  exact ⟨_, rfl⟩

/-- Only a module that is not on the stack can be entered, and it comes on top. -/
theorem entries_of_enter (h : stack.enter module = .ok inside) :
    module ∉ stack.entries ∧ inside.entries = stack.entries ++ [module] := by
  unfold enter at h
  split at h
  · cases h
  · rename_i hm
    cases h
    exact ⟨hm, rfl⟩

theorem leave_of_enter (h : stack.enter module = .ok inside) : inside.leave = stack := by
  apply ext_entries
  show inside.entries.dropLast = stack.entries
  rw [(entries_of_enter h).2, List.dropLast_concat]

end IncludeStack

/-- An action on the include stack and on some output. It may fail at any point; stack and output
are then what it has made of them so far. -/
abbrev StackAction (σ : Type) := IncludeStack × σ → Except DocError Unit × (IncludeStack × σ)

namespace StackAction

variable {σ : Type}

/-- One action after the other; a failure of the first is the outcome. -/
def andThen (first second : StackAction σ) : StackAction σ := fun s =>
  match first s with
  | (.ok (), s) => second s
  | (.error e, s) => (.error e, s)

/-- Runs the action inside `module` and leaves the module afterwards, also when the action fails.
If the module cannot be entered, nothing else happens. -/
def within (module : QualifiedName) (action : StackAction σ) : StackAction σ := fun (stack, out) =>
  match stack.enter module with
  | .error e => (.error e, stack, out)
  | .ok inside =>
    let (outcome, stack, out) := action (inside, out)
    (outcome, stack.leave, out)

variable {action : StackAction σ} {stack inside : IncludeStack} {module : QualifiedName}

theorem within_of_mem (h : module ∈ stack.entries) (out : σ) :
    within module action (stack, out) =
      (.error (.circularInclude module (stack.entries ++ [module])), stack, out) := by
  simp only [within, IncludeStack.enter_of_mem h]

theorem within_of_enter (h : stack.enter module = .ok inside) (out : σ) :
    within module action (stack, out) = ((action (inside, out)).1,
      (action (inside, out)).2.1.leave, (action (inside, out)).2.2) := by
  simp only [within, h]

/-- What leaves the stack as it was does so inside a module, too, whether it can be entered or
not. -/
theorem stack_within (h : ∀ s, (action s).2.1 = s.1) (s : IncludeStack × σ) :
    (within module action s).2.1 = s.1 := by
  obtain ⟨stack, out⟩ := s
  by_cases hm : module ∈ stack.entries
  · rw [within_of_mem hm]
  · obtain ⟨inside, hin⟩ := IncludeStack.exists_enter hm
    rw [within_of_enter hin, h, IncludeStack.leave_of_enter hin]

end StackAction
end DocWeave
