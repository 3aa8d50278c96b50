import DocWeave.Proofs.Render.Moments

/-!
# Calls on an include stack

A client enters and leaves modules, renders, and runs `Nest`s of calls inside modules. However a
call comes out, the stack is afterwards what it was before; only entering and leaving change it.

`r.CallStep` leads through a nest call by call, and through each rendering step by step. The calls
that wait for another one say which modules are on the stack: those at first and then, for each call
that runs inside a module, that module (`InOrder`). The nest gets to its end with what `Nest.run`
gives (`callSteps_run`).
-/

namespace DocWeave

/-- A finite nest of calls on one stack. What is called next may depend on how the last call came
out; a nest may stop with a failure at any point. -/
inductive Nest where
  | stop (outcome : Except DocError Unit)
  | render (module : QualifiedName) (next : Except DocError Unit → Nest)
  /-- Runs `body` inside a module. -/
  | within (module : QualifiedName) (body : Nest) (next : Except DocError Unit → Nest)

/-- What the calls of a nest do. -/
def Nest.run (r : Renderer) : Nest → RenderAction
  | stop outcome => fun s => (outcome, s)
  | render module next => fun s =>
    let (outcome, s) := r.render module s
    (next outcome).run r s
  | within module body next => fun s =>
    let (outcome, s) := StackAction.within module (body.run r) s
    (next outcome).run r s

theorem Nest.run_render (r : Renderer) (module : QualifiedName)
    (next : Except DocError Unit → Nest) (s : IncludeStack × String) :
    (render module next).run r s = (next (r.render module s).1).run r (r.render module s).2 := rfl

theorem Nest.run_within (r : Renderer) (module : QualifiedName) (body : Nest)
    (next : Except DocError Unit → Nest) (s : IncludeStack × String) :
    (within module body next).run r s =
      (next (StackAction.within module (body.run r) s).1).run r
        (StackAction.within module (body.run r) s).2 := rfl

/-- A call that a client makes. -/
inductive StackCall where
  | enter (module : QualifiedName)
  | leave
  | render (module : QualifiedName)
  | within (module : QualifiedName) (body : Nest)

def StackCall.perform (r : Renderer) : StackCall → RenderAction
  | enter module => fun (stack, text) =>
    match stack.enter module with
    | .ok inside => (.ok (), inside, text)
    | .error e => (.error e, stack, text)
  | leave => fun (stack, text) => (.ok (), stack.leave, text)
  | render module => r.render module
  | within module body => StackAction.within module (body.run r)

/-- A call as it was made: what it began with, how it came out and what it left behind. -/
structure CallRun where
  call : StackCall
  before : IncludeStack × String
  outcome : Except DocError Unit
  after : IncludeStack × String

def Renderer.callRun (r : Renderer) (s : IncludeStack × String) (call : StackCall) : CallRun where
  call := call
  before := s
  outcome := (call.perform r s).1
  after := (call.perform r s).2

/-- The calls are made one after the other, whatever comes out of them. -/
def Renderer.callRuns (r : Renderer) (s : IncludeStack × String) : List StackCall → List CallRun
  | [] => []
  | call :: rest => r.callRun s call :: r.callRuns (r.callRun s call).after rest

/-! ## Moments of a nest -/

/-- What goes on at a moment. -/
inductive Activity where
  /-- The rest of a nest is to be run. -/
  | call (nest : Nest)
  /-- A rendering is under way. -/
  | rendering (todo : List RenderTask) (outcome : Except DocError Unit)
  /-- A call has come out like this. -/
  | returned (outcome : Except DocError Unit)

/-- What waits for a call to return. -/
inductive Waiting where
  /-- The module is to be left. -/
  | leave (module : QualifiedName)
  /-- The nest goes on. -/
  | next (next : Except DocError Unit → Nest)

/-- The modules that are to be left, the outermost first; what waits longest comes last. -/
def Waiting.inside : List Waiting → List QualifiedName
  | [] => []
  | .leave module :: rest => inside rest ++ [module]
  | .next _ :: rest => inside rest

/-- A moment while calls are made. The modules on the stack are a plain list. -/
structure CallMoment where
  activity : Activity
  waiting : List Waiting
  entries : List QualifiedName
  text : String

namespace Renderer

variable {r : Renderer} {a b : CallMoment} {module : QualifiedName} {nest : Nest}
  {base entries : List QualifiedName} {waiting : List Waiting} {text : String}
  {outcome : Except DocError Unit}

/-- One step through a nest. -/
inductive CallStep (r : Renderer) : CallMoment → CallMoment → Prop where
  | stop {outcome : Except DocError Unit} {waiting : List Waiting} {entries : List QualifiedName}
      {text : String} :
    CallStep r ⟨.call (.stop outcome), waiting, entries, text⟩
      ⟨.returned outcome, waiting, entries, text⟩
  | start {module : QualifiedName} {next : Except DocError Unit → Nest} {waiting : List Waiting}
      {entries : List QualifiedName} {text : String} :
    CallStep r ⟨.call (.render module next), waiting, entries, text⟩
      ⟨.rendering [.perform (.splice module)] (.ok ()), .next next :: waiting, entries, text⟩
  | render {todo todo' : List RenderTask} {outcome outcome' : Except DocError Unit}
      {waiting : List Waiting} {entries entries' : List QualifiedName} {text text' : String} :
    r.Step ⟨todo, entries, text, outcome⟩ ⟨todo', entries', text', outcome'⟩ →
    CallStep r ⟨.rendering todo outcome, waiting, entries, text⟩
      ⟨.rendering todo' outcome', waiting, entries', text'⟩
  | rendered {outcome : Except DocError Unit} {waiting : List Waiting}
      {entries : List QualifiedName} {text : String} :
    CallStep r ⟨.rendering [] outcome, waiting, entries, text⟩
      ⟨.returned outcome, waiting, entries, text⟩
  | enter {module : QualifiedName} {body : Nest} {next : Except DocError Unit → Nest}
      {waiting : List Waiting} {entries : List QualifiedName} {text : String} : module ∉ entries →
    CallStep r ⟨.call (.within module body next), waiting, entries, text⟩
      ⟨.call body, .leave module :: .next next :: waiting, entries ++ [module], text⟩
  | repeated {module : QualifiedName} {body : Nest} {next : Except DocError Unit → Nest}
      {waiting : List Waiting} {entries : List QualifiedName} {text : String} : module ∈ entries →
    CallStep r ⟨.call (.within module body next), waiting, entries, text⟩
      ⟨.returned (.error (.circularInclude module (entries ++ [module]))), .next next :: waiting,
        entries, text⟩
  | leave {outcome : Except DocError Unit} {module : QualifiedName} {waiting : List Waiting}
      {entries : List QualifiedName} {text : String} :
    CallStep r ⟨.returned outcome, .leave module :: waiting, entries, text⟩
      ⟨.returned outcome, waiting, entries.dropLast, text⟩
  | next {outcome : Except DocError Unit} {next : Except DocError Unit → Nest}
      {waiting : List Waiting} {entries : List QualifiedName} {text : String} :
    CallStep r ⟨.returned outcome, .next next :: waiting, entries, text⟩
      ⟨.call (next outcome), waiting, entries, text⟩

/-- Any number of steps. -/
abbrev CallSteps (r : Renderer) : CallMoment → CallMoment → Prop :=
  Relation.ReflTransGen r.CallStep

/-! ## What is on the stack -/

/-- The modules on the stack are distinct. They are those at first and those that are to be left,
and while a rendering is under way those that it has entered as well. -/
structure InOrder (r : Renderer) (base : List QualifiedName) (a : CallMoment) : Prop where
  nodup : a.entries.Nodup
  entries : match a.activity with
    | .call _ | .returned _ => a.entries = base ++ Waiting.inside a.waiting
    | .rendering todo outcome => ∃ module,
      r.Within module (base ++ Waiting.inside a.waiting) ⟨todo, a.entries, a.text, outcome⟩

namespace InOrder

/-- A rendering that has nothing left to do has left all modules that it entered. -/
theorem eq_of_within_done (h : r.Within module base ⟨[], entries, text, outcome⟩) :
    entries = base := by
  obtain ⟨inner, hentries, hlength, -⟩ := h.entered
  rw [List.countP_nil, List.length_eq_zero_iff] at hlength
  simpa [hlength] using hentries

theorem step (h : r.InOrder base a) (hstep : r.CallStep a b) : r.InOrder base b := by
  obtain ⟨hnodup, hentries⟩ := h
  cases hstep with
  | stop => exact ⟨hnodup, hentries⟩
  | @start module =>
    simp only at hentries hnodup
    refine ⟨hnodup, module, ?_⟩
    rw [hentries] at hnodup ⊢
    exact .start hnodup
  | render hrender =>
    obtain ⟨module, hwithin⟩ := hentries
    have hwithin' := hwithin.step hrender
    exact ⟨hwithin'.nodup, module, hwithin'⟩
  | rendered =>
    obtain ⟨module, hwithin⟩ := hentries
    exact ⟨hnodup, eq_of_within_done hwithin⟩
  | @enter module _ _ _ _ _ hm =>
    refine ⟨List.nodup_append_comm.1 (List.nodup_cons.2 ⟨hm, hnodup⟩), ?_⟩
    simp only at hentries ⊢
    rw [hentries, Waiting.inside, List.append_assoc]
    rfl
  | repeated => exact ⟨hnodup, hentries⟩
  | leave =>
    refine ⟨(List.dropLast_sublist _).nodup hnodup, ?_⟩
    simp only at hentries ⊢
    rw [hentries, Waiting.inside, ← List.append_assoc, List.dropLast_concat]
  | next => exact ⟨hnodup, hentries⟩

theorem steps (h : r.InOrder base a) (hsteps : r.CallSteps a b) : r.InOrder base b := by
  induction hsteps with
  | refl => exact h
  | tail _ hstep ih => exact ih.step hstep

end InOrder

/-! ## What calls add up to -/

theorem stack_render (r : Renderer) (module : QualifiedName) (s : IncludeStack × String) :
    (r.render module s).2.1 = s.1 :=
  congrArg (·.2.1) (r.render_eq s.1 module s.2)

/-- However the calls of a nest come out, they leave the stack as it was. -/
theorem stack_run (r : Renderer) (nest : Nest) (s : IncludeStack × String) :
    (nest.run r s).2.1 = s.1 := by
  induction nest generalizing s with
  | stop outcome => rfl
  | render module next ih => rw [Nest.run_render, ih, stack_render]
  | within module body next ihbody ihnext =>
    rw [Nest.run_within, ihnext, StackAction.stack_within ihbody]

variable {s : IncludeStack × String} {next : Except DocError Unit → Nest} {body : Nest}

theorem callSteps_of_steps {a b : Moment} (h : r.Steps a b) :
    r.CallSteps ⟨.rendering a.todo a.outcome, waiting, a.entries, a.text⟩
      ⟨.rendering b.todo b.outcome, waiting, b.entries, b.text⟩ := by
  induction h with
  | refl => exact .refl
  | tail _ hstep ih => exact ih.tail (.render hstep)

/-- A rendering comes to what `render` gives, and the nest goes on. -/
theorem callSteps_render (r : Renderer) (s : IncludeStack × String) :
    r.CallSteps ⟨.call (.render module next), waiting, s.1.entries, s.2⟩
      ⟨.call (next (r.render module s).1), waiting, s.1.entries, (r.render module s).2.2⟩ := by
  obtain ⟨stack, text⟩ := s
  have hsteps := r.steps_render module stack text
  rw [render_eq] at hsteps ⊢
  exact .head .start ((callSteps_of_steps hsteps).trans (.head .rendered (.single .next)))

/-- What runs inside a module comes to its end there, and the nest goes on outside of it. -/
theorem callSteps_within
    (hbody : ∀ s waiting, r.CallSteps ⟨.call body, waiting, s.1.entries, s.2⟩
      ⟨.returned (body.run r s).1, waiting, s.1.entries, (body.run r s).2.2⟩) :
    r.CallSteps ⟨.call (.within module body next), waiting, s.1.entries, s.2⟩
      ⟨.call (next (StackAction.within module (body.run r) s).1), waiting, s.1.entries,
        (StackAction.within module (body.run r) s).2.2⟩ := by
  obtain ⟨stack, text⟩ := s
  by_cases hm : module ∈ stack.entries
  · rw [StackAction.within_of_mem hm]
    exact .head (.repeated hm) (.single .next)
  · obtain ⟨inside, hin⟩ := IncludeStack.exists_enter hm
    have hentries := (IncludeStack.entries_of_enter hin).2
    have hleave : inside.entries.dropLast = stack.entries := by
      rw [hentries, List.dropLast_concat]
    rw [StackAction.within_of_enter hin]
    refine .head (.enter hm) ?_
    rw [← hentries, ← hleave]
    exact (hbody (inside, text) _).trans (.head .leave (.single .next))

/-- Call by call, a nest comes to what `Nest.run` gives. -/
theorem callSteps_run (r : Renderer) (nest : Nest) (s : IncludeStack × String)
    (waiting : List Waiting) :
    r.CallSteps ⟨.call nest, waiting, s.1.entries, s.2⟩
      ⟨.returned (nest.run r s).1, waiting, s.1.entries, (nest.run r s).2.2⟩ := by
  induction nest generalizing s waiting with
  | stop outcome => exact .single .stop
  | render module next ih =>
    have hrest := ih (r.render module s).1 (r.render module s).2 waiting
    rw [stack_render] at hrest
    exact (r.callSteps_render s).trans hrest
  | within module body next ihbody ihnext =>
    have hrest := ihnext (StackAction.within module (body.run r) s).1
      (StackAction.within module (body.run r) s).2 waiting
    rw [StackAction.stack_within (r.stack_run body)] at hrest
    exact (callSteps_within ihbody).trans hrest

/-! ## Any sequence of calls -/

/-- What the call `p` that runs a nest does to the stack, while it lasts and in the end. -/
structure Restores (r : Renderer) (p : CallRun) (nest : Nest) : Prop where
  /-- Call by call, the nest comes to the outcome of `p`. -/
  ends : r.CallSteps ⟨.call nest, [], p.before.1.entries, p.before.2⟩
    ⟨.returned p.outcome, [], p.after.1.entries, p.after.2⟩
  entries_eq : p.after.1.entries = p.before.1.entries
  nodup : ∀ a, r.CallSteps ⟨.call nest, [], p.before.1.entries, p.before.2⟩ a → a.entries.Nodup
  /-- Inside a module there are the modules outside of it on the stack, and then the module. -/
  inside : ∀ rest waiting entries text,
    r.CallSteps ⟨.call nest, [], p.before.1.entries, p.before.2⟩
      ⟨.call rest, waiting, entries, text⟩ →
    entries = p.before.1.entries ++ Waiting.inside waiting
  /-- Each call of the nest comes back to the stack on which it is made. -/
  returns : ∀ called next waiting entries text,
    r.CallSteps ⟨.call nest, [], p.before.1.entries, p.before.2⟩
      ⟨.call called, waiting, entries, text⟩ →
    ((∃ module, called = .render module next) ∨
      ∃ module body, called = .within module body next) →
    ∃ outcome text', r.CallSteps ⟨.call called, waiting, entries, text⟩
      ⟨.call (next outcome), waiting, entries, text'⟩

theorem inOrder_of_callSteps (h : r.CallSteps ⟨.call nest, [], s.1.entries, s.2⟩ a) :
    r.InOrder s.1.entries a :=
  InOrder.steps ⟨s.1.nodup_entries, (List.append_nil _).symm⟩ h

theorem restores_of_run {p : CallRun} (hrun : nest.run r p.before = (p.outcome, p.after)) :
    r.Restores p nest where
  ends := by
    have hends := r.callSteps_run nest p.before []
    have hstack := r.stack_run nest p.before
    rw [hrun] at hends hstack
    rwa [← hstack] at hends ⊢
  entries_eq := by
    have hstack := r.stack_run nest p.before
    rw [hrun] at hstack
    rw [hstack]
  nodup a h := (inOrder_of_callSteps h).nodup
  inside rest waiting entries text h := (inOrder_of_callSteps h).entries
  returns := by
    intro called next waiting entries text h hcalled
    let stack : IncludeStack := ⟨entries, (inOrder_of_callSteps h).nodup⟩
    rcases hcalled with ⟨module, rfl⟩ | ⟨module, body, rfl⟩
    · exact ⟨_, _, r.callSteps_render (stack, text)⟩
    · exact ⟨_, _, callSteps_within (s := (stack, text)) (r.callSteps_run body)⟩

/-- What holds of every call that can be made holds of those that are made one after the other. -/
theorem forall_mem_callRuns {P : CallRun → Prop} {calls : List StackCall}
    (h : ∀ s call, P (r.callRun s call)) : ∀ p ∈ r.callRuns s calls, P p := by
  induction calls generalizing s with
  | nil => exact List.forall_mem_nil P
  | cons call rest ih => exact List.forall_mem_cons.2 ⟨h s call, ih⟩

/-- A module is entered unless it is on the stack; then the circle is reported and nothing else
happens. -/
theorem callRun_enter (r : Renderer) (s : IncludeStack × String) (module : QualifiedName) :
    (module ∈ s.1.entries ∧ (r.callRun s (.enter module)).after = s ∧
      (r.callRun s (.enter module)).outcome =
        .error (.circularInclude module (s.1.entries ++ [module]))) ∨
    (module ∉ s.1.entries ∧ (r.callRun s (.enter module)).outcome = .ok () ∧
      (r.callRun s (.enter module)).after.1.entries = s.1.entries ++ [module]) := by
  by_cases hm : module ∈ s.1.entries
  · refine .inl ⟨hm, ?_⟩
    simp only [callRun, StackCall.perform, IncludeStack.enter_of_mem hm, and_self]
  · obtain ⟨inside, hin⟩ := IncludeStack.exists_enter hm
    refine .inr ⟨hm, ?_⟩
    simp only [callRun, StackCall.perform, hin, (IncludeStack.entries_of_enter hin).2, and_self]

/-- Whatever calls are made on an empty stack, the modules on it are always distinct. A module can
be entered just if it is not on the stack, and it comes on top; otherwise the stack stays as it is,
and the failure lists it and then the module. To render a module, or to run anything inside one,
leaves the stack as it was before, and the same holds of every call on the way, whatever they come
to; inside a module the stack is the one outside and then the module. -/
theorem callRuns_keep_stack (r : Renderer) (calls : List StackCall) (text : String) :
    ∀ p ∈ r.callRuns ({}, text) calls,
      p.before.1.entries.Nodup ∧ p.after.1.entries.Nodup ∧
      match p.call with
      | .enter module =>
        (module ∈ p.before.1.entries ∧ p.after = p.before ∧ p.outcome =
          .error (.circularInclude module (p.before.1.entries ++ [module]))) ∨
        (module ∉ p.before.1.entries ∧ p.outcome = .ok () ∧
          p.after.1.entries = p.before.1.entries ++ [module])
      | .leave => p.outcome = .ok () ∧ p.after.1.entries = p.before.1.entries.dropLast
      | .render module => r.Restores p (.render module .stop)
      | .within module body => r.Restores p (.within module body .stop) := by
  refine forall_mem_callRuns fun s call => ⟨s.1.nodup_entries, IncludeStack.nodup_entries _, ?_⟩
  cases call with
  | enter module => exact r.callRun_enter s module
  | leave => exact ⟨rfl, rfl⟩
  | render module | within module body => exact restores_of_run rfl

/-- Inside `a` and `c` the rendering of `d` runs into `c`, then `c` cannot be entered again, and the
nest stops with that failure; in the end there is `a` on the stack again, and `a` cannot be entered
either. -/
theorem callRuns_keep_stack_sample :
    let body : Nest := .render "d" fun _ => .within "c" (.stop (.ok ())) fun rejected =>
      .render "a.b" fun _ => .stop rejected
    ∃ first nested last,
      sample.callRuns ({}, "") [.enter "a", .within "c" body, .enter "a"] = [first, nested, last] ∧
      nested.before.1.entries = ["a"] ∧ nested.after.2 = "zy" ∧
      nested.outcome = .error (.circularInclude "c" ["a", "c", "c"]) ∧
      nested.after.1.entries = nested.before.1.entries ∧
      sample.Restores nested (.within "c" body .stop) ∧
      last.outcome = .error (.circularInclude "a" ["a", "a"]) ∧ last.after = last.before := by
  intro body
  let first := sample.callRun ({}, "") (.enter "a")
  let nested := sample.callRun first.after (.within "c" body)
  let last := sample.callRun nested.after (.enter "a")
  have hruns : sample.callRuns ({}, "") [.enter "a", .within "c" body, .enter "a"] =
      [first, nested, last] := rfl
  have hkeep :=
    callRuns_keep_stack sample [.enter "a", .within "c" body, .enter "a"] ""
  rw [hruns] at hkeep
  have hnested : sample.Restores nested (.within "c" body .stop) :=
    (hkeep nested (by simp)).2.2
  have hbefore : last.before.1.entries = ["a"] := by decide +kernel
  refine ⟨first, nested, last, hruns, ?_, ?_, ?_, hnested.entries_eq, hnested, ?_⟩
  · decide +kernel
  · decide +kernel
  · decide +kernel
  · rcases (hkeep last (by simp)).2.2 with ⟨-, hafter, houtcome⟩ | ⟨hm, -⟩
    · rw [hbefore] at houtcome
      exact ⟨houtcome, hafter⟩
    · rw [hbefore] at hm
      exact (hm List.mem_cons_self).elim

end Renderer
end DocWeave
