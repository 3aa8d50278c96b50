import DocWeave.Proofs.Pass.Run

/-!
# The gate that failures close

A generator runs passes over a workspace that is edited between them. The first pass that records
a failure closes the gate: every later one is skipped and leaves the state as it is, whatever the
edits repair. It does so too when a fatal failure breaks it off; a pass that is broken off before it
records anything leaves the gate open.
-/

namespace DocWeave

/-- A renderer with what its passes have left behind so far. -/
structure Generator where
  renderer : Renderer
  state : PassState := {}

/-- A pass as it was run: what it began with, how it ended and what it left behind. -/
structure PassRun where
  before : PassState
  outcome : Except DocError PassReport
  after : PassState

namespace PassRun

def changesFailures (p : PassRun) : Bool :=
  p.after.failures.entries != p.before.failures.entries

/-- The pass reports that it was skipped, did nothing and left everything as it was. -/
def Skipped (p : PassRun) : Prop :=
  p.outcome = .ok { rendered := [], failed := [], skipped := true } ∧ p.after = p.before

theorem Skipped.changesFailures_eq_false {p : PassRun} (h : p.Skipped) :
    p.changesFailures = false := by
  rw [changesFailures, h.2, bne_self_eq_false]

/-- If no pass changes the failures after one that does, only one of them changes them. -/
theorem countP_changesFailures_le_one {runs : List PassRun}
    (h : runs.Pairwise fun p q => p.changesFailures = true → q.changesFailures = false) :
    runs.countP changesFailures ≤ 1 := by
  induction h with
  | nil => exact Nat.zero_le 1
  | @cons p later hlater _ ih =>
    by_cases hp : p.changesFailures = true
    · have hnone : later.countP changesFailures = 0 :=
        List.countP_eq_zero.2 fun q hq => Bool.not_eq_true _ ▸ hlater q hq hp
      rw [List.countP_cons_of_pos hp, hnone]
    · rwa [List.countP_cons_of_neg hp]

end PassRun

namespace Generator

/-- What happens to a generator: its workspace is edited, or it runs a pass over some modules. -/
inductive Step where
  | edit (change : Workspace → Workspace)
  | pass (modules : List QualifiedName)

def edit (g : Generator) (change : Workspace → Workspace) : Generator :=
  { g with renderer := { g.renderer with workspace := change g.renderer.workspace } }

/-- The pass over some modules that the generator runs next. -/
def passRun (g : Generator) (modules : List QualifiedName) : PassRun where
  before := g.state
  outcome := (g.renderer.runPass modules g.state).1
  after := (g.renderer.runPass modules g.state).2

/-- The passes that are run while the steps are taken, in order. -/
def passes (g : Generator) : List Step → List PassRun
  | [] => []
  | .edit change :: rest => (g.edit change).passes rest
  | .pass modules :: rest =>
    g.passRun modules :: { g with state := (g.passRun modules).after }.passes rest

variable {g : Generator} {history : List Step} {modules : List QualifiedName} {p q : PassRun}

/-! ## One pass -/

theorem skipped_passRun (h : g.state.failures.isEmpty = false) (modules : List QualifiedName) :
    (g.passRun modules).Skipped := by
  have hskip : g.renderer.runPass modules g.state = (.ok { skipped := true }, g.state) := by
    rw [Renderer.runPass, h, if_neg Bool.false_ne_true]
  exact ⟨congrArg Prod.fst hskip, congrArg Prod.snd hskip⟩

/-- A pass that begins without failures leaves some just if it fails to render some module. -/
theorem isEmpty_failures_passRun (h : g.state.failures.isEmpty = true) :
    (g.passRun modules).after.failures.isEmpty = (g.renderer.failings modules).isEmpty := by
  have hafter : (g.passRun modules).after =
      g.state.extend (g.renderer.deliveries modules) (g.renderer.failings modules) :=
    Renderer.after_runPass h
  have hempty : g.state.failures = .empty := Registry.eq_empty_of_isEmpty h
  rw [hafter, ← Registry.isEmpty_keys, PassState.keys_failures_extend hempty]
  cases g.renderer.failings modules with
  | nil => rfl
  | cons f rest => rw [List.map_cons, List.eraseDups_cons, List.isEmpty_cons, List.isEmpty_cons]

/-- The report of a pass that is not skipped names the modules that it fails to render. -/
theorem failed_of_passRun {report : PassReport} (h : g.state.failures.isEmpty = true)
    (hreport : (g.passRun modules).outcome = .ok report) :
    report.failed = (g.renderer.failings modules).map Prod.fst := by
  rw [passRun, Renderer.runPass_eq h] at hreport
  simp only at hreport
  split at hreport
  · cases hreport
  · cases hreport
    rfl

/-- A pass that begins without failures is run to its end or to a fatal failure. -/
theorem outcome_passRun (h : g.state.failures.isEmpty = true) (modules : List QualifiedName) :
    (∃ report, (g.passRun modules).outcome = .ok report ∧ report.skipped = false) ∨
      ∃ e, (g.passRun modules).outcome = .error e ∧ e.isFatal = true := by
  rcases g.renderer.outcome_runPass modules h with
    ⟨-, houtcome⟩ | ⟨_, e, _, -, -, hfatal, houtcome⟩
  · exact .inl ⟨_, houtcome, rfl⟩
  · exact .inr ⟨e, houtcome, hfatal⟩

theorem isEmpty_of_changesFailures_passRun (h : (g.passRun modules).changesFailures = true) :
    g.state.failures.isEmpty = true := by
  rw [← Bool.not_eq_false]
  intro hclosed
  rw [(skipped_passRun hclosed modules).changesFailures_eq_false] at h
  cases h

/-- A pass that changes the failures leaves some. -/
theorem isEmpty_after_of_changesFailures_passRun
    (h : (g.passRun modules).changesFailures = true) :
    (g.passRun modules).after.failures.isEmpty = false := by
  have hbefore : g.state.failures.entries = [] :=
    List.isEmpty_iff.1 (isEmpty_of_changesFailures_passRun h)
  rw [PassRun.changesFailures, bne_iff_ne] at h
  rw [Registry.isEmpty, List.isEmpty_eq_false_iff]
  intro hafter
  exact h (hafter.trans hbefore.symm)

/-! ## The passes of a history -/

/-- What holds of every pass that a generator can run holds of those of a history. -/
theorem forall_mem_passes {P : PassRun → Prop} (h : ∀ g modules, P (passRun g modules)) :
    ∀ p ∈ g.passes history, P p := by
  induction history generalizing g with
  | nil => exact List.forall_mem_nil P
  | cons step rest ih =>
    cases step with
    | edit change => exact ih
    | pass modules => exact List.forall_mem_cons.2 ⟨h g modules, ih⟩

/-- Once there are failures, all passes are skipped and begin with the same state. -/
theorem skipped_of_mem_passes (h : g.state.failures.isEmpty = false)
    (hq : q ∈ g.passes history) : q.Skipped ∧ q.before = g.state := by
  induction history generalizing g with
  | nil => cases hq
  | cons step rest ih =>
    cases step with
    | edit change => exact ih (g := g.edit change) h hq
    | pass modules =>
      have hskip := skipped_passRun h modules
      have hsame : (g.passRun modules).after = g.state := hskip.2
      rcases List.mem_cons.1 hq with rfl | hq
      · exact ⟨hskip, rfl⟩
      · rw [hsame] at hq
        exact ih h hq

/-- After a pass that changes the failures, all are skipped. -/
theorem pairwise_passes (g : Generator) (history : List Step) :
    (g.passes history).Pairwise fun p q =>
      p.changesFailures = true → q.Skipped ∧ q.before = p.after := by
  induction history generalizing g with
  | nil => exact .nil
  | cons step rest ih =>
    cases step with
    | edit change => exact ih (g.edit change)
    | pass modules =>
      refine .cons ?_ (ih _)
      intro q hq hchange
      exact skipped_of_mem_passes (isEmpty_after_of_changesFailures_passRun hchange) hq

/-- However passes and edits follow each other, the failures are changed by one pass at most. There
are none before it, and each later pass is skipped: it returns, renders nothing, fails nothing and
leaves all that there was after the pass that changed them. A pass that begins without failures is
not skipped, so it returns unless a failure is fatal. When a pass returns and was not skipped, there
are failures just if its report has failed modules. -/
theorem failure_gate (g : Generator) (history : List Step) :
    let runs := g.passes history
    runs.countP PassRun.changesFailures ≤ 1 ∧
    (∀ p ∈ runs, p.changesFailures = true → p.before.failures.isEmpty = true) ∧
    (runs.Pairwise fun p q => p.changesFailures = true → q.Skipped ∧ q.before = p.after) ∧
    (∀ p ∈ runs, p.before.failures.isEmpty = true →
      (∃ report, p.outcome = .ok report ∧ report.skipped = false) ∨
        ∃ e, p.outcome = .error e ∧ e.isFatal = true) ∧
    ∀ p ∈ runs, ∀ report, p.outcome = .ok report → report.skipped = false →
      (p.after.failures.isEmpty = false ↔ report.failed ≠ []) := by
  intro runs
  have hlater := pairwise_passes g history
  refine ⟨?_, ?_, hlater, ?_, ?_⟩
  · exact PassRun.countP_changesFailures_le_one
      (hlater.imp fun h hp => (h hp).1.changesFailures_eq_false)
  · exact forall_mem_passes fun g modules => isEmpty_of_changesFailures_passRun
  · exact forall_mem_passes fun g modules hopen => outcome_passRun hopen modules
  · refine forall_mem_passes fun g modules report hreport hskipped => ?_
    have hopen : g.state.failures.isEmpty = true := by
      rw [← Bool.not_eq_false]
      intro hclosed
      -- a skipped pass says so in its report
      rw [(skipped_passRun hclosed modules).1] at hreport
      cases hreport
      cases hskipped
    rw [isEmpty_failures_passRun hopen, failed_of_passRun hopen hreport,
      List.isEmpty_eq_false_iff, Ne, Ne, List.map_eq_nil_iff]

/-- The first pass is broken off by `f` before it records anything, and so the second is run; that
one records the failure of `e` and is broken off as well. Once `c` is edited `e` would render, but
the last pass is skipped. -/
theorem failure_gate_sample :
    let repair := fun w : Workspace => w.setDoc "c" (.tree [])
    let g : Generator := { renderer := Renderer.sampleWithImport }
    ∃ first second third, g.passes [.pass ["f", "e"], .pass ["a", "e", "f"], .edit repair,
        .pass ["a", "e"]] = [first, second, third] ∧
      (g.edit repair).renderer.renderModule "e" = .ok "" ∧
      first.changesFailures = false ∧ second.changesFailures = true ∧
      third.outcome = .ok { rendered := [], failed := [], skipped := true } ∧
      third.before = second.after ∧ third.after = second.after ∧
      third.after.failures.keys = ["c"] := by
  intro repair g
  let broken := g.passRun ["f", "e"]
  let closing : PassRun := { g with state := broken.after }.passRun ["a", "e", "f"]
  let late : PassRun := { g.edit repair with state := closing.after }.passRun ["a", "e"]
  have hruns : g.passes [.pass ["f", "e"], .pass ["a", "e", "f"], .edit repair,
      .pass ["a", "e"]] = [broken, closing, late] := rfl
  have hchange : closing.changesFailures = true := by decide +kernel
  have hkeys : closing.after.failures.keys = ["c"] := by decide +kernel
  obtain ⟨-, -, hlater, -, -⟩ := failure_gate g [.pass ["f", "e"], .pass ["a", "e", "f"],
    .edit repair, .pass ["a", "e"]]
  rw [hruns, List.pairwise_cons, List.pairwise_cons] at hlater
  obtain ⟨⟨houtcome, hafter⟩, hbefore⟩ := hlater.2.1 late List.mem_cons_self hchange
  refine ⟨broken, closing, late, hruns, ?_, ?_, hchange, houtcome, hbefore,
    hafter.trans hbefore, ?_⟩
  · decide +kernel
  · decide +kernel
  · rw [hafter, hbefore, hkeys]

end Generator
end DocWeave
