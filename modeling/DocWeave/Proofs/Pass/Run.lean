import DocWeave.Pass
import DocWeave.Proofs.Render.Attribution
import Mathlib.Data.List.TakeWhile

/-!
# What a pass comes to

A pass looks at the modules one by one and stops at the first whose failure is fatal. It delivers
the texts of those before that render and records the failures of the others, so the state that it
leaves is that of its start, extended by the two lists (`passThrough_eq`). Failures are recorded
under the module that they are attributed to, the names in the report are those asked for.
-/

namespace DocWeave

/-- The module under which a failure of a module is recorded. -/
def attributed : QualifiedName × DocError → QualifiedName
  | (module, e) => e.module?.getD module

/-- The state after the texts are delivered and the failures are recorded, both in order. -/
def PassState.extend (s : PassState) (delivered : List (QualifiedName × String))
    (failed : List (QualifiedName × DocError)) : PassState where
  accepted := s.accepted ++ delivered
  failures := (failed.map fun f => (attributed f, f.2.message)).foldl Registry.insert s.failures
  diagnostics := s.diagnostics ++ failed.map fun f => .ofError (attributed f) f.2

namespace PassState

variable {s : PassState} {delivered : List (QualifiedName × String)}
  {failed : List (QualifiedName × DocError)}

theorem extend_nil (s : PassState) : s.extend [] [] = s := by
  simp [extend]

theorem extend_accept (module : QualifiedName) (text : String) :
    (s.accept module text).extend delivered failed =
      s.extend ((module, text) :: delivered) failed := by
  simp [extend, accept]

theorem extend_recordFailure (module : QualifiedName) (e : DocError) :
    (s.recordFailure module e).extend delivered failed =
      s.extend delivered ((module, e) :: failed) := by
  simp [extend, recordFailure, Diagnostics.report, attributed]

/-- The store goes on from what it held. -/
theorem results_extend :
    (s.extend delivered failed).results = delivered.foldl Registry.insert s.results := by
  rw [results, extend, List.foldl_append]
  rfl

theorem keys_failures_extend (hclean : s.failures = .empty) :
    (s.extend delivered failed).failures.keys = (failed.map attributed).eraseDups := by
  rw [extend, hclean, Registry.keys_foldl_insert_empty, List.map_map]
  rfl

/-- Under each module the message of the last failure attributed to it is kept. -/
theorem find?_failures_extend (hclean : s.failures = .empty) (n : QualifiedName) :
    (s.extend delivered failed).failures.find? n =
      (failed.filter (attributed · == n)).getLast?.map fun f => (n, f.2.message) := by
  rw [extend, hclean, Registry.find?_foldl_insert, List.filter_map, List.getLast?_map]
  have hkey : ((·.1 == n) ∘ fun f : QualifiedName × DocError => (attributed f, f.2.message)) =
      (attributed · == n) := rfl
  rw [hkey]
  cases hlast : (failed.filter (attributed · == n)).getLast? with
  | none => rfl
  | some f =>
    have hf : attributed f = n := by
      simpa using List.of_mem_filter (List.mem_of_getLast? hlast)
    rw [Option.map_some, Option.map_some, hf]
    rfl

end PassState

namespace Renderer

variable {r : Renderer} {modules : List QualifiedName} {n : QualifiedName}

/-- The modules that a pass renders before the first fatal failure, with their texts. -/
def deliveries (r : Renderer) : List QualifiedName → List (QualifiedName × String)
  | [] => []
  | module :: rest =>
    match r.renderModule module with
    | .ok text => (module, text) :: r.deliveries rest
    | .error e => if e.isFatal then [] else r.deliveries rest

/-- The modules that fail before the first fatal failure, with their failures. -/
def failings (r : Renderer) : List QualifiedName → List (QualifiedName × DocError)
  | [] => []
  | module :: rest =>
    match r.renderModule module with
    | .ok _ => r.failings rest
    | .error e => if e.isFatal then [] else (module, e) :: r.failings rest

theorem renderModule_of_mem_deliveries {text : String} (h : (n, text) ∈ r.deliveries modules) :
    r.renderModule n = .ok text := by
  induction modules with
  | nil => cases h
  | cons module rest ih =>
    rw [deliveries] at h
    split at h
    · rename_i htext
      rcases List.mem_cons.1 h with h | h
      · cases h
        exact htext
      · exact ih h
    · split at h
      · cases h
      · exact ih h

theorem renderModule_of_mem_failings {e : DocError} (h : (n, e) ∈ r.failings modules) :
    r.renderModule n = .error e := by
  induction modules with
  | nil => cases h
  | cons module rest ih =>
    rw [failings] at h
    split at h
    · exact ih h
    · rename_i he
      split at h
      · cases h
      · rcases List.mem_cons.1 h with h | h
        · cases h
          exact he
        · exact ih h

/-! ## The modules before the first fatal failure -/

/-- The failure of a module, if it ends a pass. -/
def fatal? (r : Renderer) (module : QualifiedName) : Option DocError :=
  match r.renderModule module with
  | .ok _ => none
  | .error e => if e.isFatal then some e else none

/-- The modules before the first whose failure is fatal. -/
def beforeFatal (r : Renderer) (modules : List QualifiedName) : List QualifiedName :=
  modules.takeWhile fun module => (r.fatal? module).isNone

/-- The text of a module that renders. -/
def delivery? (r : Renderer) (module : QualifiedName) : Option (QualifiedName × String) :=
  match r.renderModule module with
  | .ok text => some (module, text)
  | .error _ => none

/-- The failure of a module that does not render. -/
def failing? (r : Renderer) (module : QualifiedName) : Option (QualifiedName × DocError) :=
  match r.renderModule module with
  | .ok _ => none
  | .error e => some (module, e)

theorem fatal?_eq_some_iff {e : DocError} :
    r.fatal? n = some e ↔ r.renderModule n = .error e ∧ e.isFatal = true := by
  unfold fatal?
  cases r.renderModule n with
  | ok text => simp
  | error e' =>
    by_cases h : e'.isFatal = true
    · simp only [h, ↓reduceIte, Option.some.injEq, Except.error.injEq]
      exact ⟨fun he => ⟨he, he ▸ h⟩, And.left⟩
    · simp only [h, Bool.false_eq_true, ↓reduceIte, reduceCtorEq, Except.error.injEq, false_iff]
      rintro ⟨rfl, he⟩
      exact h he

theorem failing?_eq_some_iff {f : QualifiedName × DocError} :
    r.failing? n = some f ↔ f.1 = n ∧ r.renderModule n = .error f.2 := by
  obtain ⟨module, e⟩ := f
  unfold failing?
  cases r.renderModule n <;> simp [Prod.ext_iff, eq_comm]

theorem beforeFatal_cons {module : QualifiedName} {rest : List QualifiedName} :
    r.beforeFatal (module :: rest) =
      match r.renderModule module with
      | .ok _ => module :: r.beforeFatal rest
      | .error e => if e.isFatal then [] else module :: r.beforeFatal rest := by
  rw [beforeFatal, List.takeWhile_cons, fatal?]
  cases r.renderModule module with
  | ok text => rfl
  | error e => by_cases hfatal : e.isFatal = true <;> simp [hfatal, beforeFatal]

theorem deliveries_eq_filterMap (r : Renderer) (modules : List QualifiedName) :
    r.deliveries modules = (r.beforeFatal modules).filterMap r.delivery? := by
  induction modules with
  | nil => rfl
  | cons module rest ih =>
    rw [deliveries, beforeFatal_cons]
    cases hm : r.renderModule module with
    | ok text => simp [delivery?, hm, ih]
    | error e => by_cases hfatal : e.isFatal = true <;> simp [hfatal, delivery?, hm, ih]

theorem failings_eq_filterMap (r : Renderer) (modules : List QualifiedName) :
    r.failings modules = (r.beforeFatal modules).filterMap r.failing? := by
  induction modules with
  | nil => rfl
  | cons module rest ih =>
    rw [failings, beforeFatal_cons]
    cases hm : r.renderModule module with
    | ok text => simp [failing?, hm, ih]
    | error e => by_cases hfatal : e.isFatal = true <;> simp [hfatal, failing?, hm, ih]

/-! ## The run of a pass -/

/-- A pass extends the state by what it delivers and what it records, and ends with the first fatal
failure or with the names of both. -/
theorem passThrough_eq (r : Renderer) (modules : List QualifiedName) (report : PassReport)
    (s : PassState) :
    r.passThrough modules report s =
      (match modules.findSome? r.fatal? with
        | some e => .error e
        | none => .ok { report with
          rendered := report.rendered ++ (r.deliveries modules).map Prod.fst
          failed := report.failed ++ (r.failings modules).map Prod.fst },
      s.extend (r.deliveries modules) (r.failings modules)) := by
  induction modules generalizing report s with
  | nil => simp [passThrough, deliveries, failings, PassState.extend_nil]
  | cons module rest ih =>
    rw [passThrough, deliveries, failings, List.findSome?_cons, fatal?]
    cases hm : r.renderModule module with
    | ok text =>
      simp only
      rw [ih, PassState.extend_accept]
      simp
    | error e =>
      by_cases hfatal : e.isFatal = true
      · simp [hfatal, PassState.extend_nil]
      · simp only [hfatal, Bool.false_eq_true, ↓reduceIte]
        rw [ih, PassState.extend_recordFailure]
        simp

theorem runPass_eq {s : PassState} (hclean : s.failures.isEmpty = true) :
    r.runPass modules s =
      (match modules.findSome? r.fatal? with
        | some e => .error e
        | none => .ok {
          rendered := (r.deliveries modules).map Prod.fst
          failed := (r.failings modules).map Prod.fst },
      s.extend (r.deliveries modules) (r.failings modules)) := by
  rw [runPass, if_pos hclean, passThrough_eq]
  rfl

theorem after_runPass {s : PassState} (hclean : s.failures.isEmpty = true) :
    (r.runPass modules s).2 = s.extend (r.deliveries modules) (r.failings modules) := by
  rw [runPass_eq hclean]

/-! ## The parts of a pass -/

/-- A pass over the modules before the first fatal failure is not broken off. -/
theorem findSome?_beforeFatal : (r.beforeFatal modules).findSome? r.fatal? = none := by
  rw [List.findSome?_eq_none_iff]
  intro module hm
  simpa using List.mem_takeWhile_imp hm

theorem beforeFatal_beforeFatal :
    r.beforeFatal (r.beforeFatal modules) = r.beforeFatal modules := by
  rw [beforeFatal, List.takeWhile_eq_self_iff]
  intro module hm
  simpa using List.findSome?_eq_none_iff.1 findSome?_beforeFatal module hm

theorem beforeFatal_eq_self (h : modules.findSome? r.fatal? = none) :
    r.beforeFatal modules = modules := by
  rw [beforeFatal, List.takeWhile_eq_self_iff]
  intro module hm
  simpa using List.findSome?_eq_none_iff.1 h module hm

/-- The first fatal failure is that of the module that comes next. -/
theorem exists_split_of_findSome? {e : DocError} (h : modules.findSome? r.fatal? = some e) :
    ∃ module rest, modules = r.beforeFatal modules ++ module :: rest ∧
      r.fatal? module = some e := by
  obtain ⟨before, module, rest, rfl, he, hbefore⟩ := List.findSome?_eq_some_iff.1 h
  refine ⟨module, rest, ?_, he⟩
  have : r.beforeFatal (before ++ module :: rest) = before := by
    rw [beforeFatal, List.takeWhile_append_of_pos (by simpa using hbefore),
      List.takeWhile_cons_of_neg (by simp [he]), List.append_nil]
  rw [this]

/-- A pass reports on all modules, or it ends with the first fatal failure. -/
theorem outcome_runPass (r : Renderer) (modules : List QualifiedName) {s : PassState}
    (hclean : s.failures.isEmpty = true) :
    (r.beforeFatal modules = modules ∧ (r.runPass modules s).1 = .ok {
        rendered := (r.deliveries modules).map Prod.fst
        failed := (r.failings modules).map Prod.fst }) ∨
      ∃ module e rest, modules = r.beforeFatal modules ++ module :: rest ∧
        r.renderModule module = .error e ∧ e.isFatal = true ∧
        (r.runPass modules s).1 = .error e := by
  rw [runPass_eq hclean]
  cases hfatal : modules.findSome? r.fatal? with
  | none => exact .inl ⟨beforeFatal_eq_self hfatal, rfl⟩
  | some e =>
    obtain ⟨module, rest, hsplit, he⟩ := exists_split_of_findSome? hfatal
    obtain ⟨herror, hends⟩ := fatal?_eq_some_iff.1 he
    exact .inr ⟨module, e, rest, hsplit, herror, hends, rfl⟩

/-- What a pass leaves is what a pass over the modules before the first fatal failure leaves. -/
theorem runPass_beforeFatal {s : PassState} (hclean : s.failures.isEmpty = true) :
    r.runPass (r.beforeFatal modules) s = (.ok {
        rendered := (r.deliveries modules).map Prod.fst
        failed := (r.failings modules).map Prod.fst },
      (r.runPass modules s).2) := by
  rw [after_runPass hclean, runPass_eq hclean, findSome?_beforeFatal, deliveries_eq_filterMap,
    failings_eq_filterMap, beforeFatal_beforeFatal, ← deliveries_eq_filterMap,
    ← failings_eq_filterMap]

/-- Every module is delivered or it fails. -/
theorem length_filterMap_add (r : Renderer) (modules : List QualifiedName) :
    (modules.filterMap r.delivery?).length + (modules.filterMap r.failing?).length =
      modules.length := by
  induction modules with
  | nil => rfl
  | cons module rest ih =>
    rw [List.filterMap_cons, List.filterMap_cons, delivery?, failing?]
    cases r.renderModule module with
    | ok text | error e =>
      simp only [List.length_cons]
      omega

theorem not_mem_failings_of_mem_deliveries (h : n ∈ (r.deliveries modules).map Prod.fst) :
    n ∉ (r.failings modules).map Prod.fst := by
  intro hfailed
  obtain ⟨d, hd, rfl⟩ := List.mem_map.1 h
  obtain ⟨f, hf, hn⟩ := List.mem_map.1 hfailed
  have hok := renderModule_of_mem_deliveries hd
  have herror := renderModule_of_mem_failings hf
  rw [hn, hok] at herror
  cases herror

/-- What is recorded does not end the pass, and it is recorded under the module that the failure
itself names. -/
theorem recorded_of_mem_failings {f : QualifiedName × DocError} (hf : f ∈ r.failings modules) :
    f.2.isFatal = false ∧ f.2.module? = some (attributed f) := by
  have herror := renderModule_of_mem_failings hf
  refine ⟨?_, ?_⟩
  · rw [failings_eq_filterMap] at hf
    obtain ⟨module, hm, hfailing⟩ := List.mem_filterMap.1 hf
    obtain ⟨rfl, -⟩ := failing?_eq_some_iff.1 hfailing
    have hnone := List.findSome?_eq_none_iff.1 findSome?_beforeFatal f.1 hm
    rw [Bool.eq_false_iff]
    intro hfatal
    rw [fatal?_eq_some_iff.2 ⟨herror, hfatal⟩] at hnone
    cases hnone
  · obtain ⟨m, hm, -⟩ := exists_module_of_renderModule_error herror
    rw [attributed, hm, Option.getD_some]

/-- A pass that starts without failures delivers, of the modules before the first fatal failure,
those that render, each with its text and once for each time that it is asked for, in order, and
nothing else; so the store that it leaves has their last texts. It reports one diagnostic for each
of those that fail, with the module, the code and the message of the failure; and it leaves failures
under the modules that these are attributed to, in the order in which each comes first, with its
last message. If there is no fatal failure, the report names the delivered modules and those that
failed, in order, none is among both, and together they are as many as were asked for. Otherwise the
pass ends with that failure and leaves what a pass over the modules before leaves. -/
theorem runPass_meaning (r : Renderer) (modules : List QualifiedName) (s : PassState)
    (hclean : s.failures.isEmpty = true) :
    let before := r.beforeFatal modules
    let delivered := before.filterMap r.delivery?
    let failed := before.filterMap r.failing?
    let report : PassReport :=
      { rendered := delivered.map Prod.fst, failed := failed.map Prod.fst, skipped := false }
    let outcome := (r.runPass modules s).1
    let after := (r.runPass modules s).2
    after.accepted = s.accepted ++ delivered ∧
    after.results = delivered.foldl Registry.insert s.results ∧
    after.diagnostics = s.diagnostics ++ failed.map (fun f =>
      { module := attributed f, severity := .error, code? := some f.2.code,
        message := f.2.message }) ∧
    after.failures.keys = (failed.map attributed).eraseDups ∧
    (∀ n, after.failures.find? n =
      (failed.filter (attributed · == n)).getLast?.map fun f => (n, f.2.message)) ∧
    (∀ f ∈ failed, f.2.isFatal = false ∧ f.2.module? = some (attributed f)) ∧
    (∀ n ∈ report.rendered, n ∉ report.failed) ∧
    ((before = modules ∧ outcome = .ok report ∧ report.attempted = modules.length) ∨
      ∃ module e rest, modules = before ++ module :: rest ∧ r.renderModule module = .error e ∧
        e.isFatal = true ∧ outcome = .error e) ∧
    r.runPass before s = (.ok report, after) := by
  intro before delivered failed report outcome after
  have hdelivered : r.deliveries modules = delivered := deliveries_eq_filterMap ..
  have hfailed : r.failings modules = failed := failings_eq_filterMap ..
  have hafter : after = s.extend delivered failed := by
    rw [← hdelivered, ← hfailed]
    exact after_runPass hclean
  have hempty : s.failures = .empty := Registry.eq_empty_of_isEmpty hclean
  have hreport : report = {
      rendered := (r.deliveries modules).map Prod.fst
      failed := (r.failings modules).map Prod.fst } := by
    rw [hdelivered, hfailed]
  refine ⟨?_, ?_, ?_, ?_, ?_, ?_, ?_, ?_, ?_⟩
  · rw [hafter]
    rfl
  · rw [hafter, PassState.results_extend]
  · rw [hafter]
    rfl
  · rw [hafter, PassState.keys_failures_extend hempty]
  · intro n
    rw [hafter, PassState.find?_failures_extend hempty]
  · rw [← hfailed]
    intro f hf
    exact recorded_of_mem_failings hf
  · rw [hreport]
    intro n hn
    exact not_mem_failings_of_mem_deliveries hn
  · rcases r.outcome_runPass modules hclean with ⟨hall, houtcome⟩ | hbroken
    · refine .inl ⟨hall, houtcome.trans (congrArg _ hreport.symm), ?_⟩
      calc report.attempted = delivered.length + failed.length := by
            rw [PassReport.attempted, List.length_map, List.length_map]
        _ = before.length := length_filterMap_add r before
        _ = modules.length := congrArg List.length hall
    · exact .inr hbroken
  · rw [hreport]
    exact runPass_beforeFatal hclean

/-- `sample` with a module `f`, one of whose imports has no qualifier. -/
def sampleWithImport : Renderer :=
  { sample with
    workspace := (sample.workspace.addModule
      { name := "f", imports := [{ path := "List" }] }).setDoc "f" (.tree [.link "Foo" []]) }

/-- `a` is asked for three times and delivered twice, since the failure of `f` ends the pass. Those
of `e` and of `c` are both recorded under `c`, the second in place of the first. -/
theorem runPass_meaning_sample :
    ∃ after, sampleWithImport.runPass ["e", "a", "c", "a", "d", "f", "a"] {} =
        (.error (.malformedImport "f" "List"), after) ∧
      after.accepted = [("a", "xy"), ("a", "xy")] ∧ after.results.entries = [("a", "xy")] ∧
      after.diagnostics.map (·.module) = ["c", "c", "d"] ∧ after.failures.keys = ["c", "d"] ∧
      after.failures.find? "c" = some ("c", "Circular include of c: c -> d -> c") ∧
      sampleWithImport.runPass ["e", "a", "c", "a", "d"] {} =
        (.ok { rendered := ["a", "a"], failed := ["e", "c", "d"] }, after) := by
  have hbefore : sampleWithImport.beforeFatal ["e", "a", "c", "a", "d", "f", "a"] =
      ["e", "a", "c", "a", "d"] := by
    decide +kernel
  have hdelivered : ["e", "a", "c", "a", "d"].filterMap sampleWithImport.delivery? =
      [("a", "xy"), ("a", "xy")] := by
    decide +kernel
  have hfailed : ["e", "a", "c", "a", "d"].filterMap sampleWithImport.failing? =
      [("e", .circularInclude "c" ["e", "c", "d", "c"]),
        ("c", .circularInclude "c" ["c", "d", "c"]),
        ("d", .circularInclude "d" ["d", "c", "d"])] := by
    decide +kernel
  have hfatal : sampleWithImport.renderModule "f" = .error (.malformedImport "f" "List") := by
    decide +kernel
  have hmeaning :=
    runPass_meaning sampleWithImport ["e", "a", "c", "a", "d", "f", "a"] {} rfl
  simp only [hbefore, hdelivered, hfailed] at hmeaning
  obtain ⟨haccepted, hresults, hdiagnostics, hkeys, hfind, -, -, houtcome, hrun⟩ := hmeaning
  refine ⟨(sampleWithImport.runPass ["e", "a", "c", "a", "d", "f", "a"] {}).2, Prod.ext ?_ rfl,
    haccepted, ?_, ?_, ?_, ?_, hrun⟩
  · rcases houtcome with ⟨heq, -⟩ | ⟨module, e, rest, hsplit, he, -, houtcome⟩
    · cases heq
    · cases hsplit
      rw [hfatal] at he
      cases he
      exact houtcome
  · rw [hresults]
    rfl
  · rw [hdiagnostics]
    rfl
  · rw [hkeys]
    decide
  · rw [hfind]
    decide +kernel

end Renderer
end DocWeave
