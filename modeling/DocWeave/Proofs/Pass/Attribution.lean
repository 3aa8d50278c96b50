import DocWeave.Proofs.Pass.Run

/-!
# What a pass delivers and what it records

A pass delivers the texts of the modules that render and records the failures of the others, up to
the first fatal one. Failures are recorded under the module that they are attributed to, which need
not be one of those that were asked for; since that module fails on its own, its text is never
delivered by the same pass.
-/

namespace DocWeave.Renderer

variable {r : Renderer} {modules : List QualifiedName} {n : QualifiedName}

theorem results_of_passThrough (r : Renderer) (modules : List QualifiedName)
    (report : PassReport) (s : PassState) :
    (r.passThrough modules report s).2.results =
      (r.deliveries modules).foldl Registry.insert s.results := by
  rw [passThrough_eq, PassState.results_extend]

theorem rendered_of_passThrough {report report' : PassReport} {s : PassState}
    (h : (r.passThrough modules report s).1 = .ok report') :
    report'.rendered = report.rendered ++ (r.deliveries modules).map Prod.fst := by
  rw [passThrough_eq] at h
  simp only at h
  split at h
  · cases h
  · cases h
    rfl

/-- The failures that a pass leaves are the old ones and those of the modules that failed. -/
theorem mem_failures_of_passThrough {report : PassReport} {s : PassState}
    (h : n ∈ (r.passThrough modules report s).2.failures.keys) :
    n ∈ s.failures.keys ∨ ∃ f ∈ r.failings modules, f.2.module?.getD f.1 = n := by
  rw [passThrough_eq, PassState.extend, Registry.keys_foldl_insert, List.mem_append] at h
  refine h.imp_right fun hnew => ?_
  have hmem := List.mem_of_mem_filter (List.mem_eraseDups.1 hnew)
  rw [List.map_map] at hmem
  exact List.mem_map.1 hmem

/-- No module that a pass records as failed renders on its own. -/
theorem renderModule_ne_ok_of_failings {f : QualifiedName × DocError}
    (hf : f ∈ r.failings modules) (hn : f.2.module?.getD f.1 = n) (text : String) :
    r.renderModule n ≠ .ok text := by
  obtain ⟨n', hn', -, hown⟩ := exists_module_of_renderModule_error (renderModule_of_mem_failings hf)
  rw [hn', Option.getD_some] at hn
  rw [← hn, hown]
  exact nofun

theorem not_mem_failures_of_runPass {s : PassState} (hclean : s.failures.isEmpty = true)
    {d : QualifiedName × String} (hd : d ∈ r.deliveries modules) :
    d.1 ∉ (r.runPass modules s).2.failures.keys := by
  intro hmem
  rw [runPass, if_pos hclean] at hmem
  rcases mem_failures_of_passThrough hmem with hold | ⟨f, hf, hn⟩
  · have hnil : s.failures.entries = [] := List.isEmpty_iff.1 hclean
    rw [Registry.keys, hnil] at hold
    cases hold
  · exact renderModule_ne_ok_of_failings hf hn d.2 (renderModule_of_mem_deliveries hd)

/-- A failure is attributed to a module that is reached and that has it on its own. So a pass never
delivers the text of a module and records a failure under it as well: not when it ends, when the
delivered modules are those in its report, and not when it is broken off. -/
theorem failure_attribution (r : Renderer) :
    (∀ module e, r.renderModule module = .error e →
      ∃ n, e.module? = some n ∧ r.Reaches module n ∧ r.renderModule n = .error e.own) ∧
    (∀ modules s report s', r.runPass modules s = (.ok report, s') →
      ∀ n ∈ report.rendered, n ∉ s'.failures.keys) ∧
    ∀ modules s outcome s', s.failures.isEmpty = true → r.runPass modules s = (outcome, s') →
      s'.results = (r.deliveries modules).foldl Registry.insert s.results ∧
        (∀ report, outcome = .ok report →
          report.rendered = (r.deliveries modules).map Prod.fst) ∧
        ∀ d ∈ r.deliveries modules, d.1 ∉ s'.failures.keys := by
  have clean : ∀ modules s outcome s', s.failures.isEmpty = true →
      r.runPass modules s = (outcome, s') → r.passThrough modules {} s = (outcome, s') := by
    intro modules s outcome s' hclean h
    rwa [runPass, if_pos hclean] at h
  refine ⟨?_, ?_, ?_⟩
  · intro module e h
    exact exists_module_of_renderModule_error h
  · intro modules s report s' h n hn
    by_cases hclean : s.failures.isEmpty = true
    · have hrun := clean _ _ _ _ hclean h
      rw [rendered_of_passThrough (by rw [hrun]), List.nil_append] at hn
      obtain ⟨d, hd, rfl⟩ := List.mem_map.1 hn
      have hnot := not_mem_failures_of_runPass hclean hd
      rwa [h] at hnot
    · -- the pass was skipped and renders nothing
      rw [runPass, if_neg hclean] at h
      cases h
      cases hn
  · intro modules s outcome s' hclean h
    have hrun := clean _ _ _ _ hclean h
    refine ⟨?_, ?_, ?_⟩
    · have hresults := r.results_of_passThrough modules {} s
      rwa [hrun] at hresults
    · rintro report rfl
      exact rendered_of_passThrough (by rw [hrun])
    · intro d hd
      have hnot := not_mem_failures_of_runPass hclean hd
      rwa [h] at hnot

/-- The failure of `e` is attributed to `c`, which fails on its own, with a shorter chain. A pass
over `a` and `e` delivers `a` and records the failure under `c`. -/
theorem failure_attribution_sample :
    (sample.renderModule "e" = .error (.circularInclude "c" ["e", "c", "d", "c"]) ∧
      sample.Reaches "e" "c" ∧
      sample.renderModule "c" = .error (.circularInclude "c" ["c", "d", "c"])) ∧
    ∃ s, sample.runPass ["a", "e"] {} = (.ok { rendered := ["a"], failed := ["e"] }, s) ∧
      s.failures.keys = ["c"] ∧ "a" ∉ s.failures.keys ∧ s.results.entries = [("a", "xy")] := by
  have he : sample.renderModule "e" = .error (.circularInclude "c" ["e", "c", "d", "c"]) := by
    decide +kernel
  have hreport : (sample.runPass ["a", "e"] {}).1 =
      .ok { rendered := ["a"], failed := ["e"] } := by
    decide +kernel
  have hkeys : (sample.runPass ["a", "e"] {}).2.failures.keys = ["c"] := by decide +kernel
  have hdeliveries : sample.deliveries ["a", "e"] = [("a", "xy")] := by decide +kernel
  have hrun := Prod.ext_iff.2 ⟨hreport, rfl⟩
  obtain ⟨hown, hrendered, hpass⟩ := failure_attribution sample
  obtain ⟨n, hn, hreach, hc⟩ := hown "e" _ he
  cases hn
  refine ⟨⟨he, hreach, hc⟩, _, hrun, hkeys, ?_, ?_⟩
  · exact hrendered _ _ _ _ hrun "a" List.mem_cons_self
  · rw [(hpass _ _ _ _ rfl hrun).1, hdeliveries]
    rfl

end DocWeave.Renderer
