import DocWeave.Proofs.Pass.Run

/-!
# Passes in another order

A pass renders every module on its own. So, unless a failure is fatal, another order of the modules
brings the same texts and the same diagnostics in another order. Failures are recorded under the
modules that they are attributed to, where the last one replaces those before. Any two of them are
the same failure of that module (`sameFor_of_renderModule`), and only the way on which a circle was
reached can differ.
-/

namespace DocWeave

namespace DocError

variable {e e' : DocError} {n : QualifiedName} {chain chain' : List QualifiedName}

/-- The same failure of the module `n`; the chains of a circle may lead to `n` on different ways. -/
inductive SameFor (n : QualifiedName) : DocError → DocError → Prop where
  | refl (e : DocError) : SameFor n e e
  | circle {before before' rest : List QualifiedName} : n ∉ before → n ∉ before' →
    SameFor n (.circularInclude n (before ++ n :: rest))
      (.circularInclude n (before' ++ n :: rest))

theorem repeated_own_iff : e.own.Repeated n ↔ e.Repeated n := by
  cases e <;> simp [own, Repeated]

theorem own_eq_self (hn : e.module? = some n) (h : ¬ e.Repeated n) : e.own = e := by
  cases e with
  | circularInclude x chain =>
    cases hn
    exact (h ⟨chain, rfl⟩).elim
  | _ => rfl

/-- A chain that comes to `n` is the way to `n` and then the circle that `n` meets on its own. -/
theorem exists_eq_append_of_head? (h : (chain.dropWhile (· != n)).head? = some n) :
    ∃ before rest, chain = before ++ n :: rest ∧ n ∉ before ∧
      chain.dropWhile (· != n) = n :: rest := by
  obtain ⟨rest, hrest⟩ := List.head?_eq_some_iff.1 h
  refine ⟨chain.takeWhile (· != n), rest, ?_, ?_, hrest⟩
  · rw [← hrest, List.takeWhile_append_dropWhile]
  · intro hn
    simpa using List.mem_takeWhile_imp hn

theorem sameFor_of_own_eq
    (heq : (circularInclude n chain).own = (circularInclude n chain').own)
    (hhead : (chain.dropWhile (· != n)).head? = some n) :
    (circularInclude n chain).SameFor n (circularInclude n chain') := by
  have hdrop : chain.dropWhile (· != n) = chain'.dropWhile (· != n) :=
    (circularInclude.inj heq).2
  obtain ⟨before, rest, rfl, hbefore, hrest⟩ := exists_eq_append_of_head? hhead
  obtain ⟨before', rest', rfl, hbefore', hrest'⟩ := exists_eq_append_of_head? (hdrop ▸ hhead)
  cases hrest.symm.trans (hdrop.trans hrest')
  exact .circle hbefore hbefore'

end DocError

namespace PassState

variable {s : PassState} {delivered : List (QualifiedName × String)}
  {failed : List (QualifiedName × DocError)} {n : QualifiedName} {message : String}

theorem mem_keys_failures_extend (hclean : s.failures = .empty) :
    n ∈ (s.extend delivered failed).failures.keys ↔ n ∈ failed.map attributed := by
  rw [keys_failures_extend hclean, List.mem_eraseDups]

/-- A recorded message is that of a failure which is attributed to the module. -/
theorem exists_failure_of_find? (hclean : s.failures = .empty)
    (h : (s.extend delivered failed).failures.find? n = some (n, message)) :
    ∃ f ∈ failed, attributed f = n ∧ f.2.message = message := by
  rw [find?_failures_extend hclean] at h
  obtain ⟨f, hlast, hf⟩ := Option.map_eq_some_iff.1 h
  obtain ⟨hmem, hn⟩ := List.mem_filter.1 (List.mem_of_getLast? hlast)
  exact ⟨f, hmem, eq_of_beq hn, (Prod.ext_iff.1 hf).2⟩

end PassState

namespace Renderer

variable {r : Renderer} {a b n : QualifiedName} {e e' : DocError}
  {modules modules' : List QualifiedName} {s : PassState}

/-- Two failures that are attributed to one module are the same failure of that module. -/
theorem sameFor_of_renderModule (ha : r.renderModule a = .error e)
    (hb : r.renderModule b = .error e') (hn : e.module? = some n) (hn' : e'.module? = some n) :
    e.SameFor n e' := by
  obtain ⟨m, hm, -, hown⟩ := exists_module_of_renderModule_error ha
  obtain ⟨m', hm', -, hown'⟩ := exists_module_of_renderModule_error hb
  cases hn.symm.trans hm
  cases hn'.symm.trans hm'
  have heq : e.own = e'.own := Except.error.inj (hown.symm.trans hown')
  have hrepeated : e.Repeated n ↔ e'.Repeated n := by
    rw [← DocError.repeated_own_iff, heq, DocError.repeated_own_iff]
  by_cases hcircle : e.Repeated n
  · obtain ⟨chain', rfl⟩ := hrepeated.1 hcircle
    obtain ⟨chain, rfl⟩ := hcircle
    -- on its own the module reports a chain that starts with it
    exact DocError.sameFor_of_own_eq heq ((circle_of_render r n).2 n _ hown).1
  · rw [DocError.own_eq_self hn hcircle,
      DocError.own_eq_self hn' (hrepeated.not.1 hcircle)] at heq
    rw [heq]
    exact .refl e'

theorem findSome?_fatal?_eq_none
    (h : ∀ m ∈ modules, ∀ e, r.renderModule m = .error e → e.isFatal = false) :
    modules.findSome? r.fatal? = none := by
  rw [List.findSome?_eq_none_iff]
  intro m hm
  rw [Option.eq_none_iff_forall_ne_some]
  intro e he
  obtain ⟨herror, hfatal⟩ := fatal?_eq_some_iff.1 he
  rw [h m hm e herror] at hfatal
  cases hfatal

/-- Without a fatal failure, another order of the modules brings the same deliveries and the same
failures in another order. -/
theorem perm_deliveries_and_failings (hperm : modules.Perm modules')
    (h : modules.findSome? r.fatal? = none) (h' : modules'.findSome? r.fatal? = none) :
    (r.deliveries modules).Perm (r.deliveries modules') ∧
      (r.failings modules).Perm (r.failings modules') := by
  rw [deliveries_eq_filterMap, deliveries_eq_filterMap, failings_eq_filterMap,
    failings_eq_filterMap, beforeFatal_eq_self h, beforeFatal_eq_self h']
  exact ⟨hperm.filterMap _, hperm.filterMap _⟩

/-- A pass without a fatal failure comes to the same in any order of its modules. The modules that
it renders, those that fail and the diagnostics that it reports are the same but for their order;
the results have the same text for every module, and the failures are recorded under the same
modules. The messages under a module may differ only if it is on a circle, in how the chain comes
to the module. -/
theorem runPass_perm (r : Renderer) (s : PassState) (modules modules' : List QualifiedName)
    (hclean : s.failures.isEmpty = true) (hperm : modules.Perm modules')
    (hfatal : ∀ m ∈ modules, ∀ e, r.renderModule m = .error e → e.isFatal = false) :
    ∃ (report report' : PassReport) (after after' : PassState) (reported reported' : Diagnostics),
      r.runPass modules s = (.ok report, after) ∧
      r.runPass modules' s = (.ok report', after') ∧
      report.rendered.Perm report'.rendered ∧ report.failed.Perm report'.failed ∧
      after.diagnostics = s.diagnostics ++ reported ∧
      after'.diagnostics = s.diagnostics ++ reported' ∧ reported.Perm reported' ∧
      (∀ n, after.results.find? n = after'.results.find? n) ∧
      after.failures.keys.Perm after'.failures.keys ∧
      ∀ n message message', after.failures.find? n = some (n, message) →
        after'.failures.find? n = some (n, message') →
          ∃ e e' : DocError, message = e.message ∧ message' = e'.message ∧ e.SameFor n e' := by
  have hnone := findSome?_fatal?_eq_none hfatal
  have hnone' : modules'.findSome? r.fatal? = none :=
    findSome?_fatal?_eq_none fun m hm => hfatal m (hperm.mem_iff.2 hm)
  obtain ⟨hdelivered, hfailed⟩ := perm_deliveries_and_failings hperm hnone hnone'
  have hempty : s.failures = .empty := Registry.eq_empty_of_isEmpty hclean
  rw [runPass_eq hclean, runPass_eq hclean, hnone, hnone']
  refine ⟨_, _, _, _, _, _, rfl, rfl, hdelivered.map _, hfailed.map _, rfl, rfl, hfailed.map _,
    ?_, ?_, ?_⟩
  · rw [PassState.results_extend, PassState.results_extend]
    refine Registry.find?_foldl_insert_perm _ hdelivered fun d hd d' hd' hname => ?_
    have htext := renderModule_of_mem_deliveries hd
    rw [hname, renderModule_of_mem_deliveries hd'] at htext
    exact Prod.ext hname (Except.ok.inj htext).symm
  · refine (List.perm_ext_iff_of_nodup (Registry.nodup_keys _) (Registry.nodup_keys _)).2 ?_
    intro n
    show n ∈ Registry.keys _ ↔ n ∈ Registry.keys _
    rw [PassState.mem_keys_failures_extend hempty, PassState.mem_keys_failures_extend hempty]
    exact (hfailed.map attributed).mem_iff
  · intro n message message' h h'
    obtain ⟨f, hf, hn, rfl⟩ := PassState.exists_failure_of_find? hempty h
    obtain ⟨f', hf', hn', rfl⟩ := PassState.exists_failure_of_find? hempty h'
    have hmodule := (recorded_of_mem_failings hf).2
    have hmodule' := (recorded_of_mem_failings hf').2
    rw [hn] at hmodule
    rw [hn'] at hmodule'
    exact ⟨f.2, f'.2, rfl, rfl, sameFor_of_renderModule (renderModule_of_mem_failings hf)
      (renderModule_of_mem_failings hf') hmodule hmodule'⟩

/-- `e` and `c` both fail by the circle of `c` and `d`. The message under `c` is that of the last of
them, so it depends on the order whether its chain begins with `e`. -/
theorem runPass_perm_sample :
    ∃ (report report' : PassReport) (after after' : PassState),
      sample.runPass ["e", "a", "c", "a.b"] {} = (.ok report, after) ∧
      sample.runPass ["c", "a.b", "e", "a"] {} = (.ok report', after') ∧
      report.rendered.Perm report'.rendered ∧ report.failed.Perm report'.failed ∧
      after.diagnostics.Perm after'.diagnostics ∧
      (∀ n, after.results.find? n = after'.results.find? n) ∧
      after.failures.keys.Perm after'.failures.keys ∧
      after.failures.find? "c" = some ("c", "Circular include of c: c -> d -> c") ∧
      after'.failures.find? "c" = some ("c", "Circular include of c: e -> c -> d -> c") ∧
      ∃ e e' : DocError, e.message = "Circular include of c: c -> d -> c" ∧
        e'.message = "Circular include of c: e -> c -> d -> c" ∧ e.SameFor "c" e' := by
  have hfatal : ∀ m ∈ ["e", "a", "c", "a.b"], ∀ e,
      sample.renderModule m = .error e → e.isFatal = false := by
    have hnone : ∀ m ∈ ["e", "a", "c", "a.b"], sample.fatal? m = none := by decide +kernel
    intro m hm e he
    rw [Bool.eq_false_iff]
    intro h
    cases (hnone m hm).symm.trans (fatal?_eq_some_iff.2 ⟨he, h⟩)
  have hc : (sample.runPass ["e", "a", "c", "a.b"] {}).2.failures.find? "c" =
      some ("c", "Circular include of c: c -> d -> c") := by decide +kernel
  have hc' : (sample.runPass ["c", "a.b", "e", "a"] {}).2.failures.find? "c" =
      some ("c", "Circular include of c: e -> c -> d -> c") := by decide +kernel
  obtain ⟨report, report', after, after', reported, reported', hrun, hrun', hrendered, hfailed,
    hdiagnostics, hdiagnostics', hreported, hresults, hkeys, hmessages⟩ :=
    runPass_perm sample {} ["e", "a", "c", "a.b"] ["c", "a.b", "e", "a"] rfl (by decide) hfatal
  rw [hrun] at hc
  rw [hrun'] at hc'
  obtain ⟨e, e', he, he', hsame⟩ := hmessages "c" _ _ hc hc'
  refine ⟨report, report', after, after', hrun, hrun', hrendered, hfailed, ?_, hresults, hkeys,
    hc, hc', e, e', he.symm, he'.symm, hsame⟩
  rw [hdiagnostics, hdiagnostics']
  exact hreported.append_left _

end Renderer
end DocWeave
