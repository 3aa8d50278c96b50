import DocWeave.Proofs.Pass.Run

/-!
# Why a pass is broken off

A fatal failure is met at an active link of a module that is reached, when a name of the link is
looked for among the imports of that module and one of them cannot be split. So no pass is broken
off where all imports can be split, nor where the links write qualified names and primitive types
alone.
-/

namespace DocWeave.Renderer

variable {r : Renderer} {stack : IncludeStack} {a n module : QualifiedName} {e : DocError}
  {modules : List QualifiedName} {s : PassState}

/-- An active link of the module has the name among those that it asks the imports for. -/
def Consults (r : Renderer) (module name : QualifiedName) : Prop :=
  ∃ signature label reference, r.Active module (.link signature label) ∧
    Reference.parse signature = .ok reference ∧ reference.Asks name

/-- A module that is reached asks its imports for a name although one of them cannot be split. The
failure reports the first of these. -/
inductive ImportFails (r : Renderer) (module : QualifiedName) : DocError → Prop where
  | intro {n name : QualifiedName} {imp : Import} (reached : r.Reaches module n)
    (consulted : r.Consults n name)
    (first : (r.workspace.index.imports n).find? (·.split?.isNone) = some imp) :
    ImportFails r module (.malformedImport n imp.path)

/-! ## Fatal failures of a module -/

/-- Among the nodes of a module only a link can fail fatally, and it does because of an import. -/
theorem consults_of_fail_mem (h : .fail e ∈ r.moduleEffects n) (hfatal : e.isFatal = true) :
    (∃ name, r.Consults n name) ∧ (r.scopeOf n).malformedImport? = some e := by
  rcases (mem_moduleEffects_iff (by simp)).1 h with ⟨signature, label, hactive, he⟩ | ⟨t, -, he⟩
  · rcases linkEffect_eq_fail_iff.1 he.symm with
      ⟨cause, -, rfl⟩ | ⟨reference, hparse, hresolve | ⟨-, rfl⟩⟩
    · cases hfatal
    · obtain ⟨⟨name, hasks⟩, himport⟩ := Scope.failure_of_resolve? hresolve
      exact ⟨⟨name, signature, label, reference, hactive, hparse, hasks⟩, himport⟩
    · cases hfatal
  · obtain ⟨-, rfl⟩ := inclusionEffect_eq_fail_iff.1 he.symm
    cases hfatal

/-- A fatal failure is that of a node of a module that is reached. -/
theorem fail_mem_of_piece (he : (r.piece stack a).outcome = .error e) (hfatal : e.isFatal = true) :
    ∃ n, r.Reaches a n ∧ .fail e ∈ r.moduleEffects n := by
  induction stack, a using r.include_induction with
  | repeated stack a hm =>
    rw [piece_of_mem hm] at he
    cases he
    cases hfatal
  | entered stack a inside hin ih =>
    rcases fail_or_includes_of_piece hin he with hfail | ⟨k, hk, hke⟩
    · exact ⟨a, .refl, hfail⟩
    · obtain ⟨n, hn, hfail⟩ := ih k hk hke
      exact ⟨n, .head hk hn, hfail⟩

theorem importFails_of_renderModule (he : r.renderModule module = .error e)
    (hfatal : e.isFatal = true) : r.ImportFails module e := by
  obtain ⟨n, hn, hfail⟩ := fail_mem_of_piece (renderModule_eq_error_iff.1 he) hfatal
  obtain ⟨⟨name, hname⟩, himport⟩ := consults_of_fail_mem hfail hfatal
  obtain ⟨imp, himp, rfl⟩ := Option.map_eq_some_iff.1 himport
  exact .intro hn hname himp

/-! ## Passes that are broken off -/

/-- A pass is broken off by the fatal failure of one of its modules. -/
theorem exists_fatal_of_runPass (he : (r.runPass modules s).1 = .error e) :
    e.isFatal = true ∧ ∃ module ∈ modules, r.renderModule module = .error e := by
  by_cases hclean : s.failures.isEmpty = true
  · rcases outcome_runPass r modules hclean with ⟨-, hok⟩ |
      ⟨module, e', rest, hsplit, hm, hends, herror⟩
    · rw [hok] at he
      cases he
    · rw [herror] at he
      cases he
      refine ⟨hends, module, ?_, hm⟩
      rw [hsplit]
      exact List.mem_append_right _ List.mem_cons_self
  · rw [runPass, if_neg hclean] at he
    cases he

/-- Where the imports can be split or are not asked, none of them fails. -/
theorem not_importFails
    (h : ∀ n, r.Reaches module n →
      (∀ imp ∈ r.workspace.index.imports n, imp.split? ≠ none) ∨ ∀ name, ¬ r.Consults n name) :
    ¬ r.ImportFails module e := by
  rintro ⟨hn, hname, hfirst⟩
  rcases h _ hn with hsplit | hnone
  · exact hsplit _ (List.mem_of_find?_eq_some hfirst) (by simpa using List.find?_some hfirst)
  · exact hnone _ hname

/-- Only an import can break off a pass, and only when it is asked. A fatal failure of a module
reports the first import that cannot be split, of a module that is reached and of which an active
link has a name, in its target or in the type of a parameter, that is neither empty nor qualified
nor that of a primitive type. A pass is broken off by such a failure of one of its modules. No
member is ever looked for without its name. So a pass ends with its report if all imports of the
modules that are reached can be split, or if their links ask for no such names. -/
theorem importFails_of_fatal (r : Renderer) :
    (∀ module e, r.renderModule module = .error e → e.isFatal = true → r.ImportFails module e) ∧
    (∀ modules s e, (r.runPass modules s).1 = .error e → e.isFatal = true ∧
      ∃ module ∈ modules, r.renderModule module = .error e ∧ r.ImportFails module e) ∧
    (∀ target, (∀ module, r.renderModule module ≠ .error (.missingMemberName target)) ∧
      ∀ modules s, (r.runPass modules s).1 ≠ .error (.missingMemberName target)) ∧
    ∀ modules, (∀ module ∈ modules, ∀ n, r.Reaches module n →
        (∀ imp ∈ r.workspace.index.imports n, imp.split? ≠ none) ∨ ∀ name, ¬ r.Consults n name) →
      ∀ s, ∃ report, (r.runPass modules s).1 = .ok report := by
  have hmodule : ∀ module e, r.renderModule module = .error e → e.isFatal = true →
      r.ImportFails module e := fun _ _ => importFails_of_renderModule
  have hpass : ∀ modules s e, (r.runPass modules s).1 = .error e → e.isFatal = true ∧
      ∃ module ∈ modules, r.renderModule module = .error e ∧ r.ImportFails module e := by
    intro modules s e he
    obtain ⟨hfatal, module, hm, herror⟩ := exists_fatal_of_runPass he
    exact ⟨hfatal, module, hm, herror, hmodule module e herror hfatal⟩
  refine ⟨hmodule, hpass, fun target => ⟨fun module he => ?_, fun modules s he => ?_⟩, ?_⟩
  · cases hmodule module _ he rfl
  · obtain ⟨-, module, -, -, hfails⟩ := hpass modules s _ he
    cases hfails
  · intro modules hsound s
    cases hrun : (r.runPass modules s).1 with
    | ok report => exact ⟨report, rfl⟩
    | error e =>
      obtain ⟨-, module, hm, -, hfails⟩ := hpass modules s e hrun
      exact (not_importFails (hsound module hm) hfails).elim

/-- `g` includes `f`. Each of `f` and `k` has an import that cannot be split, and a link to a method
with two overloads. -/
def sampleWithOverloads : Renderer where
  workspace := [("f", ["java.util.Set", "List"], "q.T#m(int, Foo[])"), ("g", [], "f"),
    ("k", ["List"], "q.T#m( int [] )")].foldl
      (fun w (name, imports, signature) =>
        (w.addModule { name, imports := imports.map fun path => { path } }).setDoc name
          (.tree [.link signature []]))
      (({} : Workspace).addType { name := "q.T", members := [
        { name := "m", kind := .method, params := [.array (.primitive .int)] },
        { name := "m", kind := .method, params := [.primitive .int, .declared "q.T"] }] })
  links := Javadoc.links ""

/-- The link of `k` writes a qualified name and an array of a primitive type. -/
theorem not_consults_sample (name : QualifiedName) : ¬ sampleWithOverloads.Consults "k" name := by
  rintro ⟨signature, label, reference, ⟨nodes, hdoc, hactive⟩, hparse, hasks⟩
  have hnodes : sampleWithOverloads.workspace.docTree? "k" =
      some [.link "q.T#m( int [] )" []] := rfl
  have hparams : Reference.parse "q.T#m( int [] )" =
      .ok { target := "q.T", member? := some { name := "m", params? := some ["int []"] } } := by
    decide +kernel
  cases hnodes.symm.trans hdoc
  cases hactive with
  | link hmem =>
    cases List.mem_singleton.1 hmem
    cases hparams.symm.trans hparse
    cases hasks with
    | target htarget => exact htarget.no_dot (by decide)
    | param hp hwritten hasks =>
      cases hp
      cases List.mem_singleton.1 hwritten
      have hint : Primitive.ofKeyword? (Scope.elementName "int []") = some .int := by
        decide +kernel
      cases hint.symm.trans hasks.not_primitive
  | group hmem => cases List.mem_singleton.1 hmem

/-- The second overload is compared with `Foo[]`, so the imports of `f` are asked for `Foo`. Those
of `k` are not asked. -/
theorem importFails_of_fatal_sample :
    sampleWithOverloads.renderModule "g" = .error (.malformedImport "f" "List") ∧
      sampleWithOverloads.ImportFails "g" (.malformedImport "f" "List") ∧
      (sampleWithOverloads.runPass ["k", "g"] {}).1 = .error (.malformedImport "f" "List") ∧
      (∃ module ∈ ["k", "g"],
        sampleWithOverloads.renderModule module = .error (.malformedImport "f" "List") ∧
          sampleWithOverloads.ImportFails module (.malformedImport "f" "List")) ∧
      ∃ report, (sampleWithOverloads.runPass ["k"] {}).1 = .ok report := by
  obtain ⟨hmodule, hpass, -, hends⟩ := importFails_of_fatal sampleWithOverloads
  have hg : sampleWithOverloads.renderModule "g" = .error (.malformedImport "f" "List") := by
    decide +kernel
  have hrun : (sampleWithOverloads.runPass ["k", "g"] {}).1 =
      .error (.malformedImport "f" "List") := by
    decide +kernel
  have hk : sampleWithOverloads.moduleEffects "k" = [.emit "link:q/T.html#m-int:A-[`m`]"] := by
    decide +kernel
  refine ⟨hg, hmodule "g" _ hg rfl, hrun, (hpass _ _ _ hrun).2, hends ["k"] ?_ {}⟩
  intro module hm n hn
  cases List.mem_singleton.1 hm
  -- `k` includes nothing
  rcases hn.cases_head with rfl | ⟨b, hb, -⟩
  · exact .inr not_consults_sample
  · have hsplice := splice_mem_moduleEffects_iff.2 hb
    simp [hk] at hsplice

end DocWeave.Renderer
