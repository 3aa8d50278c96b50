import DocWeave.Proofs.Resolution.Failure
import DocWeave.Proofs.Resolution.TypeName

/-!
# The order of imports

The search among the imports stops at the first one that settles the name (`lookupImport?_eq`): one
that cannot be split, which is a failure, or one that leads to a declared type. So all that counts
of a list of imports is which of the two comes first, and those that do not settle a name may be
added, dropped and moved.
-/

namespace DocWeave

/-- The path ends in the name and is that of a declared type. -/
def SymbolIndex.Leads (index : SymbolIndex) (name : String) (imp : Import) : Prop :=
  imp.path.simpleName = name ∧ imp.path ∈ index.types.keys

instance (index : SymbolIndex) (name : String) : DecidablePred (index.Leads name) :=
  fun _ => inferInstanceAs (Decidable (_ ∧ _))

/-! ## Positions -/

section Positions

variable {α : Type} {p q : α → Bool} {xs : List α} {i j : Nat}

theorem exists_findIdx?_le {a : α} (hj : xs[j]? = some a) (ha : p a = true) :
    ∃ i, xs.findIdx? p = some i ∧ i ≤ j := by
  obtain ⟨hlt, rfl⟩ := List.getElem?_eq_some_iff.1 hj
  cases hfind : xs.findIdx? p with
  | none =>
    rw [List.findIdx?_eq_none_iff] at hfind
    exact absurd ha (by simp [hfind _ (List.getElem_mem hlt)])
  | some i =>
    obtain ⟨_, -, hbefore⟩ := List.findIdx?_eq_some_iff_getElem.1 hfind
    exact ⟨i, rfl, Nat.le_of_not_lt fun hji => hbefore j hji ha⟩

/-- The first of two kinds comes where no one of the other kind stands before it. -/
theorem find?_or_of_findIdx? (hi : xs.findIdx? p = some i)
    (hq : ∀ j, xs.findIdx? q = some j → ¬ j < i) :
    ∃ a, xs[i]? = some a ∧ p a = true ∧ xs.find? (fun a => p a || q a) = some a := by
  obtain ⟨hlt, hp, hbefore⟩ := List.findIdx?_eq_some_iff_getElem.1 hi
  refine ⟨xs[i], List.getElem?_eq_getElem hlt, hp, List.find?_eq_some_iff_getElem.2
    ⟨by simp [hp], i, hlt, rfl, fun j hj => ?_⟩⟩
  have hnot : ¬ q xs[j] = true := by
    intro hqj
    obtain ⟨k, hk, hkj⟩ := exists_findIdx?_le (List.getElem?_eq_getElem (by omega)) hqj
    exact hq k hk (by omega)
  simp [hbefore j hj, hnot]

end Positions

namespace Scope

variable {scope : Scope} {name written : String} {imports others : List Import}

/-- Whether the search for a name stops at an import. -/
def settles (scope : Scope) (name : String) (imp : Import) : Bool :=
  imp.split?.isNone || scope.index.Leads name imp

/-- What the search comes to at an import that it stops at. -/
def importAnswer (scope : Scope) (imp : Import) : Except DocError (Option QualifiedName) :=
  if imp.split?.isNone then .error (.malformedImport scope.module imp.path)
  else .ok (some imp.path)

/-- The scope after its module has been declared with other imports. -/
def withImports (scope : Scope) (imports : List Import) : Scope :=
  { scope with index := scope.index.addModule { name := scope.module, imports } }

/-! ## The search -/

theorem lookupImport?_eq (scope : Scope) (name : String) (imports : List Import) :
    scope.lookupImport? name imports =
      ((imports.find? (scope.settles name)).map scope.importAnswer).getD (.ok none) := by
  induction imports with
  | nil => rfl
  | cons imp rest ih =>
    cases hsplit : imp.split? with
    | none =>
      have hstops : scope.settles name imp = true := by simp [settles, hsplit]
      rw [List.find?_cons_of_pos hstops, lookupImport?_cons_of_none hsplit]
      simp [importAnswer, hsplit]
    | some parts =>
      obtain ⟨qualifier, identifier⟩ := parts
      have hsettles : scope.settles name imp = true ↔
          identifier = name ∧ imp.path ∈ scope.index.types.keys := by
        simp [settles, hsplit, SymbolIndex.Leads, Import.simpleName_of_split? hsplit]
      by_cases hstops : scope.settles name imp = true
      · obtain ⟨rfl, hkey⟩ := hsettles.1 hstops
        rw [List.find?_cons_of_pos hstops, lookupImport?_cons_of_matching hsplit,
          SymbolIndex.lookupType?_eq_some_iff.2 ⟨rfl, hkey⟩]
        simp [importAnswer, hsplit]
      · rw [List.find?_cons_of_neg hstops, ← ih]
        by_cases hname : identifier = name
        · subst hname
          have hnone : scope.index.lookupType? imp.path = none := by
            rw [Option.eq_none_iff_forall_ne_some]
            intro type htype
            exact hstops (hsettles.2 ⟨rfl, (SymbolIndex.lookupType?_eq_some_iff.1 htype).2⟩)
          rw [lookupImport?_cons_of_matching hsplit, hnone]
        · exact lookupImport?_cons_of_other hsplit hname rest

theorem lookupImport?_withImports (name : String) (others imports : List Import) :
    (scope.withImports others).lookupImport? name imports = scope.lookupImport? name imports := by
  rw [lookupImport?_eq_findSome?, lookupImport?_eq_findSome?]
  rfl

theorem imports_withImports (scope : Scope) (others : List Import) :
    (scope.withImports others).imports = others := by
  simp [imports, withImports, SymbolIndex.imports, SymbolIndex.addModule, Registry.find?_insert]

theorem resolveDeclared?_of_find? {imp : Import}
    (h : QualifiedName.Unqualified (Text.trim written))
    (hfind : scope.imports.find? (scope.settles (Text.trim written)) = some imp) :
    scope.resolveDeclared? written = scope.importAnswer imp := by
  rw [resolveDeclared?_of_unqualified h.ne_empty h.no_dot, lookupImport?_eq, hfind]
  rw [Option.map_some, Option.getD_some, importAnswer]
  cases imp.split?.isNone <;> rfl

theorem resolveDeclared?_of_unsettled (h : QualifiedName.Unqualified (Text.trim written))
    (hfind : scope.imports.find? (scope.settles (Text.trim written)) = none) :
    scope.resolveDeclared? written = .ok (scope.index.lookupType?
      (QualifiedName.join scope.defaultNamespace (Text.trim written))) := by
  rw [resolveDeclared?_of_unqualified h.ne_empty h.no_dot, lookupImport?_eq, hfind]
  rfl

/-- Only the import that settles a name counts for it. -/
theorem resolveDeclared?_withImports
    (h : others.find? (scope.settles (Text.trim written)) =
      scope.imports.find? (scope.settles (Text.trim written))) :
    (scope.withImports others).resolveDeclared? written = scope.resolveDeclared? written := by
  have htypes : ∀ name, (scope.withImports others).index.lookupType? name =
      scope.index.lookupType? name := fun _ => rfl
  have hnamespace : (scope.withImports others).defaultNamespace = scope.defaultNamespace := rfl
  have hsearch : scope.lookupImport? (Text.trim written) others =
      scope.lookupImport? (Text.trim written) scope.imports := by
    rw [lookupImport?_eq, lookupImport?_eq, h]
  unfold resolveDeclared?
  simp only [htypes, hnamespace, imports_withImports, lookupImport?_withImports, hsearch]

/-! ## Which import comes first -/

theorem resolveDeclared?_of_bad_first {b : Nat} (h : QualifiedName.Unqualified (Text.trim written))
    (hbad : scope.imports.findIdx? (·.split?.isNone) = some b)
    (hlead : ∀ w, scope.imports.findIdx? (scope.index.Leads (Text.trim written) ·) = some w →
      ¬ w < b) :
    ∃ imp, scope.imports[b]? = some imp ∧
      scope.resolveDeclared? written = .error (.malformedImport scope.module imp.path) := by
  obtain ⟨imp, himp, hsplit, hfind⟩ := find?_or_of_findIdx? hbad hlead
  refine ⟨imp, himp, ?_⟩
  rw [resolveDeclared?_of_find? h hfind, importAnswer, if_pos hsplit]

/-- Where an import that leads to a type stands before all that cannot be split, the search stops
there. -/
theorem exists_find?_of_lead_first {w : Nat}
    (hlead : scope.imports.findIdx? (scope.index.Leads name ·) = some w)
    (hbad : ∀ b, scope.imports.findIdx? (·.split?.isNone) = some b → w < b) :
    ∃ imp, scope.imports[w]? = some imp ∧ scope.importAnswer imp = .ok (some imp.path) ∧
      scope.imports.find? (scope.settles name) = some imp := by
  obtain ⟨imp, himp, -, hfind⟩ := find?_or_of_findIdx? hlead fun b hb => Nat.not_lt_of_gt (hbad b hb)
  have hsplit : ¬ imp.split?.isNone = true := by
    intro hsplit
    obtain ⟨b, hb, hle⟩ := exists_findIdx?_le (p := (·.split?.isNone)) himp hsplit
    exact Nat.not_lt_of_le hle (hbad b hb)
  refine ⟨imp, himp, if_neg hsplit, ?_⟩
  rw [← hfind]
  congr 1
  funext imp
  exact Bool.or_comm ..

theorem find?_settles_eq_none
    (hbad : scope.imports.findIdx? (·.split?.isNone) = none)
    (hlead : scope.imports.findIdx? (scope.index.Leads name ·) = none) :
    scope.imports.find? (scope.settles name) = none := by
  rw [List.findIdx?_eq_none_iff] at hbad hlead
  rw [List.find?_eq_none]
  intro imp himp
  rw [settles, hbad imp himp, hlead imp himp]
  exact Bool.false_ne_true

theorem exists_failure_iff (h : QualifiedName.Unqualified (Text.trim written)) :
    (∃ e, scope.resolveDeclared? written = .error e) ↔
      ∃ b, scope.imports.findIdx? (·.split?.isNone) = some b ∧
        ∀ w, scope.imports.findIdx? (scope.index.Leads (Text.trim written) ·) = some w →
          ¬ w < b := by
  constructor
  · rintro ⟨e, he⟩
    by_contra hnone
    have hfirst : ∀ b, scope.imports.findIdx? (·.split?.isNone) = some b →
        ∃ w, scope.imports.findIdx? (scope.index.Leads (Text.trim written) ·) = some w ∧ w < b := by
      intro b hb
      by_contra hw
      exact hnone ⟨b, hb, fun w hlead hlt => hw ⟨w, hlead, hlt⟩⟩
    cases hlead : scope.imports.findIdx? (scope.index.Leads (Text.trim written) ·) with
    | none =>
      have hbad : scope.imports.findIdx? (·.split?.isNone) = none := by
        rw [Option.eq_none_iff_forall_ne_some]
        intro b hb
        obtain ⟨w, hw, -⟩ := hfirst b hb
        cases hlead.symm.trans hw
      rw [resolveDeclared?_of_unsettled h (find?_settles_eq_none hbad hlead)] at he
      cases he
    | some w =>
      have hbad : ∀ b, scope.imports.findIdx? (·.split?.isNone) = some b → w < b := by
        intro b hb
        obtain ⟨w', hw', hlt⟩ := hfirst b hb
        cases hlead.symm.trans hw'
        exact hlt
      obtain ⟨imp, -, hanswer, hfind⟩ := exists_find?_of_lead_first hlead hbad
      rw [resolveDeclared?_of_find? h hfind, hanswer] at he
      cases he
  · rintro ⟨b, hbad, hlead⟩
    obtain ⟨imp, -, hfails⟩ := resolveDeclared?_of_bad_first h hbad hlead
    exact ⟨_, hfails⟩

/-- Among imports that can be split the first one that leads to a type settles the name. -/
theorem find?_settles_eq_head? (h : ∀ imp ∈ imports, imp.split?.isSome = true) :
    imports.find? (scope.settles name) = (imports.filter (scope.index.Leads name ·)).head? := by
  rw [← List.head?_filter]
  congr 1
  refine List.filter_congr fun imp himp => ?_
  rw [settles, Option.isNone_eq_false_iff.2 (h imp himp), Bool.false_or]

theorem settles_eq_false {imp : Import} {qualifier identifier : String}
    (hsplit : imp.split? = some (qualifier, identifier)) (hne : identifier ≠ name) :
    scope.settles name imp = false := by
  simp [settles, hsplit, SymbolIndex.Leads, Import.simpleName_of_split? hsplit, hne]

/-- A name is looked up as it is written if it has a dot. Otherwise it is that of the first import
which leads to a declared type, unless one that cannot be split stands before it, which is the
failure then; and if there is neither, it is looked up in the default namespace. So imports behind
the one that leads to the type, well-formed ones of other identifiers, and the order of well-formed
ones that do not lead to a type of this name make no difference. -/
theorem resolveDeclared?_follows_imports (scope : Scope) (written : String) :
    let name : QualifiedName := Text.trim written
    let bad := scope.imports.findIdx? (·.split?.isNone)
    let lead := scope.imports.findIdx? (scope.index.Leads name ·)
    (name = "" → scope.resolveDeclared? written = .ok none) ∧
    ('.' ∈ name.toList → scope.resolveDeclared? written = .ok (scope.index.lookupType? name)) ∧
    (name.Unqualified →
      (∀ b, bad = some b → (∀ w, lead = some w → ¬ w < b) → ∃ imp, scope.imports[b]? = some imp ∧
        scope.resolveDeclared? written = .error (.malformedImport scope.module imp.path)) ∧
      (∀ w, lead = some w → (∀ b, bad = some b → w < b) → ∃ imp, scope.imports[w]? = some imp ∧
        scope.resolveDeclared? written = .ok (some imp.path)) ∧
      (bad = none → lead = none → scope.resolveDeclared? written =
        .ok (scope.index.lookupType? (QualifiedName.join scope.defaultNamespace name))) ∧
      ((∃ e, scope.resolveDeclared? written = .error e) ↔
        ∃ b, bad = some b ∧ ∀ w, lead = some w → ¬ w < b)) ∧
    (∀ w, lead = some w → (∀ b, bad = some b → w < b) → ∀ more,
      (scope.withImports (scope.imports ++ more)).resolveDeclared? written =
        scope.resolveDeclared? written) ∧
    (∀ front back imp qualifier identifier, scope.imports = front ++ back →
      imp.split? = some (qualifier, identifier) → identifier ≠ name →
      (scope.withImports (front ++ imp :: back)).resolveDeclared? written =
        scope.resolveDeclared? written) ∧
    ∀ others, (∀ imp ∈ scope.imports, imp.split?.isSome = true) → others.Perm scope.imports →
      others.filter (scope.index.Leads name ·) = scope.imports.filter (scope.index.Leads name ·) →
      (scope.withImports others).resolveDeclared? written = scope.resolveDeclared? written := by
  intro name bad lead
  refine ⟨resolveDeclared?_of_empty, resolveDeclared?_of_dot, fun hname => ⟨?bad, ?lead, ?none, ?fails⟩,
    ?append, ?insert, ?reorder⟩
  case bad => exact fun b => resolveDeclared?_of_bad_first hname
  case lead =>
    intro w hlead hbad
    obtain ⟨imp, himp, hanswer, hfind⟩ := exists_find?_of_lead_first hlead hbad
    exact ⟨imp, himp, (resolveDeclared?_of_find? hname hfind).trans hanswer⟩
  case none =>
    exact fun hbad hlead => resolveDeclared?_of_unsettled hname (find?_settles_eq_none hbad hlead)
  case fails => exact exists_failure_iff hname
  case append =>
    intro w hlead hbad more
    obtain ⟨imp, -, -, hfind⟩ := exists_find?_of_lead_first hlead hbad
    apply resolveDeclared?_withImports
    rw [List.find?_append, hfind, Option.some_or]
  case insert =>
    intro front back imp qualifier identifier himports hsplit hne
    apply resolveDeclared?_withImports
    have hpassed : ¬ scope.settles name imp = true := by simp [settles_eq_false hsplit hne]
    rw [himports, List.find?_append, List.find?_append, List.find?_cons_of_neg hpassed]
  case reorder =>
    intro others hsplit hperm hfilter
    apply resolveDeclared?_withImports
    rw [find?_settles_eq_head? fun imp himp => hsplit imp (hperm.mem_iff.1 himp), hfilter,
      find?_settles_eq_head? hsplit]

/-- The first import of `T` leads nowhere, the second is behind it, and the third cannot be split. -/
def importing : Scope where
  index :=
    ([{ name := "q.T" }, { name := "r.T" }].foldl SymbolIndex.addType {}).addModule
      { name := "p"
        imports := [{ path := "p.T" }, { path := "q.T", isStatic := true }, { path := "T" },
          { path := "r.T" }] }
  module := "p"
  defaultNamespace := "java.lang"

/-- Without the import that cannot be split. -/
def splitting : Scope :=
  importing.withImports (importing.imports.filter (·.split?.isSome))

theorem resolveDeclared?_follows_imports_importing :
    (importing.imports.findIdx? (importing.index.Leads (Text.trim " T ") ·) = some 1 ∧
      importing.imports.findIdx? (·.split?.isNone) = some 2 ∧
      importing.imports.findIdx? (importing.index.Leads (Text.trim "U") ·) = none) ∧
    (∃ imp, importing.imports[1]? = some imp ∧
      importing.resolveDeclared? " T " = .ok (some imp.path)) ∧
    (∃ imp, importing.imports[2]? = some imp ∧
      importing.resolveDeclared? "U" = .error (.malformedImport "p" imp.path)) ∧
    (importing.withImports (importing.imports ++ [{ path := "" }])).resolveDeclared? " T " =
      importing.resolveDeclared? " T " ∧
    (importing.withImports ([] ++ { path := "r.U" } :: importing.imports)).resolveDeclared? " T " =
      importing.resolveDeclared? " T " ∧
    (splitting.withImports [{ path := "q.T", isStatic := true }, { path := "r.T" },
        { path := "p.T" }]).resolveDeclared? " T " =
      splitting.resolveDeclared? " T " := by
  have hT : QualifiedName.Unqualified (Text.trim " T ") := ⟨by decide, by decide⟩
  have hU : QualifiedName.Unqualified (Text.trim "U") := ⟨by decide, by decide⟩
  have hleadT : importing.imports.findIdx? (importing.index.Leads (Text.trim " T ") ·) = some 1 := by
    decide
  have hleadU : importing.imports.findIdx? (importing.index.Leads (Text.trim "U") ·) = none := by
    decide
  have hbad : importing.imports.findIdx? (·.split?.isNone) = some 2 := by decide
  have hbefore : ∀ b, importing.imports.findIdx? (·.split?.isNone) = some b → 1 < b := by
    intro b hb
    cases hbad.symm.trans hb
    decide
  obtain ⟨-, -, hresultT, happend, hinsert, -⟩ := resolveDeclared?_follows_imports importing " T "
  obtain ⟨-, -, hresultU, -⟩ := resolveDeclared?_follows_imports importing "U"
  obtain ⟨-, -, -, -, -, hreorder⟩ := resolveDeclared?_follows_imports splitting " T "
  refine ⟨⟨hleadT, hbad, hleadU⟩, (hresultT hT).2.1 1 hleadT hbefore, (hresultU hU).1 2 hbad ?_,
    happend 1 hleadT hbefore _, hinsert [] importing.imports _ "r" "U" rfl ?_ ?_,
    hreorder _ ?_ ?_ ?_⟩
  · intro w hw
    cases hleadU.symm.trans hw
  · decide
  · decide
  · decide
  · decide
  · decide

end Scope
end DocWeave
