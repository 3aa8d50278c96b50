import DocWeave.Resolution.TypeName

/-!
# Names in two halves

A name comes apart at its last dot. So what is joined comes apart into the same halves just if the
second one has no dot, and the halves of a name make up the name again unless the first one is
empty, for which `join` writes no dot. Imports are split only where neither half is empty; there
the search, which joins the halves before it looks them up, looks up the path as it is written
(`lookupImport?_eq_findSome?`).
-/

namespace DocWeave

namespace QualifiedName

variable {name : QualifiedName} {parent child : String}

theorem simpleName_eq_self_iff : name.simpleName = name ↔ '.' ∉ name.toList := by
  constructor
  · intro h
    rw [← h]
    exact dot_not_mem_simpleName name
  · exact simpleName_of_not_mem

theorem join_of_ne_empty (h : parent ≠ "") (child : String) :
    join parent child = parent ++ "." ++ child := by
  rw [join, if_neg (by simpa using h)]

theorem join_empty (child : String) : join "" child = child := rfl

theorem split?_join (h : parent ≠ "") (hchild : '.' ∉ child.toList) :
    (join parent child).split? = some (parent, child) :=
  split?_eq_some_iff.2 ⟨join_of_ne_empty h child, hchild⟩

theorem simpleName_join_iff : (join parent child).simpleName = child ↔ '.' ∉ child.toList := by
  constructor
  · intro h
    rw [← h]
    exact dot_not_mem_simpleName _
  · intro hchild
    by_cases h : parent = ""
    · rw [h, join_empty, simpleName_of_not_mem hchild]
    · exact simpleName_of_split? (split?_join h hchild)

theorem parent?_join_iff (h : parent ≠ "") :
    (join parent child).parent? = some parent ↔ '.' ∉ child.toList := by
  constructor
  · intro hparent
    obtain ⟨hname, hdot⟩ := split?_eq_some_iff.1 (parent?_eq_some_iff.1 hparent)
    have hchild : child = (join parent child).simpleName :=
      (String.append_right_inj _).1 ((join_of_ne_empty h child).symm.trans hname)
    rw [hchild]
    exact hdot
  · intro hchild
    rw [parent?, split?_join h hchild]
    rfl

theorem join_parent_simpleName_iff (h : name.parent? = some parent) :
    join parent name.simpleName = name ↔ parent ≠ "" := by
  obtain ⟨hname, hdot⟩ := split?_eq_some_iff.1 (parent?_eq_some_iff.1 h)
  constructor
  · rintro hjoin rfl
    -- the name has a dot, and joined with nothing its simple name has none
    rw [join_empty, simpleName_eq_self_iff] at hjoin
    rw [hname] at hjoin
    simp at hjoin
  · intro hne
    rw [join_of_ne_empty hne, ← hname]

end QualifiedName

/-! ## Imports -/

namespace Import

variable {imp : Import} {qualifier identifier : String}

theorem split?_eq_some_iff : imp.split? = some (qualifier, identifier) ↔
    imp.path.split? = some (qualifier, identifier) ∧ qualifier ≠ "" ∧ identifier ≠ "" := by
  rw [split?]
  cases imp.path.split? with
  | none => simp
  | some parts =>
    obtain ⟨before, after⟩ := parts
    simp only [Option.ite_none_left_eq_some, Bool.or_eq_true, String.isEmpty_iff, not_or,
      Option.some.injEq, Prod.mk.injEq]
    constructor
    · rintro ⟨hne, rfl, rfl⟩
      exact ⟨⟨rfl, rfl⟩, hne⟩
    · rintro ⟨⟨rfl, rfl⟩, hne⟩
      exact ⟨hne, rfl, rfl⟩

theorem simpleName_of_split? (h : imp.split? = some (qualifier, identifier)) :
    imp.path.simpleName = identifier :=
  QualifiedName.simpleName_of_split? (split?_eq_some_iff.1 h).1

theorem split?_eq_some_iff_parent? : imp.split? = some (qualifier, identifier) ↔
    (imp.path.parent? = some qualifier ∧ imp.path.simpleName = identifier) ∧
      qualifier ≠ "" ∧ identifier ≠ "" := by
  rw [split?_eq_some_iff, QualifiedName.parent?_eq_some_iff]
  constructor
  · rintro ⟨hsplit, hne⟩
    have hsimple := QualifiedName.simpleName_of_split? hsplit
    exact ⟨⟨by rw [hsimple, hsplit], hsimple⟩, hne⟩
  · rintro ⟨⟨hsplit, rfl⟩, hne⟩
    exact ⟨hsplit, hne⟩

/-- What an import is split into makes up its path again. -/
theorem join_of_split? (h : imp.split? = some (qualifier, identifier)) :
    QualifiedName.join qualifier identifier = imp.path := by
  obtain ⟨⟨hparent, rfl⟩, hne, -⟩ := split?_eq_some_iff_parent?.1 h
  exact (QualifiedName.join_parent_simpleName_iff hparent).2 hne

/-- The paths that end in the name, of the imports before the first one that cannot be split. -/
def pathsOf (name : String) (imports : List Import) : List QualifiedName :=
  ((imports.takeWhile (·.split?.isSome)).filter (·.path.simpleName == name)).map Import.path

end Import

/-! ## The search -/

namespace Scope

variable {scope : Scope} {name qualifier identifier written : String} {imp : Import}

theorem lookupImport?_cons_of_none (hsplit : imp.split? = none) (rest : List Import) :
    scope.lookupImport? name (imp :: rest) = .error (.malformedImport scope.module imp.path) := by
  rw [lookupImport?, hsplit]

/-- An import of the name is looked up by its path. -/
theorem lookupImport?_cons_of_matching (hsplit : imp.split? = some (qualifier, name))
    (rest : List Import) :
    scope.lookupImport? name (imp :: rest) =
      match scope.index.lookupType? imp.path with
      | some type => .ok (some type)
      | none => scope.lookupImport? name rest := by
  rw [lookupImport?, hsplit, ← Import.join_of_split? hsplit]
  exact if_pos rfl

theorem lookupImport?_cons_of_other (hsplit : imp.split? = some (qualifier, identifier))
    (hne : identifier ≠ name) (rest : List Import) :
    scope.lookupImport? name (imp :: rest) = scope.lookupImport? name rest := by
  rw [lookupImport?, hsplit]
  exact if_neg hne

/-- The search asks the index for the paths of the imports of the name, one after another. -/
theorem lookupImport?_eq_findSome? (scope : Scope) (name : String) (imports : List Import) :
    scope.lookupImport? name imports =
      match (Import.pathsOf name imports).findSome? scope.index.lookupType? with
      | some type => .ok (some type)
      | none =>
        match imports.find? (·.split?.isNone) with
        | some imp => .error (.malformedImport scope.module imp.path)
        | none => .ok none := by
  unfold Import.pathsOf
  induction imports with
  | nil => rfl
  | cons imp rest ih =>
    cases hsplit : imp.split? with
    | none => simp [lookupImport?_cons_of_none hsplit, hsplit]
    | some parts =>
      obtain ⟨qualifier, identifier⟩ := parts
      have hsimple := Import.simpleName_of_split? hsplit
      by_cases hname : identifier = name
      · subst hname
        rw [lookupImport?_cons_of_matching hsplit, ih]
        cases hfound : scope.index.lookupType? imp.path <;> simp [hsplit, hsimple, hfound]
      · rw [lookupImport?_cons_of_other hsplit hname, ih]
        simp [hsplit, hsimple, hname]

/-! ## Written names -/

theorem resolveDeclared?_of_empty (h : Text.trim written = "") :
    scope.resolveDeclared? written = .ok none := by
  unfold resolveDeclared?
  simp [h]

theorem resolveDeclared?_of_dot (h : '.' ∈ (Text.trim written).toList) :
    scope.resolveDeclared? written = .ok (scope.index.lookupType? (Text.trim written)) := by
  have hne : Text.trim written ≠ "" := by
    intro hempty
    rw [hempty] at h
    cases h
  unfold resolveDeclared?
  simp [hne, QualifiedName.isQualified, h]

/-- A name without a dot is looked for among the imports, then in the default namespace. -/
theorem resolveDeclared?_of_unqualified (hne : Text.trim written ≠ "")
    (hdot : '.' ∉ (Text.trim written).toList) :
    scope.resolveDeclared? written =
      match scope.lookupImport? (Text.trim written) scope.imports with
      | .error e => .error e
      | .ok (some type) => .ok (some type)
      | .ok none => .ok (scope.index.lookupType?
          (QualifiedName.join scope.defaultNamespace (Text.trim written))) := by
  have hempty : ¬ (Text.trim written).isEmpty = true := by simpa using hne
  have hqualified : ¬ QualifiedName.isQualified (Text.trim written) = true := by
    simpa [QualifiedName.isQualified] using hdot
  exact (if_neg hempty).trans (if_neg hqualified)

theorem resolveDeclared?_eq_findSome? (hne : Text.trim written ≠ "")
    (hdot : '.' ∉ (Text.trim written).toList) :
    scope.resolveDeclared? written =
      match (Import.pathsOf (Text.trim written) scope.imports).findSome?
        scope.index.lookupType? with
      | some type => .ok (some type)
      | none =>
        match scope.imports.find? (·.split?.isNone) with
        | some imp => .error (.malformedImport scope.module imp.path)
        | none => .ok (scope.index.lookupType?
            (QualifiedName.join scope.defaultNamespace (Text.trim written))) := by
  rw [resolveDeclared?_of_unqualified hne hdot, lookupImport?_eq_findSome?]
  cases (Import.pathsOf (Text.trim written) scope.imports).findSome? scope.index.lookupType? with
  | some type => rfl
  | none => cases scope.imports.find? (·.split?.isNone) <;> rfl

/-- The simple name of a joined name is the child just if that has no dot, and then the parent is
read back as well unless it is empty; the halves of a name are joined to the name unless the first
one is empty. An import is split into these halves, if neither is empty, and they are joined to its
path. So where the search comes to an import of the name, it looks up the path of the import; and
all that it asks the index for are these paths, in order, up to one that is declared or to an import
that cannot be split. -/
theorem join_agrees_with_split :
    (∀ parent child : String,
      (QualifiedName.join parent child).simpleName = child ↔ '.' ∉ child.toList) ∧
    (∀ parent child : String, parent ≠ "" →
      ((QualifiedName.join parent child).parent? = some parent ↔ '.' ∉ child.toList)) ∧
    (∀ (name : QualifiedName) (parent : String), name.parent? = some parent →
      (QualifiedName.join parent name.simpleName = name ↔ parent ≠ "")) ∧
    (∀ (imp : Import) (qualifier identifier : String),
      (imp.split? = some (qualifier, identifier) ↔
        (imp.path.parent? = some qualifier ∧ imp.path.simpleName = identifier) ∧
          qualifier ≠ "" ∧ identifier ≠ "") ∧
      (imp.split? = some (qualifier, identifier) →
        QualifiedName.join qualifier identifier = imp.path ∧
        ∀ (scope : Scope) (rest : List Import),
          scope.lookupImport? identifier (imp :: rest) =
            match scope.index.lookupType? imp.path with
            | some type => .ok (some type)
            | none => scope.lookupImport? identifier rest)) ∧
    ∀ (scope : Scope) (written : String),
      let name : QualifiedName := Text.trim written
      name ≠ "" → '.' ∉ name.toList →
      scope.resolveDeclared? written =
        match (Import.pathsOf name scope.imports).findSome? scope.index.lookupType? with
        | some type => .ok (some type)
        | none =>
          match scope.imports.find? (·.split?.isNone) with
          | some imp => .error (.malformedImport scope.module imp.path)
          | none => .ok (scope.index.lookupType?
              (QualifiedName.join scope.defaultNamespace name)) := by
  refine ⟨fun _ _ => QualifiedName.simpleName_join_iff,
    fun _ _ => QualifiedName.parent?_join_iff,
    fun _ _ => QualifiedName.join_parent_simpleName_iff,
    fun imp qualifier identifier => ⟨Import.split?_eq_some_iff_parent?, fun hsplit => ?_⟩,
    fun _ _ => resolveDeclared?_eq_findSome?⟩
  exact ⟨Import.join_of_split? hsplit, fun _ => lookupImport?_cons_of_matching hsplit⟩

/-- The first import leads nowhere, the second starts with a dot, and the third cannot be split. -/
def dotted : Scope where
  index := (SymbolIndex.addType {} { name := ".b.T" }).addModule
    { name := "p", imports := [{ path := "a..T" }, { path := ".b.T" }, { path := ".T" }] }
  module := "p"
  defaultNamespace := "java.lang"

theorem join_agrees_with_split_dotted :
    ("." ≠ "" ∧ '.' ∉ "T".toList ∧
      (QualifiedName.join "." "T").simpleName = "T" ∧
      (QualifiedName.join "." "T").parent? = some ".") ∧
    (QualifiedName.parent? "..T" = some "." ∧
      QualifiedName.join "." (QualifiedName.simpleName "..T") = "..T") ∧
    (Import.split? { path := "a..T" } = some ("a.", "T") ∧
      QualifiedName.join "a." "T" = "a..T" ∧
      dotted.lookupImport? "T" [{ path := "a..T" }, { path := ".b.T" }] =
        dotted.lookupImport? "T" [{ path := ".b.T" }]) ∧
    (Text.trim " T " ≠ "" ∧ '.' ∉ (Text.trim " T ").toList) ∧
    Import.pathsOf (Text.trim " T ") dotted.imports = ["a..T", ".b.T"] ∧
    dotted.resolveDeclared? " T " = .ok (some ".b.T") := by
  obtain ⟨hsimple, hparent, hjoin, himport, hsearch⟩ := join_agrees_with_split
  have hdot : '.' ∉ "T".toList := by decide
  have hname : QualifiedName.parent? "..T" = some "." := by decide
  have hsplit : Import.split? { path := "a..T" } = some ("a.", "T") := by decide
  have hne : Text.trim " T " ≠ "" := by decide
  have hT : '.' ∉ (Text.trim " T ").toList := by decide
  obtain ⟨hpath, hlookup⟩ := (himport _ _ _).2 hsplit
  exact ⟨⟨by decide, hdot, (hsimple _ _).2 hdot, (hparent _ _ (by decide)).2 hdot⟩,
    ⟨hname, (hjoin _ _ hname).2 (by decide)⟩, ⟨hsplit, hpath, hlookup dotted _⟩, ⟨hne, hT⟩,
    by decide, hsearch dotted " T " hne hT⟩

end Scope
end DocWeave
