import DocWeave.Proofs.Resolution.Parameters

/-!
# What a reference refers to

`Qualifies` says which members a reference can mean, one member at a time and without a search. The
search reads the written types only as far as it has to, but if it does not fail, what it finds is
the first member that qualifies (`findMember?_eq_find?`). `resolve?_follows_policy` adds how the
target is looked up: as a type and, if no member is named, else as a module.
-/

namespace DocWeave.Scope

variable {scope : Scope} {m : Member} {written : MemberRef} {members : List Member}

/-- Whether the parameters of a field or method are the written ones. -/
def ParamsFit (scope : Scope) (m : Member) : Option (List String) → Prop
  | none => True
  | some [] => m.isMethod = true ∧ m.params = []
  | some (first :: others) =>
    m.isField = true ∨ m.isMethod = true ∧
      List.Forall₂ (fun declared text => scope.resolveType? text = .ok (some declared))
        m.erasedParams (first :: others)

/-- A reference that writes `written` can mean the member. -/
def Qualifies (scope : Scope) (written : MemberRef) (m : Member) : Prop :=
  (m.isField = true ∨ m.isMethod = true) ∧ m.name = written.name ∧
    scope.ParamsFit m written.params?

instance (scope : Scope) (m : Member) : DecidablePred (scope.ParamsFit m)
  | none => inferInstanceAs (Decidable True)
  | some [] => inferInstanceAs (Decidable (_ ∧ _))
  | some (_ :: _) => inferInstanceAs (Decidable (_ ∨ _))

instance (scope : Scope) (written : MemberRef) : DecidablePred (scope.Qualifies written) :=
  fun _ => inferInstanceAs (Decidable (_ ∧ _))

/-! ## Written types -/

/-- Against erased types, comparing erasures is equality. -/
theorem typesMatch_eq_ok {declared : List TypeRef} {texts : List String} {fits : Bool}
    (herased : ∀ d ∈ declared, d.erasure = d) (h : scope.typesMatch declared texts = .ok fits) :
    fits = true ↔
      List.Forall₂ (fun d text => scope.resolveType? text = .ok (some d)) declared texts := by
  induction declared generalizing texts with
  | nil =>
    cases texts <;> cases h <;> simp
  | cons d ds ih =>
    cases texts with
    | nil =>
      cases h
      simp
    | cons text texts =>
      rw [List.forall_mem_cons] at herased
      rw [List.forall₂_cons]
      rw [typesMatch] at h
      cases htype : scope.resolveType? text with
      | error e =>
        rw [htype] at h
        cases h
      | ok found =>
        rw [htype] at h
        cases found with
        | none =>
          cases h
          simp
        | some type =>
          have hsame := TypeRef.isSameType_eq_decide (erasure_of_resolveType? htype) herased.1
          simp only [hsame, decide_eq_true_eq] at h
          split at h
          · rename_i heq
            simp [heq, ih herased.2 h]
          · rename_i hne
            cases h
            simp [hne]

/-! ## Members that qualify -/

theorem paramsMatch_eq_ok {params? : Option (List String)} {fits : Bool}
    (hkind : m.isField = true ∨ m.isMethod = true) (h : scope.paramsMatch m params? = .ok fits) :
    fits = true ↔ scope.ParamsFit m params? := by
  match params? with
  | none =>
    cases h
    simp [ParamsFit]
  | some [] =>
    cases h
    simp [ParamsFit]
  | some (first :: others) =>
    rw [ParamsFit]
    simp only [paramsMatch] at h
    by_cases hfield : m.isField = true
    · rw [if_pos hfield] at h
      cases h
      simp [hfield]
    · rw [if_neg hfield] at h
      rw [or_iff_right hfield, and_iff_right (hkind.resolve_left hfield)]
      split at h
      · exact typesMatch_eq_ok (fun d => m.erasure_of_mem_erasedParams) h
      · rename_i hlength
        cases h
        simp only [Bool.false_eq_true, false_iff]
        exact fun hall => hlength hall.length_eq

theorem isCandidate_eq_true_iff {name : String} :
    isCandidate name m = true ↔ (m.isField = true ∨ m.isMethod = true) ∧ m.name = name := by
  simp [isCandidate]

/-- A candidate whose parameters were compared qualifies if they match. -/
theorem qualifies_iff {fits : Bool} (hcandidate : isCandidate written.name m = true)
    (h : scope.paramsMatch m written.params? = .ok fits) :
    scope.Qualifies written m ↔ fits = true := by
  obtain ⟨hkind, hname⟩ := isCandidate_eq_true_iff.1 hcandidate
  rw [Qualifies, paramsMatch_eq_ok hkind h]
  simp [hkind, hname]

theorem not_qualifies (hcandidate : ¬ isCandidate written.name m = true) :
    ¬ scope.Qualifies written m :=
  fun h => hcandidate (isCandidate_eq_true_iff.2 ⟨h.1, h.2.1⟩)

/-- A search that does not fail finds the first member that qualifies. -/
theorem findMember?_eq_find? {found : Option Member}
    (h : scope.findMember? written members = .ok found) :
    found = members.find? (scope.Qualifies written ·) := by
  induction members with
  | nil =>
    cases h
    rfl
  | cons m rest ih =>
    rw [findMember?] at h
    split at h
    · rename_i hcandidate
      split at h
      · cases h
      · rename_i hfits
        cases h
        have hq := (qualifies_iff hcandidate hfits).2 rfl
        rw [List.find?_cons_of_pos (by simpa using hq)]
      · rename_i hfits
        have hq := mt (qualifies_iff hcandidate hfits).1 Bool.false_ne_true
        rw [List.find?_cons_of_neg (by simpa using hq)]
        exact ih h
    · rename_i hcandidate
      rw [List.find?_cons_of_neg (by simpa using not_qualifies hcandidate)]
      exact ih h

/-- A member is declared by its owner, a type of the lineage. -/
theorem declared_of_mem_allMembers {index : SymbolIndex} {type : QualifiedName}
    (h : m ∈ index.allMembers type) :
    m.owner ∈ index.lineage type ∧ m ∈ index.membersOf m.owner := by
  rw [SymbolIndex.allMembers_eq] at h
  obtain ⟨n, hn, hm⟩ := List.mem_flatMap.1 (mem_of_mem_eraseDupsBy h)
  have hdeclared := List.mem_of_mem_filter hm
  rw [SymbolIndex.owner_of_mem_membersOf hdeclared]
  exact ⟨hn, hdeclared⟩

/-! ## The policy -/

/-- A type hides a module of the same written name. -/
theorem resolve?_of_bare {reference : Reference} {type? : Option QualifiedName}
    (hmember : reference.member? = none)
    (htarget : scope.resolveDeclared? reference.target = .ok type?) :
    scope.resolve? reference = .ok ((type?.map .type).or
      ((scope.index.lookupModule? reference.target).map .module)) := by
  rw [resolve?, htarget]
  simp only [Reference.isMember, hmember, Option.isSome_none, Bool.false_eq_true, if_false]
  cases type? <;> rfl

theorem eq_find?_of_resolve? {reference : Reference} {owner? : Option QualifiedName}
    {found : Option Symbol} (hmember : reference.member? = some written)
    (htarget : scope.resolveDeclared? reference.target = .ok owner?)
    (h : scope.resolve? reference = .ok found) :
    found = owner?.bind fun owner => ((scope.index.allMembers owner).find?
      (scope.Qualifies written ·)).map (memberSymbol owner) := by
  rw [resolve?, htarget] at h
  simp only [Reference.isMember, hmember, Option.isSome_some, if_true] at h
  cases owner? with
  | none =>
    cases h
    rfl
  | some owner =>
    simp only [resolveMember?, hmember] at h
    cases hsearch : scope.findMember? written (scope.index.allMembers owner) with
    | error e =>
      rw [hsearch] at h
      cases h
    | ok member? =>
      rw [hsearch] at h
      cases h
      rw [findMember?_eq_find? hsearch]
      rfl

/-- A resolution that does not fail follows the policy. Without a member the target is a type or,
if no type is found under it, the module of exactly this name. With a member it is the first one of
the target that qualifies. -/
theorem resolve?_follows_policy (scope : Scope) (reference : Reference) {found : Option Symbol}
    (h : scope.resolve? reference = .ok found) :
    (reference.member? = none →
      (∀ type, found = some (.type type) ↔
        scope.resolveDeclared? reference.target = .ok (some type)) ∧
      (∀ module, found = some (.module module) ↔
        scope.resolveDeclared? reference.target = .ok none ∧ module = reference.target ∧
          reference.target ∈ scope.index.modules.keys) ∧
      (found = none ↔ (∀ type, scope.resolveDeclared? reference.target ≠ .ok (some type)) ∧
        ¬ (scope.resolveDeclared? reference.target = .ok none ∧
          reference.target ∈ scope.index.modules.keys))) ∧
    ∀ written, reference.member? = some written →
      (found = none ↔ scope.resolveDeclared? reference.target = .ok none ∨
        ∃ owner, scope.resolveDeclared? reference.target = .ok (some owner) ∧
          ∀ m ∈ scope.index.allMembers owner, ¬ scope.Qualifies written m) ∧
      (∀ symbol, found = some symbol ↔
        ∃ owner m, scope.resolveDeclared? reference.target = .ok (some owner) ∧
          (scope.index.allMembers owner).find? (scope.Qualifies written ·) = some m ∧
          symbol = if m.isField then .field owner m else .method owner m) ∧
      ∀ owner m, m ∈ scope.index.allMembers owner →
        m.owner ∈ scope.index.lineage owner ∧ m ∈ scope.index.membersOf m.owner := by
  cases htarget : scope.resolveDeclared? reference.target with
  | error e =>
    rw [resolve?, htarget] at h
    cases h
  | ok type? =>
    refine ⟨fun hmember => ?_, fun written hmember => ?_⟩
    · rw [resolve?_of_bare hmember htarget] at h
      cases h
      cases type? with
      | some type => simp [eq_comm]
      | none =>
        by_cases hkey : reference.target ∈ scope.index.modules.keys
        · have hmodule := SymbolIndex.lookupModule?_eq_some_iff.2 ⟨rfl, hkey⟩
          simp [hmodule, hkey, eq_comm]
        · have hnone : scope.index.lookupModule? reference.target = none :=
            if_neg (mt Registry.contains_eq_true_iff.1 hkey)
          simp [hnone, hkey]
    · have hfound := eq_find?_of_resolve? hmember htarget h
      refine ⟨?_, fun symbol => ?_, fun owner m => declared_of_mem_allMembers⟩
      · cases type? <;> simp [hfound]
      · cases type? with
        | none => simp [hfound]
        | some owner => simp [hfound, memberSymbol, eq_comm (a := symbol)]

/-- Two overloads of `g` have the same erased parameter types, and a field has their name. -/
def overloaded : TypeDecl where
  name := "p.S"
  members := [
    { name := "g", kind := .method,
      params := [.array (.typeVariable "E" (some (.declared "p.T")))] },
    { name := "g", kind := .field },
    { name := "g", kind := .method },
    { name := "g", kind := .method, params := [.array (.declared "p.T")] },
    { name := "h", kind := .method, params := [.primitive .int] },
    { name := "h", kind := .method, params := [.declared "p.T"] }]

/-- A type that inherits overloads, and a module that is named like it. The last import cannot be
split. -/
def overloads : Scope where
  index :=
    (([{ name := "p.T", supertypes := ["p.S"],
         members := [{ name := "g", kind := .method, params := [.primitive .int] }] },
       overloaded].foldl SymbolIndex.addType {}).addModule { name := "p.T" }).addModule
      { name := "p.m", imports := [{ path := "p.T" }, { path := "S" }] }
  module := "p.m"
  defaultNamespace := "java.lang"

/-- The first of the inherited overloads is the first member that qualifies. -/
theorem resolve?_follows_policy_overloads :
    let written : MemberRef := ⟨"g", some ["T []"]⟩
    let m : Member :=
      ⟨⟨"g", .method, [.array (.typeVariable "E" (some (.declared "p.T")))]⟩, "p.S"⟩
    overloads.resolve? ⟨"T", some written⟩ = .ok (some (.method "p.T" m)) ∧
      ∃ owner found, overloads.resolveDeclared? "T" = .ok (some owner) ∧
        (overloads.index.allMembers owner).find? (overloads.Qualifies written ·) = some found ∧
        Symbol.method "p.T" m =
          if found.isField then .field owner found else .method owner found := by
  intro written m
  have hresolve : overloads.resolve? ⟨"T", some written⟩ = .ok (some (.method "p.T" m)) := by
    decide +kernel
  obtain ⟨-, hmember⟩ := resolve?_follows_policy overloads _ hresolve
  exact ⟨hresolve, ((hmember written rfl).2.1 _).1 rfl⟩

end DocWeave.Scope
