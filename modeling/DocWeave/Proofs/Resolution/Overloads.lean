import DocWeave.Proofs.Members.Rearrangement
import DocWeave.Proofs.Resolution.Agreement
import DocWeave.Proofs.Resolution.Failure
import DocWeave.Proofs.Resolution.Policy
import Mathlib.Data.List.Pairwise

/-!
# Overloads

A list of parameter types singles out one method of a type: what two methods have to share to
qualify, their name and their erased parameter types, is their key, and no two members of a type
share their key. `SearchOutcome` says what a search can come to without the order of the members.
Where two members could not both qualify, and no failure be met beside one that does, it comes to
one outcome only (`SearchOutcome.unique`), so methods may be declared in any order.
-/

namespace DocWeave.Scope

variable {scope other : Scope} {a b m : Member} {written : MemberRef} {members others : List Member}
  {name : String} {params : List String} {type : QualifiedName}

/-! ## At most one -/

/-- A method that qualifies has the written types as its erased parameter types. -/
theorem forall₂_of_qualifies (h : scope.Qualifies ⟨name, some params⟩ m) (hm : m.isMethod = true) :
    List.Forall₂ (fun declared text => scope.resolveType? text = .ok (some declared))
      m.erasedParams params := by
  obtain ⟨-, -, hfit⟩ := h
  cases params with
  | nil =>
    rw [MemberDecl.erasedParams, hfit.2]
    exact .nil
  | cons first others =>
    refine (hfit.resolve_left ?_).2
    rw [Member.isField_of_isMethod hm]
    exact Bool.false_ne_true

theorem sharesKey_of_qualifies_method (ha : scope.Qualifies ⟨name, some params⟩ a)
    (hb : scope.Qualifies ⟨name, some params⟩ b) (ham : a.isMethod = true)
    (hbm : b.isMethod = true) : a.sharesKey b = true := by
  have hunique : Relator.LeftUnique
      fun (declared : TypeRef) text => scope.resolveType? text = .ok (some declared) := by
    intro d text d' hd hd'
    cases hd.symm.trans hd'
    rfl
  have hparams := List.left_unique_forall₂' hunique (forall₂_of_qualifies ha ham)
    (forall₂_of_qualifies hb hbm)
  simp [Member.sharesKey_of_isMethod ham hbm, ha.2.1, hb.2.1, hparams]

theorem sharesKey_of_qualifies_field (ha : scope.Qualifies written a)
    (hb : scope.Qualifies written b) (haf : a.isField = true) (hbf : b.isField = true) :
    a.sharesKey b = true := by
  simp [Member.sharesKey_of_isField haf hbf, ha.2.1, hb.2.1]

theorem length_filter_le_one {α : Type} {r : α → α → Prop} {p : α → Bool} {as : List α}
    (has : as.Pairwise r) (h : ∀ a b, p a = true → p b = true → ¬ r a b) :
    (as.filter p).length ≤ 1 := by
  have hpairwise := has.filter p
  have hall : ∀ a ∈ as.filter p, p a = true := fun _ ha => (List.mem_filter.1 ha).2
  generalize as.filter p = kept at hpairwise hall
  match kept with
  | [] => exact Nat.zero_le 1
  | [_] => exact Nat.le_refl 1
  | a :: b :: _ =>
    simp only [List.pairwise_cons, List.forall_mem_cons] at hpairwise hall
    exact absurd hpairwise.1.1 (h a b hall.1 hall.2.1)

/-! ## What a search can come to -/

/-- The search does not pass over the member: it fits, or the comparison fails. -/
def Stops (scope : Scope) (written : MemberRef) (m : Member) : Prop :=
  isCandidate written.name m = true ∧ scope.paramsMatch m written.params? ≠ .ok false

/-- The result of a search that stops at the member. -/
def answer (scope : Scope) (written : MemberRef) (m : Member) : Except DocError (Option Member) :=
  (scope.paramsMatch m written.params?).map fun _ => some m

/-- What a search among the members can come to, their order aside. -/
inductive SearchOutcome (scope : Scope) (written : MemberRef) (members : List Member) :
    Except DocError (Option Member) → Prop where
  | passed : (∀ m ∈ members, ¬ scope.Stops written m) →
    SearchOutcome scope written members (.ok none)
  | stopped {m : Member} : m ∈ members → scope.Stops written m →
    SearchOutcome scope written members (scope.answer written m)

namespace SearchOutcome

variable {result result' : Except DocError (Option Member)}

theorem cons (hm : ¬ scope.Stops written m) (h : SearchOutcome scope written members result) :
    SearchOutcome scope written (m :: members) result := by
  cases h with
  | passed hnone => exact .passed (List.forall_mem_cons.2 ⟨hm, hnone⟩)
  | stopped hmem hstops => exact .stopped (List.mem_cons_of_mem m hmem) hstops

theorem of_findMember? (scope : Scope) (written : MemberRef) (members : List Member) :
    SearchOutcome scope written members (scope.findMember? written members) := by
  induction members with
  | nil => exact .passed (by simp)
  | cons m rest ih =>
    rw [findMember?]
    by_cases hcandidate : isCandidate written.name m = true
    · rw [if_pos hcandidate]
      cases hmatch : scope.paramsMatch m written.params? with
      | error e =>
        have hstopped : SearchOutcome scope written (m :: rest) (scope.answer written m) :=
          .stopped List.mem_cons_self ⟨hcandidate, by simp [hmatch]⟩
        rw [answer, hmatch] at hstopped
        exact hstopped
      | ok fits =>
        cases fits with
        | true =>
          have hstopped : SearchOutcome scope written (m :: rest) (scope.answer written m) :=
            .stopped List.mem_cons_self ⟨hcandidate, by simp [hmatch]⟩
          rw [answer, hmatch] at hstopped
          exact hstopped
        | false => exact ih.cons fun hstops => hstops.2 hmatch
    · rw [if_neg hcandidate]
      exact ih.cons fun hstops => hcandidate hstops.1

/-- Only the members at which a search can stop count. -/
theorem of_mem_iff (h : SearchOutcome scope written members result)
    (hsame : ∀ m, scope.Stops written m → (m ∈ members ↔ m ∈ others)) :
    SearchOutcome scope written others result := by
  cases h with
  | passed hnone => exact .passed fun m hmem hstops => hnone m ((hsame m hstops).2 hmem) hstops
  | stopped hmem hstops => exact .stopped ((hsame _ hstops).1 hmem) hstops

/-- Members at which a search can stop leave one outcome if their answers are the same. -/
theorem unique (hsame : ∀ a ∈ members, ∀ b ∈ members, scope.Stops written a →
      scope.Stops written b → scope.answer written a = scope.answer written b)
    (h : SearchOutcome scope written members result)
    (h' : SearchOutcome scope written members result') : result = result' := by
  cases h with
  | passed hnone =>
    cases h' with
    | passed => rfl
    | stopped hmem hstops => exact absurd hstops (hnone _ hmem)
  | stopped hmem hstops =>
    cases h' with
    | passed hnone => exact absurd hstops (hnone _ hmem)
    | stopped hmem' hstops' => exact hsame _ hmem _ hmem' hstops hstops'

end SearchOutcome

/-! ## Methods in another order -/

theorem isMethod_of_stops (hm : m ∈ scope.index.allMembers type)
    (hfields : params = [] ∨
      ∀ f ∈ scope.index.allMembers type, f.isField = true → f.name ≠ name)
    (hstops : scope.Stops ⟨name, some params⟩ m) : m.isMethod = true := by
  obtain ⟨hcandidate, hmatch⟩ := hstops
  obtain ⟨hkind, hname⟩ := isCandidate_eq_true_iff.1 hcandidate
  rcases hfields with rfl | hfields
  · by_contra hmethod
    simp [paramsMatch, hmethod] at hmatch
  · exact hkind.resolve_left fun hfield => hfields m hm hfield hname

/-- When a method qualifies, every written type could be resolved. -/
theorem exists_type_of_qualifies (h : scope.Qualifies ⟨name, some params⟩ m)
    (hm : m.isMethod = true) {text : String} (htext : text ∈ params) :
    ∃ type, scope.resolveType? text = .ok (some type) := by
  have hall := forall₂_of_qualifies h hm
  clear h
  generalize m.erasedParams = declared at hall
  induction hall with
  | nil => cases htext
  | cons hfirst _ ih =>
    rcases List.mem_cons.1 htext with rfl | hrest
    · exact ⟨_, hfirst⟩
    · exact ih hrest

theorem eq_error_of_paramsMatch {e : DocError}
    (h : scope.paramsMatch m (some params) = .error e) :
    scope.malformedImport? = some e ∧ ∃ text ∈ params, scope.resolveType? text = .error e := by
  obtain ⟨_, hparams, text, htext, hfails⟩ := exists_written_of_paramsMatch h
  cases hparams
  exact ⟨(failure_of_resolveType? hfails).2, text, htext, hfails⟩

/-- A method at which the search stops qualifies, or the first malformed import is in the way. -/
theorem qualifies_or_fails (hstops : scope.Stops ⟨name, some params⟩ m) :
    scope.Qualifies ⟨name, some params⟩ m ∧
        scope.answer ⟨name, some params⟩ m = .ok (some m) ∨
      ∃ e, scope.malformedImport? = some e ∧ scope.answer ⟨name, some params⟩ m = .error e ∧
        ∃ text ∈ params, scope.resolveType? text = .error e := by
  obtain ⟨hcandidate, hmatch⟩ := hstops
  cases hfits : scope.paramsMatch m (some params) with
  | error e =>
    obtain ⟨himport, htext⟩ := eq_error_of_paramsMatch hfits
    refine .inr ⟨e, himport, ?_, htext⟩
    rw [answer, hfits]
    rfl
  | ok fits =>
    cases fits with
    | false => exact absurd hfits hmatch
    | true =>
      refine .inl ⟨(qualifies_iff hcandidate hfits).2 rfl, ?_⟩
      rw [answer, hfits]
      rfl

theorem eq_of_mem_allMembers (ha : a ∈ scope.index.allMembers type)
    (hb : b ∈ scope.index.allMembers type) (hshares : a.sharesKey b = true) : a = b := by
  by_contra hne
  have hsymm : Std.Symm fun a b : Member => a.sharesKey b = false :=
    ⟨fun _ _ h => Member.sharesKey_comm.trans h⟩
  have hnone := (scope.index.pairwise_allMembers type).forall ha hb hne
  exact Bool.false_ne_true (hnone.symm.trans hshares)

theorem answer_eq_of_stops (hfields : params = [] ∨
      ∀ f ∈ scope.index.allMembers type, f.isField = true → f.name ≠ name)
    (ha : a ∈ scope.index.allMembers type) (hb : b ∈ scope.index.allMembers type)
    (hastops : scope.Stops ⟨name, some params⟩ a) (hbstops : scope.Stops ⟨name, some params⟩ b) :
    scope.answer ⟨name, some params⟩ a = scope.answer ⟨name, some params⟩ b := by
  have ham := isMethod_of_stops ha hfields hastops
  have hbm := isMethod_of_stops hb hfields hbstops
  -- a method that qualifies leaves no written type unresolved, so no other one can fail
  have hclash : ∀ {m : Member} {e : DocError}, scope.Qualifies ⟨name, some params⟩ m →
      m.isMethod = true → ¬ ∃ text ∈ params, scope.resolveType? text = .error e := by
    rintro m e hq hm ⟨text, htext, hfails⟩
    obtain ⟨type, htype⟩ := exists_type_of_qualifies hq hm htext
    cases hfails.symm.trans htype
  rcases qualifies_or_fails hastops with ⟨hq, -⟩ | ⟨e, himport, hanswer, hfails⟩
  · rcases qualifies_or_fails hbstops with ⟨hq', -⟩ | ⟨e, -, -, hfails⟩
    · rw [eq_of_mem_allMembers ha hb (sharesKey_of_qualifies_method hq hq' ham hbm)]
    · exact absurd hfails (hclash hq ham)
  · rcases qualifies_or_fails hbstops with ⟨hq, -⟩ | ⟨e', himport', hanswer', -⟩
    · exact absurd hfails (hclash hq hbm)
    · cases himport.symm.trans himport'
      rw [hanswer, hanswer']

theorem sameTypeNames_rearrange {decl : TypeDecl} {ms : List MemberDecl}
    (hdecl : scope.index.types.find? decl.name = some decl) :
    scope.SameTypeNames { scope with index := scope.index.rearrange decl ms } where
  lookupType? := SymbolIndex.lookupType?_rearrange hdecl ms
  imports := rfl
  module := rfl
  defaultNamespace := rfl

/-- In whatever order the methods of a type are declared, the search has the same result. -/
theorem findMember?_rearrange {decl : TypeDecl} {ms : List MemberDecl}
    (hfields : params = [] ∨
      ∀ f ∈ scope.index.allMembers type, f.isField = true → f.name ≠ name)
    (hdecl : scope.index.types.find? decl.name = some decl) (hms : Rearranged decl.members ms) :
    scope.findMember? ⟨name, some params⟩ ((scope.index.rearrange decl ms).allMembers type) =
      scope.findMember? ⟨name, some params⟩ (scope.index.allMembers type) := by
  have hrearranged := (SearchOutcome.of_findMember? scope ⟨name, some params⟩
    ((scope.index.rearrange decl ms).allMembers type)).of_mem_iff fun m hstops => by
      refine SymbolIndex.mem_allMembers_rearrange hdecl hms ?_ type
      rintro hkind
      simpa [isCandidate, MemberDecl.isField, MemberDecl.isMethod, hkind] using hstops.1
  exact hrearranged.unique (fun a ha b hb => answer_eq_of_stops hfields ha hb)
    (.of_findMember? scope ⟨name, some params⟩ (scope.index.allMembers type))

/-- Written parameter types single out one method and one field of a type at most. Empty ones mean
the method, others the first of the two; and as long as it is not a field, the order in which
methods are declared makes no difference. -/
theorem overloads_unambiguous (scope : Scope) (type : QualifiedName) {reference : Reference}
    {name : String} {params : List String}
    (hmember : reference.member? = some ⟨name, some params⟩) :
    let qualifying :=
      (scope.index.allMembers type).filter (scope.Qualifies ⟨name, some params⟩ ·)
    (qualifying.filter (·.isMethod)).length ≤ 1 ∧ (qualifying.filter (·.isField)).length ≤ 1 ∧
    (∀ found, scope.resolveMember? type reference = .ok found →
      found = qualifying.head? ∧
      (params = [] → found = (qualifying.filter (·.isMethod)).head?)) ∧
    ∀ (decl : TypeDecl) (ms : List MemberDecl), scope.index.types.find? decl.name = some decl →
      Rearranged decl.members ms →
      (params = [] ∨ ∀ f ∈ scope.index.allMembers type, f.isField = true → f.name ≠ name) →
      ({ scope with index := scope.index.rearrange decl ms } : Scope).resolveMember? type
        reference = scope.resolveMember? type reference := by
  refine ⟨?_, ?_, fun found h => ?_, fun decl ms hdecl hms hfields => ?_⟩
  · rw [List.filter_filter]
    refine length_filter_le_one (scope.index.pairwise_allMembers type) fun a b ha hb => ?_
    simp only [Bool.and_eq_true, decide_eq_true_eq] at ha hb
    simp [sharesKey_of_qualifies_method ha.2 hb.2 ha.1 hb.1]
  · rw [List.filter_filter]
    refine length_filter_le_one (scope.index.pairwise_allMembers type) fun a b ha hb => ?_
    simp only [Bool.and_eq_true, decide_eq_true_eq] at ha hb
    simp [sharesKey_of_qualifies_field ha.2 hb.2 ha.1 hb.1]
  · simp only [resolveMember?, hmember] at h
    have hfound := (findMember?_eq_find? h).trans List.head?_filter.symm
    refine ⟨hfound, ?_⟩
    rintro rfl
    refine hfound.trans (congrArg List.head? (List.filter_eq_self.2 fun m hm => ?_).symm)
    exact (of_decide_eq_true (List.mem_filter.1 hm).2).2.2.1
  · simp only [resolveMember?, hmember, (sameTypeNames_rearrange hdecl).findMember?]
    exact findMember?_rearrange hfields hdecl hms

/-- The methods of `overloaded` in another order. -/
def reordered : List MemberDecl :=
  [{ name := "h", kind := .method, params := [.declared "p.T"] },
    { name := "g", kind := .field },
    { name := "h", kind := .method, params := [.primitive .int] },
    { name := "g", kind := .method,
      params := [.array (.typeVariable "E" (some (.declared "p.T")))] },
    { name := "g", kind := .method },
    { name := "g", kind := .method, params := [.array (.declared "p.T")] }]

theorem overloads_unambiguous_reordered :
    let reference : Reference := ⟨"T", some ⟨"h", some ["T"]⟩⟩
    let m : Member := ⟨⟨"h", .method, [.declared "p.T"]⟩, "p.S"⟩
    reference.member? = some ⟨"h", some ["T"]⟩ ∧ Rearranged overloaded.members reordered ∧
      ({ overloads with
        index := overloads.index.rearrange overloaded reordered } : Scope).resolveMember? "p.T"
        reference = .ok (some m) := by
  intro reference m
  have hreordered : Rearranged overloaded.members reordered := ⟨by decide, by decide, by decide⟩
  have hfound : overloads.resolveMember? "p.T" reference = .ok (some m) := by decide +kernel
  obtain ⟨-, -, -, horder⟩ :=
    overloads_unambiguous overloads "p.T" (show reference.member? = some ⟨"h", some ["T"]⟩ from rfl)
  refine ⟨rfl, hreordered, ?_⟩
  rw [horder overloaded reordered (by decide) hreordered (.inr (by decide)), hfound]

end DocWeave.Scope
