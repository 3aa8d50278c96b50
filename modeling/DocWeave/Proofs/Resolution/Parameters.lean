import DocWeave.Proofs.Members.Enumeration
import DocWeave.Proofs.Resolution.TypeName
import DocWeave.Resolution
import Mathlib.Data.List.Forall2

/-!
# Parameters that are the same

What is left of a type when it is erased are arrays of a primitive type or of a declared one, and
these are not changed when they are erased again. So a written type is compared with a parameter by
equality, whatever the variables in the declared type are bounded by. A list of written types fits
a method just if it is read as the erased parameter types that the method hides others by.
-/

namespace DocWeave

namespace TypeRef

theorem exists_erasure_eq_arrays (type : TypeRef) :
    ∃ depth element, type.erasure = arrays depth element ∧
      ((∃ kind, element = primitive kind) ∨ ∃ name, element = declared name) := by
  fun_induction erasure type with
  | case1 kind => exact ⟨0, primitive kind, rfl, .inl ⟨kind, rfl⟩⟩
  | case2 component ih =>
    obtain ⟨depth, element, harrays, helement⟩ := ih
    exact ⟨depth + 1, element, congrArg array harrays, helement⟩
  | case3 name => exact ⟨0, declared name, rfl, .inr ⟨name, rfl⟩⟩
  | case4 base args => exact ⟨0, declared base, rfl, .inr ⟨base, rfl⟩⟩
  | case5 name bound ih => exact ih
  | case6 name => exact ⟨0, root, rfl, .inr ⟨_, rfl⟩⟩

/-- Against erased types, comparing erasures is equality. -/
theorem isSameType_eq_decide {a b : TypeRef} (ha : a.erasure = a) (hb : b.erasure = b) :
    a.isSameType b = decide (a = b) := by
  rw [isSameType, ha, hb]
  rfl

end TypeRef

theorem MemberDecl.erasure_of_mem_erasedParams {m : MemberDecl} {d : TypeRef}
    (h : d ∈ m.erasedParams) : d.erasure = d := by
  obtain ⟨type, -, rfl⟩ := List.mem_map.1 h
  exact type.erasure_erasure

theorem Member.key?_of_isMethod {m : Member} (h : m.isMethod = true) :
    m.key? = some (.call m.name m.erasedParams) := by
  have hkind : m.kind = .method := eq_of_beq h
  rw [MemberDecl.key?, hkind]

namespace Scope

variable {scope : Scope} {m other : Member} {texts : List String} {types declared : List TypeRef}

theorem erasure_of_resolveType? {text : String} {type : TypeRef}
    (h : scope.resolveType? text = .ok (some type)) : type.erasure = type :=
  (arraysOver_of_resolveTypeChars? h).erasure_eq

/-- The written types are read as the given ones. -/
def ReadsAll (scope : Scope) : List String → List TypeRef → Prop :=
  List.Forall₂ fun text type => scope.resolveType? text = .ok (some type)

theorem typesMatch_of_readsAll (h : scope.ReadsAll texts types)
    (hdeclared : ∀ d ∈ declared, d.erasure = d) :
    scope.typesMatch declared texts = .ok (decide (declared = types)) := by
  induction h generalizing declared with
  | nil => cases declared <;> rfl
  | @cons text type texts types htype _ ih =>
    cases declared with
    | nil => rfl
    | cons d ds =>
      rw [List.forall_mem_cons] at hdeclared
      have hsame := TypeRef.isSameType_eq_decide (erasure_of_resolveType? htype) hdeclared.1
      rw [typesMatch, htype]
      simp only [hsame, List.cons.injEq]
      by_cases heq : type = d
      · simp only [heq, decide_true, if_true, true_and]
        exact ih hdeclared.2
      · simp only [heq, Ne.symm heq, decide_false, Bool.false_eq_true, if_false, false_and]

/-- A method fits the types that are its erased parameter types and no others. -/
theorem paramsMatch_of_readsAll (h : scope.ReadsAll texts types) (hmethod : m.isMethod = true) :
    scope.paramsMatch m (some texts) = .ok (decide (m.erasedParams = types)) := by
  have hmatch := typesMatch_of_readsAll h fun d => m.erasure_of_mem_erasedParams
  have hcount := List.Forall₂.length_eq h
  cases h with
  | nil =>
    rw [paramsMatch, hmethod, MemberDecl.erasedParams]
    cases m.params <;> rfl
  | @cons text type texts types =>
    simp only [paramsMatch, Member.isField_of_isMethod hmethod, Bool.false_eq_true, if_false]
    split
    · exact hmatch
    · rename_i hlength
      have hne : m.erasedParams ≠ type :: types := by
        intro heq
        exact hlength (by rw [heq, hcount])
      simp only [hne, decide_false]

/-- Erasing a type leaves arrays of a primitive or declared type, which stay as they are when they
are erased again. So a written type and a declared one are the same for the search just if they are
equal once the declared one is erased. A list of written types that can all be read fits a method
just if they are read as the erased parameter types in its key, and so a second method of this name
is fitted as well just if one of the two hides the other. -/
theorem params_fit_iff_key (scope : Scope) :
    (∀ type : TypeRef, type.erasure.erasure = type.erasure ∧
      ∃ depth element, type.erasure = .arrays depth element ∧
        ((∃ kind, element = .primitive kind) ∨ ∃ name, element = .declared name)) ∧
    (∀ text type, scope.resolveType? text = .ok (some type) → ∀ declared : TypeRef,
      (type.isSameType declared.erasure = true ↔ type = declared.erasure)) ∧
    ∀ texts types, scope.ReadsAll texts types → ∀ m : Member, m.isMethod = true →
      (∃ fits, scope.paramsMatch m (some texts) = .ok fits ∧
        (fits = true ↔ types = m.erasedParams) ∧
        (fits = true ↔ m.key? = some (.call m.name types))) ∧
      ∀ other : Member, other.isMethod = true → other.name = m.name → types = m.erasedParams →
        (scope.paramsMatch other (some texts) = .ok true ↔ other.sharesKey m = true) := by
  refine ⟨fun type => ⟨type.erasure_erasure, type.exists_erasure_eq_arrays⟩,
    fun text type htype declared => ?_, fun texts types hreads m hmethod => ⟨?_, ?_⟩⟩
  · have hsame := TypeRef.isSameType_eq_decide (erasure_of_resolveType? htype)
      declared.erasure_erasure
    rw [hsame, decide_eq_true_iff]
  · refine ⟨_, paramsMatch_of_readsAll hreads hmethod, ?_, ?_⟩
    · rw [decide_eq_true_iff, eq_comm]
    · rw [decide_eq_true_iff, Member.key?_of_isMethod hmethod]
      simp
  · intro other hother hname htypes
    rw [paramsMatch_of_readsAll hreads hother, Member.sharesKey_of_isMethod hother hmethod, htypes]
    simp [hname]

/-- The variables of the first method are bounded by an array and by another variable; the second
one overrides it. -/
theorem params_fit_iff_key_bounded :
    let texts := ["p.T[][]", " int"]
    let types : List TypeRef := [.arrays 2 (.declared "p.T"), .primitive .int]
    let m : Member := ⟨⟨"g", .method, [
      .array (.typeVariable "E" (some (.array (.parameterized "p.T" [.primitive .int])))),
      .typeVariable "N" (some (.typeVariable "M" (some (.primitive .int))))]⟩, "p.S"⟩
    let other : Member := ⟨⟨"g", .method, types⟩, "p.T"⟩
    misimporting.ReadsAll texts types ∧ m.isMethod = true ∧ other.isMethod = true ∧
      (∃ type, misimporting.resolveType? " int" = .ok (some type) ∧
        type.isSameType (.erasure (.typeVariable "M" (some (.primitive .int)))) = true) ∧
      m.key? = some (.call "g" types) ∧
      misimporting.paramsMatch other (some texts) = .ok true ∧ other.sharesKey m = true := by
  intro texts types m other
  obtain ⟨-, hsame, hfits⟩ := params_fit_iff_key misimporting
  have hint : misimporting.resolveType? " int" = .ok (some (.primitive .int)) := by
    decide +kernel
  have hreads : misimporting.ReadsAll texts types :=
    .cons (by decide +kernel) (.cons hint .nil)
  obtain ⟨⟨fits, -, hparams, hkey⟩, hother⟩ := hfits texts types hreads m rfl
  have hshares : other.sharesKey m = true := by decide
  exact ⟨hreads, rfl, rfl, ⟨_, hint, (hsame _ _ hint _).2 rfl⟩, hkey.1 (hparams.2 rfl),
    (hother other rfl rfl rfl).2 hshares, hshares⟩

end Scope
end DocWeave
