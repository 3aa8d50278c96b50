import DocWeave.SymbolIndex.Members
import Mathlib.Logic.Relation
import Mathlib.Tactic.Tauto

/-!
# The lineage of a type

`index.climb path name` lists the declared types on the ways up from `name`, depth first: a way ends
at a name that is not declared or that it has come through before. The lineage of a type is that
list with each name where it comes first only. Nothing is remembered from one way to the next, so
the list may be long, but no visited names have to be explained.

A walk that passes over the names it has reached before comes to the same names in the same order.
This needs that the names it has left behind are `Closed`, that is, that their supertypes have been
reached too: the ways up from such a name lead to nothing new (`mem_of_mem_climb`).
-/

namespace DocWeave

/-- The members of `names` that are not in `seen`, each where it comes first. -/
def fresh (seen names : List QualifiedName) : List QualifiedName :=
  (names.removeAll seen).eraseDups

variable {seen seen' names names' : List QualifiedName} {name : QualifiedName}

theorem mem_fresh : name ∈ fresh seen names ↔ name ∈ names ∧ name ∉ seen := by
  simp [fresh, List.removeAll]

theorem fresh_eq_nil (h : ∀ n ∈ names, n ∈ seen) : fresh seen names = [] :=
  List.eq_nil_iff_forall_not_mem.2 fun n hn => (mem_fresh.1 hn).2 (h n (mem_fresh.1 hn).1)

theorem fresh_congr (h : ∀ n ∈ names, n ∈ seen ↔ n ∈ seen') :
    fresh seen names = fresh seen' names := by
  rw [fresh, fresh, List.removeAll, List.removeAll]
  congr 1
  refine List.filter_congr fun n hn => ?_
  simp [h n hn]

theorem fresh_append : fresh seen (names ++ names') =
    fresh seen names ++ fresh (fresh seen names ++ seen) names' := by
  have hrest : (names'.removeAll seen).removeAll (names.removeAll seen) =
      names'.removeAll (fresh seen names ++ seen) := by
    simp only [List.removeAll, List.filter_filter]
    refine List.filter_congr fun n _ => ?_
    by_cases hn : n ∈ seen <;> simp [hn, mem_fresh]
  rw [fresh, List.removeAll, List.filter_append, ← List.removeAll, ← List.removeAll,
    List.eraseDups_append, hrest]
  rfl

theorem fresh_append_of_forall_mem (h : ∀ n ∈ names, n ∈ seen) :
    fresh seen (names ++ names') = fresh seen names' := by
  rw [fresh_append, fresh_eq_nil h, List.nil_append, List.nil_append]

theorem fresh_cons (h : name ∉ seen) :
    fresh seen (name :: names) = name :: fresh (name :: seen) names := by
  have hrest : (names.removeAll seen).filter (!· == name) = names.removeAll (name :: seen) := by
    rw [List.removeAll, List.filter_filter, List.removeAll]
    refine List.filter_congr fun n _ => ?_
    by_cases hn : n = name <;> simp [hn]
  rw [fresh, List.cons_removeAll, if_pos (by simpa using h), List.eraseDups_cons, hrest]
  rfl

/-- When a name and others have been seen, only their fresh ones count for what follows. -/
theorem fresh_cons_append (h : name ∉ seen)
    (hseen : ∀ n ∈ names', n ∈ seen' ↔ n ∈ name :: seen ∨ n ∈ names) :
    fresh seen (name :: names ++ names') =
      name :: fresh (name :: seen) names ++ fresh seen' names' := by
  rw [fresh_append, fresh_cons h]
  congr 1
  refine fresh_congr fun n hn => ?_
  rw [hseen n hn]
  simp only [List.mem_append, List.mem_cons, mem_fresh, not_or]
  tauto

namespace SymbolIndex

variable {index : SymbolIndex} {path : List QualifiedName}

/-- The declared types that are not among `names`. -/
def typesOutside (index : SymbolIndex) (names : List QualifiedName) : List QualifiedName :=
  index.types.keys.filter (!names.contains ·)

theorem length_typesOutside_lt (hd : name ∈ index.types.keys) (h : name ∉ names) :
    (index.typesOutside (name :: names)).length < (index.typesOutside names).length := by
  have hsplit : index.typesOutside (name :: names) =
      (index.typesOutside names).filter (· != name) := by
    rw [typesOutside, typesOutside, List.filter_filter]
    refine List.filter_congr fun n _ => ?_
    by_cases hn : n = name <;> simp [hn]
  rw [hsplit]
  refine List.length_filter_lt_length_iff_exists.2 ⟨name, ?_, by simp⟩
  simp [typesOutside, hd, h]

theorem length_typesOutside_le (h : ∀ n ∈ index.types.keys, n ∈ names → n ∈ names') :
    (index.typesOutside names').length ≤ (index.typesOutside names).length := by
  rw [typesOutside, typesOutside, ← List.countP_eq_length_filter, ← List.countP_eq_length_filter]
  refine List.countP_mono_left fun n hkey hn => ?_
  simp only [Bool.not_eq_true', List.contains_eq_mem, decide_eq_false_iff_not] at hn ⊢
  exact mt (h n hkey) hn

/-- When no declared type is left outside, all of them are among the names. -/
theorem mem_of_typesOutside (h : (index.typesOutside names).length = 0)
    (hkey : name ∈ index.types.keys) : name ∈ names := by
  have hnone := List.eq_nil_of_length_eq_zero h
  simp only [typesOutside, List.filter_eq_nil_iff] at hnone
  simpa using hnone name hkey

/-- The declared types on the ways up from `name`, depth first. No way goes through a type of `path`
or through one type twice. -/
def climb (index : SymbolIndex) (path : List QualifiedName) (name : QualifiedName) :
    List QualifiedName :=
  if _free : name ∈ path then []
  else
    match _found : index.types.find? name with
    | none => []
    | some decl => name :: decl.supertypes.flatMap (climb index (name :: path))
termination_by (index.typesOutside path).length
decreasing_by exact length_typesOutside_lt (Registry.mem_keys_iff.2 ⟨_, _found⟩) _free

/-- A type and the declared types above it, depth first, each where it comes first. -/
def lineage (index : SymbolIndex) (type : QualifiedName) : List QualifiedName :=
  (index.climb [] type).eraseDups

/-- The declared `type` has `supertype` among its supertypes. -/
def Extends (index : SymbolIndex) (type supertype : QualifiedName) : Prop :=
  ∃ decl, index.types.find? type = some decl ∧ supertype ∈ decl.supertypes

/-- The supertypes of what has been seen outside the path have been seen as well. -/
def Closed (index : SymbolIndex) (path seen : List QualifiedName) : Prop :=
  ∀ type ∈ seen, type ∉ path → ∀ supertype ∈ index.types.keys,
    index.Extends type supertype → supertype ∈ seen

/-! ## Ways up -/

theorem climb_of_mem (h : name ∈ path) : index.climb path name = [] := by
  rw [climb, dif_pos h]

theorem climb_of_none (h : index.types.find? name = none) : index.climb path name = [] := by
  rw [climb]
  split
  · rfl
  · split
    · rfl
    · rename_i hd
      cases h.symm.trans hd

theorem climb_of_some {decl : TypeDecl} (hfree : name ∉ path)
    (h : index.types.find? name = some decl) :
    index.climb path name = name :: decl.supertypes.flatMap (index.climb (name :: path)) := by
  rw [climb, dif_neg hfree]
  split
  · rename_i hd
    cases h.symm.trans hd
  · rename_i hd
    cases h.symm.trans hd
    rfl

/-- The lineage begins with the type. -/
theorem lineage_of_some {decl : TypeDecl} (h : index.types.find? name = some decl) :
    index.lineage name = name :: fresh [name] (decl.supertypes.flatMap (index.climb [name])) := by
  have hall : ∀ names : List QualifiedName, names.eraseDups = fresh [] names := by
    intro names
    rw [fresh, List.removeAll_nil]
  rw [lineage, hall, climb_of_some List.not_mem_nil h, fresh_cons List.not_mem_nil]

theorem lineage_of_none (h : index.types.find? name = none) : index.lineage name = [] := by
  rw [lineage, climb_of_none h]
  rfl

/-- What lies on a way up is declared and is reached along supertypes. -/
theorem reaches_of_mem_climb {n : QualifiedName} (h : n ∈ index.climb path name) :
    Relation.ReflTransGen index.Extends name n ∧ n ∈ index.types.keys := by
  fun_induction climb index path name with
  | case1 => cases h
  | case2 => cases h
  | case3 path name _ decl hfound ih =>
    rcases List.mem_cons.1 h with rfl | h
    · exact ⟨.refl, Registry.mem_keys_iff.2 ⟨decl, hfound⟩⟩
    · obtain ⟨supertype, hs, hn⟩ := List.mem_flatMap.1 h
      obtain ⟨hreach, hkey⟩ := ih supertype hn
      exact ⟨.head ⟨decl, hfound, hs⟩ hreach, hkey⟩

/-- A way up does not leave what has been seen. -/
theorem mem_of_mem_climb {n : QualifiedName} (hclosed : index.Closed path seen)
    (hname : name ∈ seen) (h : n ∈ index.climb path name) : n ∈ seen := by
  fun_induction climb index path name with
  | case1 => cases h
  | case2 => cases h
  | case3 path name hfree decl hfound ih =>
    rcases List.mem_cons.1 h with rfl | h
    · exact hname
    · obtain ⟨supertype, hs, hn⟩ := List.mem_flatMap.1 h
      have hkey : supertype ∈ index.types.keys := by
        cases hfind : index.types.find? supertype with
        | none =>
          rw [climb_of_none hfind] at hn
          cases hn
        | some d => exact Registry.mem_keys_iff.2 ⟨d, hfind⟩
      refine ih supertype ?_ (hclosed name hname hfree supertype hkey ⟨decl, hfound, hs⟩) hn
      exact fun type ht hp => hclosed type ht fun hin => hp (List.mem_cons_of_mem _ hin)

theorem mem_keys_of_mem_flatMap_climb {n : QualifiedName}
    (h : n ∈ names.flatMap (index.climb path)) : n ∈ index.types.keys := by
  obtain ⟨name, -, hn⟩ := List.mem_flatMap.1 h
  exact (reaches_of_mem_climb hn).2

/-- A name that is not declared has no supertypes. -/
theorem Closed.cons_of_none (hclosed : index.Closed path seen)
    (h : index.types.find? name = none) : index.Closed path (name :: seen) := by
  intro type htype hfree supertype hkey hext
  rcases List.mem_cons.1 htype with rfl | htype
  · obtain ⟨decl, hfind, -⟩ := hext
    cases h.symm.trans hfind
  · exact List.mem_cons_of_mem _ (hclosed type htype hfree supertype hkey hext)

/-- The types of the path need not be closed yet. -/
theorem Closed.cons_cons (hclosed : index.Closed path seen) (name : QualifiedName) :
    index.Closed (name :: path) (name :: seen) := by
  intro type htype hfree supertype hkey hext
  rw [List.mem_cons, not_or] at hfree
  have hseen := (List.mem_cons.1 htype).resolve_left hfree.1
  exact List.mem_cons_of_mem _ (hclosed type hseen hfree.2 supertype hkey hext)

theorem Closed.mem_of_reaches {n : QualifiedName} (hclosed : index.Closed [] seen)
    (hname : name ∈ seen) (h : Relation.ReflTransGen index.Extends name n)
    (hn : n ∈ index.types.keys) : n ∈ seen := by
  induction h with
  | refl => exact hname
  | tail _ hstep ih =>
    obtain ⟨decl, hfound, -⟩ := id hstep
    exact hclosed _ (ih (Registry.mem_keys_iff.2 ⟨decl, hfound⟩)) List.not_mem_nil _ hn hstep

end SymbolIndex
end DocWeave
