import DocWeave.Json
import Mathlib.Data.List.Nodup

/-!
# Records of JSON values

What a record shows is the value of each known field. A reordered object shows the same, and so does
one with a further unknown field; where a known field is left out or gets another value, the other
fields stay as they are. `Kept` says that what is read stays what is read.
-/

namespace DocWeave

/-- What the one gives, the other gives too. -/
def Kept {α : Type} (x y : Option α) : Prop :=
  ∀ a, x = some a → y = some a

namespace Kept

variable {α β : Type} {x y : Option α}

theorem refl (x : Option α) : Kept x x := fun _ h => h

theorem of_eq_none (h : x = none) : Kept x y := by
  intro a hx
  cases h.symm.trans hx

theorem bind {f g : α → Option β} (h : Kept x y) (hfg : ∀ a, Kept (f a) (g a)) :
    Kept (x.bind f) (y.bind g) := by
  intro b hb
  obtain ⟨a, hx, hf⟩ := Option.bind_eq_some_iff.1 hb
  rw [h a hx]
  exact hfg a b hf

theorem map (h : Kept x y) (f : α → β) : Kept (x.map f) (y.map f) := by
  intro b hb
  obtain ⟨a, hx, rfl⟩ := Option.map_eq_some_iff.1 hb
  rw [h a hx]
  rfl

/-- An element may be replaced by one that reads the same. -/
theorem mapM_replace {read : Json → Option α} {value value' : Json}
    (h : Kept (read value) (read value')) (before after : List Json) :
    Kept ((before ++ value :: after).mapM read) ((before ++ value' :: after).mapM read) := by
  rw [List.mapM_append, List.mapM_append, List.mapM_cons, List.mapM_cons]
  exact (refl _).bind fun _ => (h.bind fun _ => refl _).bind fun _ => refl _

end Kept

namespace Json

variable {names : List String} {least : Nat} {name : String} {value value' : Json}
  {fields fields' before after known : List (String × Json)}

/-- The fields with known names. -/
def knownFields (names : List String) (fields : List (String × Json)) : List (String × Json) :=
  fields.filter (names.contains ·.1)

theorem record?_object (names : List String) (least : Nat) (fields : List (String × Json)) :
    (object fields).record? names least =
      if ((knownFields names fields).map Prod.fst).Nodup then some (knownFields names fields)
      else none := rfl

theorem record?_object_eq_some_iff :
    (object fields).record? names least = some known ↔
      ((knownFields names fields).map Prod.fst).Nodup ∧ knownFields names fields = known := by
  rw [record?_object]
  split <;> simp_all

theorem knownFields_append_cons (h : name ∈ names) :
    knownFields names (before ++ (name, value) :: after) =
      knownFields names before ++ (name, value) :: knownFields names after := by
  simp [knownFields, h]

theorem knownFields_unknown (h : name ∉ names) :
    knownFields names (before ++ (name, value) :: after) = knownFields names (before ++ after) := by
  simp [knownFields, h]

theorem lookup_eq_some_iff_mem (h : (fields.map Prod.fst).Nodup) :
    fields.lookup name = some value ↔ (name, value) ∈ fields := by
  induction fields with
  | nil => simp
  | cons field rest ih =>
    obtain ⟨key, v⟩ := field
    rw [List.map_cons, List.nodup_cons] at h
    rw [List.lookup_cons, List.mem_cons, Prod.mk.injEq]
    by_cases hkey : name = key
    · subst hkey
      have hnot : (name, value) ∉ rest := fun hmem => h.1 (List.mem_map.2 ⟨_, hmem, rfl⟩)
      simp [hnot, eq_comm]
    · have hbeq : (name == key) = false := by simpa using hkey
      simp [hbeq, hkey, ih h.2]

theorem lookup_eq_none_of_not_mem (h : name ∉ fields.map Prod.fst) : fields.lookup name = none := by
  rw [List.lookup_eq_none_iff]
  rintro ⟨key, v⟩ hmem
  have hne : name ≠ key := by
    rintro rfl
    exact h (List.mem_map_of_mem hmem)
  simpa using hne

/-- The order of fields does not count. -/
theorem lookup_perm (h : fields.Perm fields') (hnodup : (fields.map Prod.fst).Nodup)
    (name : String) : fields.lookup name = fields'.lookup name := by
  have hnodup' := (h.map Prod.fst).nodup hnodup
  refine Option.ext fun value => ?_
  rw [lookup_eq_some_iff_mem hnodup, lookup_eq_some_iff_mem hnodup', h.mem_iff]

theorem lookup_append_cons_self (h : name ∉ before.map Prod.fst) :
    (before ++ (name, value) :: after).lookup name = some value := by
  simp [List.lookup_append, lookup_eq_none_of_not_mem h]

theorem lookup_append_cons_of_ne {other : String} (h : other ≠ name) :
    (before ++ (name, value) :: after).lookup other = (before ++ after).lookup other := by
  have hbeq : (other == name) = false := by simpa using h
  rw [List.lookup_append, List.lookup_append, List.lookup_cons, hbeq]

/-- A reordered object shows the same fields. -/
theorem record?_reorder (h : fields.Perm fields')
    (hread : (object fields).record? names least = some known) :
    ∃ known', (object fields').record? names least = some known' ∧
      ∀ name, known'.lookup name = known.lookup name := by
  obtain ⟨hnodup, rfl⟩ := record?_object_eq_some_iff.1 hread
  have hknown : (knownFields names fields).Perm (knownFields names fields') := h.filter _
  exact ⟨_, record?_object_eq_some_iff.2 ⟨(hknown.map Prod.fst).nodup hnodup, rfl⟩,
    fun name => (lookup_perm hknown hnodup name).symm⟩

/-- An object with one more unknown field is the same record. -/
theorem record?_unknown (h : name ∉ names) :
    (object (before ++ (name, value) :: after)).record? names least =
      (object (before ++ after)).record? names least := by
  rw [record?_object, record?_object, knownFields_unknown h]

/-- An object without one of its known fields shows the others. -/
theorem record?_drop (h : name ∈ names)
    (hread : (object (before ++ (name, value) :: after)).record? names least = some known) :
    ∃ known', (object (before ++ after)).record? names least = some known' ∧
      known.lookup name = some value ∧ known'.lookup name = none ∧
      ∀ other, other ≠ name → known'.lookup other = known.lookup other := by
  obtain ⟨hnodup, rfl⟩ := record?_object_eq_some_iff.1 hread
  rw [knownFields_append_cons h] at hnodup ⊢
  rw [List.map_append, List.map_cons, List.nodup_middle, List.nodup_cons, List.mem_append,
    not_or, ← List.map_append] at hnodup
  have hknown : knownFields names (before ++ after) =
      knownFields names before ++ knownFields names after := List.filter_append ..
  refine ⟨_, record?_object_eq_some_iff.2 ⟨hknown ▸ hnodup.2, hknown⟩,
    lookup_append_cons_self hnodup.1.1, lookup_eq_none_of_not_mem ?_,
    fun other hne => (lookup_append_cons_of_ne hne).symm⟩
  rw [List.map_append, List.mem_append]
  exact not_or.2 hnodup.1

/-- An object with another value of a known field shows that value, and the other fields as they
were. -/
theorem record?_replace (h : name ∈ names)
    (hread : (object (before ++ (name, value) :: after)).record? names least = some known) :
    ∃ known', (object (before ++ (name, value') :: after)).record? names least = some known' ∧
      known.lookup name = some value ∧ known'.lookup name = some value' ∧
      ∀ other, other ≠ name → known'.lookup other = known.lookup other := by
  obtain ⟨hnodup, rfl⟩ := record?_object_eq_some_iff.1 hread
  rw [knownFields_append_cons h] at hnodup ⊢
  have hnot : name ∉ (knownFields names before).map Prod.fst := by
    rw [List.map_append, List.map_cons, List.nodup_middle, List.nodup_cons, List.mem_append,
      not_or] at hnodup
    exact hnodup.1.1
  refine ⟨_, record?_object_eq_some_iff.2 ⟨?_, knownFields_append_cons h⟩,
    lookup_append_cons_self hnot, lookup_append_cons_self hnot, fun other hne => ?_⟩
  · rw [knownFields_append_cons h]
    rw [List.map_append, List.map_cons] at hnodup ⊢
    exact hnodup
  · rw [lookup_append_cons_of_ne hne, lookup_append_cons_of_ne hne]

/-! ## Tagged values -/

theorem single?_append_cons_eq_some {tag : String} {content : Json}
    (h : (object (before ++ (name, value) :: after)).single? = some (tag, content)) :
    before = [] ∧ after = [] ∧ name = tag ∧ value = content := by
  cases before with
  | nil =>
    cases after with
    | nil => simpa [single?] using h
    | cons => cases h
  | cons field rest =>
    cases rest with
    | nil => cases h
    | cons => cases h

theorem constant?_of_two_le (a b : String × Json) (rest : List (String × Json)) :
    constant? (.object (a :: b :: rest)) = none := by
  obtain ⟨name, value⟩ := a
  cases value <;> rfl

theorem eq_or_two_le_of_perm {α : Type} {items items' : List α} (h : items.Perm items') :
    items = items' ∨ ∃ a b rest, items = a :: b :: rest := by
  cases items with
  | nil => exact .inl h.nil_eq
  | cons a rest =>
    cases rest with
    | nil => exact .inl (List.perm_singleton.1 h.symm).symm
    | cons b rest => exact .inr ⟨a, b, rest, rfl⟩

end Json
end DocWeave
