/-!
# Registries

A registry holds entries under distinct keys, in the order in which the keys came. Putting an
entry replaces the one that has its key, in its place, and else comes last.
-/

namespace DocWeave

/-- Entries with distinct keys, in the order of first insertion. -/
structure Registry (α : Type) (key : α → String) where
  entries : List α
  nodup_keys : (entries.map key).Nodup

namespace Registry

variable {α : Type} {key : α → String}

/-- Replaces the entry that has the key of `a`, or adds `a` at the end. -/
def insertEntry (key : α → String) (a : α) : List α → List α
  | [] => [a]
  | b :: bs => if key b = key a then a :: bs else b :: insertEntry key a bs

theorem keys_insertEntry {a : α} {bs : List α} : (insertEntry key a bs).map key =
    if key a ∈ bs.map key then bs.map key else bs.map key ++ [key a] := by
  induction bs with
  | nil => rfl
  | cons b bs ih =>
    unfold insertEntry
    by_cases hb : key b = key a
    · rw [if_pos hb, List.map_cons, List.map_cons, if_pos (by simp [hb]), hb]
    · have hab : key a ≠ key b := fun h => hb h.symm
      rw [if_neg hb, List.map_cons, ih, List.map_cons]
      by_cases hm : key a ∈ bs.map key <;> simp [hm, hab]

theorem nodup_keys_insertEntry {a : α} {bs : List α} (h : (bs.map key).Nodup) :
    ((insertEntry key a bs).map key).Nodup := by
  rw [keys_insertEntry]
  split
  · exact h
  · rename_i hm
    refine List.nodup_append.2 ⟨h, by simp, fun k hk j hj => ?_⟩
    rw [List.mem_singleton] at hj
    rintro rfl
    exact hm (hj ▸ hk)

def empty : Registry α key := ⟨[], by simp⟩

instance : Inhabited (Registry α key) := ⟨empty⟩

/-- Replaces the entry of the same key in its place, or adds the entry at the end. -/
def insert (r : Registry α key) (a : α) : Registry α key :=
  ⟨insertEntry key a r.entries, nodup_keys_insertEntry r.nodup_keys⟩

/-- The entry that has the key `k`. -/
def find? (r : Registry α key) (k : String) : Option α :=
  r.entries.find? (key · == k)

def contains (r : Registry α key) (k : String) : Bool :=
  (r.find? k).isSome

def keys (r : Registry α key) : List String :=
  r.entries.map key

def size (r : Registry α key) : Nat :=
  r.entries.length

def isEmpty (r : Registry α key) : Bool :=
  r.entries.isEmpty

theorem key_of_find? {r : Registry α key} {k : String} {a : α} (h : r.find? k = some a) :
    key a = k := by
  simpa using List.find?_some h

theorem find?_insert (r : Registry α key) (a : α) (k : String) :
    (r.insert a).find? k = if key a = k then some a else r.find? k := by
  simp only [insert, find?]
  induction r.entries with
  | nil => by_cases h : key a = k <;> simp [insertEntry, h]
  | cons b bs ih =>
    unfold insertEntry
    by_cases hb : key b = key a
    · by_cases h : key a = k <;> simp [hb, h]
    · by_cases h : key b = k
      · have : key a ≠ k := fun e => hb (h.trans e.symm)
        simp [h, this, this.symm]
      · simp [hb, h, ih]

/-- Entries of different keys can be put in either order. -/
theorem find?_insert_comm (r : Registry α key) {a b : α} (h : key a ≠ key b) (k : String) :
    ((r.insert a).insert b).find? k = ((r.insert b).insert a).find? k := by
  simp only [find?_insert]
  by_cases ha : key a = k
  · have hb : key b ≠ k := fun e => h (ha.trans e.symm)
    simp [ha, hb]
  · simp [ha]

theorem find?_insert_congr {r r' : Registry α key} (h : ∀ k, r'.find? k = r.find? k) (a : α)
    (k : String) : (r'.insert a).find? k = (r.insert a).find? k := by
  rw [find?_insert, find?_insert, h]

theorem keys_insert (r : Registry α key) (a : α) :
    (r.insert a).keys = if key a ∈ r.keys then r.keys else r.keys ++ [key a] :=
  keys_insertEntry

theorem insertEntry_of_not_mem {a : α} {bs : List α} (h : key a ∉ bs.map key) :
    insertEntry key a bs = bs ++ [a] := by
  induction bs with
  | nil => rfl
  | cons b bs ih =>
    rw [List.map_cons, List.mem_cons, not_or] at h
    rw [insertEntry, if_neg (Ne.symm h.1), ih h.2, List.cons_append]

theorem mem_keys_insert {r : Registry α key} {a : α} {k : String} :
    k ∈ (r.insert a).keys ↔ k = key a ∨ k ∈ r.keys := by
  rw [keys_insert]
  by_cases h : key a ∈ r.keys
  · rw [if_pos h, or_iff_right_of_imp fun hk => hk ▸ h]
  · rw [if_neg h, List.mem_append, List.mem_singleton, or_comm]

/-- Entries of new keys come last, in their order. -/
theorem entries_foldl_insert {r : Registry α key} {as : List α}
    (h : (r.keys ++ as.map key).Nodup) : (as.foldl insert r).entries = r.entries ++ as := by
  induction as generalizing r with
  | nil => rw [List.foldl_nil, List.append_nil]
  | cons a as ih =>
    have hnew : key a ∉ r.keys := fun hmem =>
      (List.nodup_append.1 h).2.2 _ hmem _ (List.mem_cons_self ..) rfl
    have hinsert : (r.insert a).entries = r.entries ++ [a] := insertEntry_of_not_mem hnew
    rw [List.map_cons, ← List.singleton_append, ← List.append_assoc] at h
    rw [List.foldl_cons, ih, hinsert, List.append_assoc, List.singleton_append]
    rwa [keys_insert, if_neg hnew]

theorem entries_foldl_insert_empty {as : List α} (h : (as.map key).Nodup) :
    (as.foldl insert (empty : Registry α key)).entries = as :=
  entries_foldl_insert (r := empty) h

theorem foldl_insert_entries (r : Registry α key) : r.entries.foldl insert empty = r := by
  have hentries := entries_foldl_insert_empty r.nodup_keys
  cases r
  exact (mk.injEq ..).mpr hentries

/-- Entries that are put one after the other bring their keys in the order in which these come
first, behind the keys that are there. -/
theorem keys_foldl_insert (r : Registry α key) (as : List α) :
    (as.foldl insert r).keys = r.keys ++ ((as.map key).removeAll r.keys).eraseDups := by
  induction as generalizing r with
  | nil => simp [List.removeAll]
  | cons a as ih =>
    rw [List.foldl_cons, ih, keys_insert, List.map_cons]
    by_cases h : key a ∈ r.keys
    · rw [if_pos h, List.cons_removeAll]
      simp [h]
    · have hrest : (as.map key).removeAll (r.keys ++ [key a]) =
          ((as.map key).removeAll r.keys).filter (!· == key a) := by
        rw [List.removeAll, List.removeAll, List.filter_filter]
        refine List.filter_congr fun k _ => ?_
        by_cases hk : k = key a <;> simp [hk]
      rw [if_neg h, List.cons_removeAll, if_pos (by simpa using h), List.eraseDups_cons, hrest,
        List.append_assoc, List.singleton_append]

theorem keys_foldl_insert_empty (as : List α) :
    (as.foldl insert (empty : Registry α key)).keys = (as.map key).eraseDups := by
  have hnone : (empty : Registry α key).keys = [] := rfl
  rw [keys_foldl_insert, hnone, List.nil_append, List.removeAll_nil]

theorem mem_keys_foldl_insert_empty {as : List α} {k : String} :
    k ∈ (as.foldl insert (empty : Registry α key)).keys ↔ k ∈ as.map key := by
  rw [keys_foldl_insert_empty, List.mem_eraseDups]

/-- Of the entries that are put under a key, the last one stays. -/
theorem find?_foldl_insert (r : Registry α key) (as : List α) (k : String) :
    (as.foldl insert r).find? k = ((as.filter (key · == k)).getLast?).or (r.find? k) := by
  induction as generalizing r with
  | nil => rfl
  | cons a as ih =>
    rw [List.foldl_cons, ih, find?_insert]
    by_cases h : key a = k
    · rw [if_pos h, List.filter_cons_of_pos (by simp [h]), List.getLast?_cons]
      cases (as.filter (key · == k)).getLast? <;> rfl
    · rw [if_neg h, List.filter_cons_of_neg (by simp [h])]

theorem find?_foldl_insert_empty (as : List α) (k : String) :
    (as.foldl insert (empty : Registry α key)).find? k = (as.filter (key · == k)).getLast? := by
  have hnone : (empty : Registry α key).find? k = none := rfl
  rw [find?_foldl_insert, hnone, Option.or_none]

/-- If entries of one key are equal, it does not matter in which order they are put. -/
theorem find?_foldl_insert_perm (r : Registry α key) {as bs : List α} (h : as.Perm bs)
    (hkey : ∀ a ∈ as, ∀ b ∈ as, key a = key b → a = b) (k : String) :
    (as.foldl insert r).find? k = (bs.foldl insert r).find? k := by
  rw [find?_foldl_insert, find?_foldl_insert]
  have hperm : (as.filter (key · == k)).Perm (bs.filter (key · == k)) := h.filter _
  cases ha : (as.filter (key · == k)).getLast? with
  | none =>
    rw [List.getLast?_eq_none_iff] at ha
    rw [ha] at hperm
    rw [hperm.nil_eq.symm]
    rfl
  | some a =>
    have hmem := List.mem_of_getLast? ha
    cases hb : (bs.filter (key · == k)).getLast? with
    | none =>
      rw [List.getLast?_eq_none_iff] at hb
      rw [hb] at hperm
      rw [hperm.eq_nil] at hmem
      cases hmem
    | some b =>
      have hmem' := hperm.mem_iff.2 (List.mem_of_getLast? hb)
      obtain ⟨⟨has, hak⟩, hbs, hbk⟩ := And.intro (List.mem_filter.1 hmem) (List.mem_filter.1 hmem')
      rw [hkey a has b hbs ((eq_of_beq hak).trans (eq_of_beq hbk).symm)]

theorem contains_eq_true_iff {r : Registry α key} {k : String} :
    r.contains k = true ↔ k ∈ r.keys := by
  simp [contains, find?, keys, List.find?_isSome]

theorem mem_keys_iff {r : Registry α key} {k : String} : k ∈ r.keys ↔ ∃ a, r.find? k = some a := by
  rw [← contains_eq_true_iff, contains, Option.isSome_iff_exists]

theorem find?_eq_none_iff {r : Registry α key} {k : String} : r.find? k = none ↔ k ∉ r.keys := by
  rw [mem_keys_iff, Option.eq_none_iff_forall_ne_some, not_exists]

theorem length_keys (r : Registry α key) : r.keys.length = r.size :=
  List.length_map ..

theorem find?_of_mem {r : Registry α key} {a : α} (h : a ∈ r.entries) :
    r.find? (key a) = some a := by
  obtain ⟨entries, hnodup⟩ := r
  rw [find?]
  induction entries with
  | nil => cases h
  | cons b bs ih =>
    rw [List.map_cons, List.nodup_cons] at hnodup
    rcases List.mem_cons.1 h with rfl | h
    · rw [List.find?_cons_of_pos (by simp)]
    · have hne : key b ≠ key a := fun e => hnodup.1 (e ▸ List.mem_map_of_mem h)
      rw [List.find?_cons_of_neg (by simpa using hne)]
      exact ih hnodup.2 h

/-- The entries are what is found under the keys. -/
theorem map_some_entries (r : Registry α key) : r.entries.map some = r.keys.map r.find? := by
  rw [keys, List.map_map]
  exact List.map_congr_left fun a ha => (find?_of_mem ha).symm

theorem isEmpty_keys (r : Registry α key) : r.keys.isEmpty = r.isEmpty :=
  List.isEmpty_map

theorem eq_empty_of_isEmpty {r : Registry α key} (h : r.isEmpty = true) : r = empty := by
  obtain ⟨entries, hnodup⟩ := r
  cases List.isEmpty_iff.1 h
  rfl

end Registry

/-- Texts under names. -/
abbrev NamedTexts := Registry (String × String) Prod.fst

/-- Distinct names in the order of first insertion. -/
abbrev NameSet := Registry String id

end DocWeave
