import DocWeave.Proofs.Members.Walk
import Mathlib.Data.List.Basic
import Mathlib.Data.List.Induction

/-!
# What the members of a type are

The members of a type are those that the types of its lineage offer, each key where it comes first
(`Collects.kept_eq`). Only the type itself offers constructors, and a constructor shares its key
with no member. What else is said of the members is read off that list.
-/

namespace DocWeave

/-! ## Keeping the first -/

section Firsts

variable {α : Type} {r : α → α → Bool} {a : α} {as bs : List α}

/-- The last of a list stays unless it repeats one that has stayed. -/
theorem eraseDupsBy_concat : (as ++ [a]).eraseDupsBy r =
    if (as.eraseDupsBy r).any (r a) then as.eraseDupsBy r else as.eraseDupsBy r ++ [a] := by
  have hloop : ∀ kept : List α, List.eraseDupsBy.loop r (as ++ [a]) kept =
      if (List.eraseDupsBy.loop r as kept).any (r a) then List.eraseDupsBy.loop r as kept
      else List.eraseDupsBy.loop r as kept ++ [a] := by
    induction as with
    | nil =>
      intro kept
      rw [List.nil_append, List.eraseDupsBy.loop, List.eraseDupsBy.loop, List.any_reverse]
      cases kept.any (r a) <;> simp [List.eraseDupsBy.loop]
    | cons b as ih =>
      intro kept
      rw [List.cons_append, List.eraseDupsBy.loop, List.eraseDupsBy.loop]
      cases kept.any (r b) <;> exact ih _
  exact hloop []

theorem pairwise_eraseDupsBy : (as.eraseDupsBy r).Pairwise fun a b => r b a = false := by
  induction as using List.reverseRecOn with
  | nil => exact .nil
  | append_singleton as b ih =>
    rw [eraseDupsBy_concat]
    split
    · exact ih
    · rename_i hnone
      refine List.pairwise_append.2 ⟨ih, List.pairwise_singleton .., fun a ha c hc => ?_⟩
      rw [List.mem_singleton.1 hc, ← Bool.not_eq_true]
      exact fun hr => hnone (List.any_eq_true.2 ⟨a, ha, hr⟩)

theorem exists_mem_eraseDupsBy (h : a ∈ as) (hself : r a a) : ∃ b ∈ as.eraseDupsBy r, r a b := by
  induction as using List.reverseRecOn with
  | nil => cases h
  | append_singleton as c ih =>
    rw [eraseDupsBy_concat]
    rcases List.mem_append.1 h with h | h
    · obtain ⟨b, hb, hr⟩ := ih h
      refine ⟨b, ?_, hr⟩
      split
      · exact hb
      · exact List.mem_append_left _ hb
    · cases List.mem_singleton.1 h
      split
      · rename_i hany
        exact List.any_eq_true.1 hany
      · exact ⟨a, List.mem_append_right _ (List.mem_singleton_self a), hself⟩

/-- What comes later only adds at the end. -/
theorem exists_eraseDupsBy_append (r : α → α → Bool) (as bs : List α) :
    ∃ later, (as ++ bs).eraseDupsBy r = as.eraseDupsBy r ++ later ∧ ∀ b ∈ later, b ∈ bs := by
  induction bs using List.reverseRecOn with
  | nil => exact ⟨[], by simp, by simp⟩
  | append_singleton bs c ih =>
    obtain ⟨later, hlater, hmem⟩ := ih
    rw [← List.append_assoc, eraseDupsBy_concat, hlater]
    split
    · exact ⟨later, rfl, fun b hb => List.mem_append_left _ (hmem b hb)⟩
    · refine ⟨later ++ [c], List.append_assoc .., fun b hb => ?_⟩
      exact (List.mem_append.1 hb).elim (fun hb => List.mem_append_left _ (hmem b hb))
        (List.mem_append_right _)

theorem mem_of_mem_eraseDupsBy (h : a ∈ as.eraseDupsBy r) : a ∈ as := by
  obtain ⟨later, hlater, hmem⟩ := exists_eraseDupsBy_append r [] as
  rw [List.nil_append] at hlater
  rw [hlater] at h
  exact hmem a h

/-- Where `r` divides into classes, the first of a class stays and no other. -/
theorem mem_eraseDupsBy_iff (hsymm : ∀ a b, r a b = r b a)
    (htrans : ∀ a b c, r a b = true → r b c = true → r a c = true) (hself : r a a = true) :
    a ∈ as.eraseDupsBy r ↔ as.find? (r a) = some a := by
  induction as using List.reverseRecOn with
  | nil => simp [List.eraseDupsBy, List.eraseDupsBy.loop]
  | append_singleton as c ih =>
    rw [eraseDupsBy_concat, List.find?_append]
    cases hfind : as.find? (r a) with
    | some b =>
      have hab : r a b = true := List.find?_some hfind
      rw [hfind] at ih
      rw [Option.some_or, ← ih]
      split
      · exact Iff.rfl
      · rename_i hnone
        refine ⟨fun h => ?_, List.mem_append_left _⟩
        refine (List.mem_append.1 h).resolve_right fun hc => ?_
        -- `c` is not `a`, whose class has a member already
        cases List.mem_singleton.1 hc
        obtain ⟨d, hd, hbd⟩ := exists_mem_eraseDupsBy (r := r) (List.mem_of_find?_eq_some hfind)
          (htrans b a b (hsymm b a ▸ hab) hab)
        exact hnone (List.any_eq_true.2 ⟨d, hd, htrans a b d hab hbd⟩)
    | none =>
      rw [List.find?_eq_none] at hfind
      have hkept : a ∉ as.eraseDupsBy r := fun h => hfind a (mem_of_mem_eraseDupsBy h) hself
      rw [Option.none_or, List.find?_singleton]
      by_cases hac : a = c
      · subst hac
        have hnone : ¬ (as.eraseDupsBy r).any (r a) := by
          rw [List.any_eq_true]
          exact fun ⟨b, hb, hab⟩ => hfind b (mem_of_mem_eraseDupsBy hb) hab
        simp [hnone, hself]
      · have hmem : a ∉ as.eraseDupsBy r ++ [c] := by simp [hkept, hac]
        have hother : ¬ (if r a c = true then some c else none) = some a := by
          split <;> simp [Ne.symm hac]
        split <;> simp only [hkept, hmem, hother]

end Firsts

/-! ## Keys -/

namespace Member

variable {a b : Member} {memberKey : MemberKey}

/-- Fields and enum constants share their key when they have the same name, methods when they also
have the same erased parameter types. -/
def sharesKey (a b : Member) : Bool :=
  match a.kind, b.kind with
  | .constructor, _ | _, .constructor => false
  | .method, .method => a.name == b.name && a.erasedParams == b.erasedParams
  | .method, _ | _, .method => false
  | _, _ => a.name == b.name

theorem sharesKey_of_key?_none (h : a.key? = none) : a.sharesKey b = false := by
  unfold MemberDecl.key? at h
  unfold sharesKey
  cases hkind : a.kind <;> simp [hkind] at h ⊢

theorem sharesKey_of_key?_some (h : a.key? = some memberKey) :
    a.sharesKey b = (b.key? == some memberKey) := by
  unfold MemberDecl.key? at h ⊢
  unfold sharesKey
  cases ha : a.kind <;> cases hb : b.kind <;> simp [ha] at h ⊢ <;> subst h <;> grind

theorem key?_eq_none_iff : a.key? = none ↔ a.kind = .constructor := by
  unfold MemberDecl.key?
  cases a.kind <;> simp

theorem kind_ne_of_key? (h : a.key? = some memberKey) : a.kind ≠ .constructor := by
  rw [Ne, ← key?_eq_none_iff, h]
  exact Option.some_ne_none memberKey

theorem sharesKey_comm : a.sharesKey b = b.sharesKey a := by
  unfold sharesKey
  cases a.kind <;> cases b.kind <;> simp [Bool.beq_comm]

theorem sharesKey_self (h : a.kind ≠ .constructor) : a.sharesKey a := by
  unfold sharesKey
  cases hkind : a.kind <;> simp [hkind] at h ⊢

theorem sharesKey_iff : a.sharesKey b = true ↔ ∃ k, a.key? = some k ∧ b.key? = some k := by
  cases hkey : a.key? with
  | none => simp [sharesKey_of_key?_none hkey]
  | some k => simp [sharesKey_of_key?_some hkey]

theorem sharesKey_trans (a b c : Member) (hab : a.sharesKey b = true) (hbc : b.sharesKey c = true) :
    a.sharesKey c = true := by
  obtain ⟨k, ha, hb⟩ := sharesKey_iff.1 hab
  obtain ⟨k', hb', hc⟩ := sharesKey_iff.1 hbc
  cases hb.symm.trans hb'
  exact sharesKey_iff.2 ⟨k, ha, hc⟩

theorem sharesKey_of_isMethod (ha : a.isMethod = true) (hb : b.isMethod = true) :
    a.sharesKey b = (a.name == b.name && a.erasedParams == b.erasedParams) := by
  have ha' : a.kind = .method := eq_of_beq ha
  have hb' : b.kind = .method := eq_of_beq hb
  rw [sharesKey, ha', hb']

theorem sharesKey_of_isField (ha : a.isField = true) (hb : b.isField = true) :
    a.sharesKey b = (a.name == b.name) := by
  have ha' : a.kind = .field := eq_of_beq ha
  have hb' : b.kind = .field := eq_of_beq hb
  rw [sharesKey, ha', hb']

theorem isField_of_isMethod (h : a.isMethod = true) : a.isField = false := by
  have hkind : a.kind = .method := eq_of_beq h
  simp [MemberDecl.isField, hkind]

end Member

namespace MemberWalk

variable {index : SymbolIndex} {walk : MemberWalk} {type n : QualifiedName} {isOwn : Bool}
  {earlier : List Member}

/-- Offering one member more. -/
theorem kept_offer (h : walk.kept = earlier.eraseDupsBy Member.sharesKey) (m : Member) :
    (offer isOwn walk m).kept =
      (earlier ++ [m].filter fun m => isOwn || m.kind != .constructor).eraseDupsBy
        Member.sharesKey := by
  unfold offer
  split
  · rename_i hnone
    have hkind := Member.key?_eq_none_iff.1 hnone
    cases isOwn with
    | false => simp [hkind, h]
    | true =>
      have hnever : ¬ (earlier.eraseDupsBy Member.sharesKey).any m.sharesKey := by
        simp [Member.sharesKey_of_key?_none hnone]
      rw [List.filter_cons_of_pos rfl, List.filter_nil, eraseDupsBy_concat, if_neg hnever, ← h]
      rfl
  · rename_i memberKey hsome
    have hkind : m.kind ≠ .constructor := Member.kind_ne_of_key? hsome
    have hany : walk.kept.any (·.key? == some memberKey) =
        (earlier.eraseDupsBy Member.sharesKey).any m.sharesKey := by
      rw [h]
      congr 1
      funext b
      exact (Member.sharesKey_of_key?_some hsome).symm
    rw [List.filter_cons_of_pos (by simp [hkind]), List.filter_nil, eraseDupsBy_concat, hany]
    split
    · exact h
    · rw [← h]
      rfl

theorem kept_foldl_offer (h : walk.kept = earlier.eraseDupsBy Member.sharesKey) (ms : List Member) :
    (ms.foldl (offer isOwn) walk).kept =
      (earlier ++ ms.filter fun m => isOwn || m.kind != .constructor).eraseDupsBy
        Member.sharesKey := by
  induction ms generalizing walk earlier with
  | nil => rw [List.filter_nil, List.append_nil, ← h, List.foldl_nil]
  | cons m ms ih =>
    rw [List.foldl_cons, ih (kept_offer h m), List.append_assoc, ← List.filter_append,
      List.singleton_append]

end MemberWalk

namespace SymbolIndex

variable {index : SymbolIndex} {type n : QualifiedName}

/-- What a type of the lineage offers to `type`: constructors only if it is `type` itself. -/
def offered (index : SymbolIndex) (type n : QualifiedName) : List Member :=
  (index.membersOf n).filter fun m => n == type || m.kind != .constructor

theorem owner_of_mem_membersOf {m : Member} (h : m ∈ index.membersOf n) : m.owner = n := by
  unfold membersOf at h
  split at h
  · cases h
  · rename_i decl hfind
    obtain ⟨_, -, rfl⟩ := List.mem_map.1 h
    have hname : decl.name = n := Registry.key_of_find? hfind
    exact hname

end SymbolIndex

namespace MemberWalk

variable {index : SymbolIndex} {walk : MemberWalk} {type n : QualifiedName} {decl : TypeDecl}

/-- The walk when the type itself has been visited. -/
def start (decl : TypeDecl) (type : QualifiedName) : MemberWalk :=
  decl.ownMembers.foldl (offer true) { reached := [type] }

theorem reached_start : (start decl type).reached = [type] :=
  reached_foldl_offer ..

theorem kept_start : (start decl type).kept = decl.ownMembers.eraseDupsBy Member.sharesKey := by
  have hnone : ({ reached := [type] } : MemberWalk).kept = [].eraseDupsBy Member.sharesKey := rfl
  rw [start, kept_foldl_offer hnone]
  simp

theorem closed_start : index.Closed [type] (start decl type).reached := by
  rw [reached_start]
  exact fun _ htype hfree => absurd htype hfree

theorem covers_of_start (h : Rises index decl.supertypes (start decl type) walk) :
    Covers index (decl.supertypes.flatMap (index.climb [type])) (start decl type) walk := by
  apply h.covers
  · rw [reached_start]
    exact fun _ => id
  · exact closed_start

namespace Collects

theorem kept_eq (h : Collects index type walk) :
    walk.kept = ((index.lineage type).flatMap (index.offered type)).eraseDupsBy
      Member.sharesKey := by
  cases h with
  | undeclared hfind =>
    rw [SymbolIndex.lineage_of_none hfind]
    rfl
  | @declared decl _ hfind hrises =>
    have hown : index.offered type type = decl.ownMembers := by
      simp [SymbolIndex.offered, SymbolIndex.membersOf, hfind]
    have habove (n : QualifiedName)
        (hn : n ∈ fresh [type] (decl.supertypes.flatMap (index.climb [type]))) :
        index.offered type n = (index.membersOf n).filter (·.kind != .constructor) := by
      have hne : n ≠ type := by simpa using (mem_fresh.1 hn).2
      have hbeq : (n == type) = false := by simpa using hne
      simp only [SymbolIndex.offered, hbeq, Bool.false_or]
    have hkept := (covers_of_start hrises).kept
    rw [reached_start, kept_foldl_offer kept_start] at hkept
    rw [hkept, SymbolIndex.lineage_of_some hfind, List.flatMap_cons, hown,
      List.flatMap_congr habove, List.filter_flatMap]
    rfl

/-- A walk that has come to its end has reached all supertypes of what it has reached. -/
theorem closed (h : Collects index type walk) : index.Closed [] walk.reached := by
  cases h with
  | undeclared hfind =>
    have hnone : index.Closed [] [] := fun _ htype => nomatch htype
    exact hnone.cons_of_none hfind
  | @declared decl _ hfind hrises =>
    intro type' htype' _ supertype hkey hext
    by_cases heq : type' = type
    · subst heq
      obtain ⟨decl', hfind', hmem⟩ := hext
      cases hfind.symm.trans hfind'
      exact hrises.names_subset supertype hmem
    · exact hrises.closed closed_start type' htype' (by simpa using heq) supertype hkey hext

theorem type_mem_reached (h : Collects index type walk) : type ∈ walk.reached := by
  cases h with
  | undeclared => exact List.mem_singleton_self type
  | declared _ hrises =>
    apply hrises.subset
    rw [reached_foldl_offer]
    exact List.mem_singleton_self type

theorem mem_reached_iff (h : Collects index type walk) (hn : n ∈ index.types.keys) :
    n ∈ walk.reached ↔ n ∈ index.lineage type := by
  cases h with
  | undeclared hfind =>
    have hne : n ≠ type := by
      rintro rfl
      exact Registry.find?_eq_none_iff.1 hfind hn
    simp [SymbolIndex.lineage_of_none hfind, hne]
  | @declared decl _ hfind hrises =>
    simp only [(covers_of_start hrises).reached n hn, reached_start,
      SymbolIndex.lineage_of_some hfind, List.mem_cons, mem_fresh, List.not_mem_nil]
    tauto

end Collects

/-- The walk comes to an end, and within as many levels as there are declared types. -/
theorem exists_collects (type : QualifiedName) {levels : Nat}
    (hlevels : index.types.size ≤ levels) :
    ∃ walk, Collects index type walk ∧
      (visit index levels true type { reached := [type] }).kept = walk.kept := by
  cases hfind : index.types.find? type with
  | none => exact ⟨_, .undeclared hfind, by rw [visit_of_none levels hfind]⟩
  | some decl =>
    have hle : (index.typesOutside (start decl type).reached).length ≤ levels :=
      calc (index.typesOutside (start decl type).reached).length
        _ ≤ index.types.keys.length := List.length_filter_le ..
        _ = index.types.size := List.length_map ..
        _ ≤ levels := hlevels
    obtain ⟨walk, hrises, hagree⟩ := exists_rises_above (.refl index (start decl type)) hle
    refine ⟨walk, .declared hfind hrises, ?_⟩
    rw [visit_of_some levels hfind]
    exact hagree.kept

end MemberWalk

namespace SymbolIndex

variable {index other : SymbolIndex} {type n : QualifiedName} {m : Member}
  {path : List QualifiedName}

theorem allMembers_eq (index : SymbolIndex) (type : QualifiedName) :
    index.allMembers type =
      ((index.lineage type).flatMap (index.offered type)).eraseDupsBy Member.sharesKey := by
  obtain ⟨walk, hcollects, hkept⟩ := MemberWalk.exists_collects type (Nat.le_refl index.types.size)
  rw [allMembers, hkept, hcollects.kept_eq]

theorem pairwise_allMembers (index : SymbolIndex) (type : QualifiedName) :
    (index.allMembers type).Pairwise fun a b => a.sharesKey b = false := by
  rw [allMembers_eq]
  refine pairwise_eraseDupsBy.imp fun h => ?_
  rwa [Member.sharesKey_comm]

theorem mem_lineage_iff : n ∈ index.lineage type ↔
    Relation.ReflTransGen index.Extends type n ∧ n ∈ index.types.keys := by
  constructor
  · intro h
    exact reaches_of_mem_climb (List.mem_eraseDups.1 h)
  · rintro ⟨hreach, hn⟩
    obtain ⟨walk, hcollects, -⟩ := MemberWalk.exists_collects type (Nat.le_refl index.types.size)
    rw [← hcollects.mem_reached_iff hn]
    exact hcollects.closed.mem_of_reaches hcollects.type_mem_reached hreach hn

theorem nodup_lineage (index : SymbolIndex) (type : QualifiedName) :
    (index.lineage type).Nodup := by
  rw [lineage, List.eraseDups]
  exact pairwise_eraseDupsBy.imp fun h => (beq_eq_false_iff_ne.1 h).symm

/-- The members of the type come first, and all that follow are inherited. -/
theorem exists_allMembers_eq (index : SymbolIndex) (type : QualifiedName) :
    ∃ inherited, index.allMembers type =
      (index.membersOf type).eraseDupsBy Member.sharesKey ++ inherited ∧
      ∀ m ∈ inherited, m.owner ≠ type := by
  rw [allMembers_eq]
  cases hfind : index.types.find? type with
  | none =>
    refine ⟨[], ?_, by simp⟩
    simp [lineage_of_none hfind, membersOf, hfind]
  | some decl =>
    have hown : index.offered type type = index.membersOf type := by simp [offered]
    rw [lineage_of_some hfind, List.flatMap_cons, hown]
    obtain ⟨inherited, heq, hmem⟩ := exists_eraseDupsBy_append Member.sharesKey
      (index.membersOf type) ((fresh [type] (decl.supertypes.flatMap (index.climb [type]))).flatMap
        (index.offered type))
    refine ⟨inherited, heq, fun m hm => ?_⟩
    obtain ⟨n, hn, hoffered⟩ := List.mem_flatMap.1 (hmem m hm)
    rw [owner_of_mem_membersOf (List.mem_of_mem_filter hoffered)]
    simpa using (mem_fresh.1 hn).2

/-- What a type above offers is represented by a member with its key. -/
theorem exists_mem_allMembers (hreach : Relation.ReflTransGen index.Extends type n)
    (hm : m ∈ index.membersOf n) (hkind : m.kind ≠ .constructor) :
    ∃ kept ∈ index.allMembers type, m.sharesKey kept := by
  have hkey : n ∈ index.types.keys := by
    cases hfind : index.types.find? n with
    | none => simp [membersOf, hfind] at hm
    | some decl => exact Registry.mem_keys_iff.2 ⟨decl, hfind⟩
  rw [allMembers_eq]
  apply exists_mem_eraseDupsBy
  · refine List.mem_flatMap.2 ⟨n, mem_lineage_iff.2 ⟨hreach, hkey⟩, List.mem_filter.2 ⟨hm, ?_⟩⟩
    simp [hkind]
  · exact Member.sharesKey_self hkind

/-- The ways up depend on the supertypes alone. -/
theorem climb_congr
    (h : ∀ n, Relation.ReflTransGen index.Extends type n →
      (other.types.find? n).map TypeDecl.supertypes =
        (index.types.find? n).map TypeDecl.supertypes) :
    other.climb path type = index.climb path type := by
  fun_induction climb index path type with
  | case1 path type hmem => exact climb_of_mem hmem
  | case2 path type _ hfind =>
    have hnone := h type .refl
    rw [hfind, Option.map_none, Option.map_eq_none_iff] at hnone
    exact climb_of_none hnone
  | case3 path type hfree decl hfind ih =>
    have hsome := h type .refl
    rw [hfind, Option.map_some, Option.map_eq_some_iff] at hsome
    obtain ⟨decl', hfind', hsupertypes⟩ := hsome
    rw [climb_of_some hfree hfind', hsupertypes]
    congr 1
    refine List.flatMap_congr fun supertype hmem => ?_
    exact ih supertype fun n hn => h n (.head ⟨decl, hfind, hmem⟩ hn)

/-- Types that are not above the type have no influence on its members. -/
theorem allMembers_congr (h : ∀ n, Relation.ReflTransGen index.Extends type n →
    other.types.find? n = index.types.find? n) : other.allMembers type = index.allMembers type := by
  rw [allMembers_eq, allMembers_eq, lineage, climb_congr fun n hn => by rw [h n hn], ← lineage]
  congr 1
  refine List.flatMap_congr fun n hn => ?_
  rw [offered, offered, membersOf, membersOf, h n (mem_lineage_iff.1 hn).1]

/-- The walk comes to an end, and the members it has kept then are those that the types of the
lineage offer, each key where it comes first. -/
theorem allMembers_enumerates (index : SymbolIndex) (type : QualifiedName) :
    (∃ walk, MemberWalk.Collects index type walk) ∧
    (∀ walk, MemberWalk.Collects index type walk → walk.kept = index.allMembers type) ∧
    index.allMembers type =
      ((index.lineage type).flatMap (index.offered type)).eraseDupsBy Member.sharesKey ∧
    (index.lineage type).Nodup ∧
    (∀ n, n ∈ index.lineage type ↔
      Relation.ReflTransGen index.Extends type n ∧ n ∈ index.types.keys) ∧
    (∃ inherited, index.allMembers type =
      (index.membersOf type).eraseDupsBy Member.sharesKey ++ inherited ∧
      ∀ m ∈ inherited, m.owner ≠ type) ∧
    ((index.allMembers type).Pairwise fun a b => a.sharesKey b = false) ∧
    (∀ n, Relation.ReflTransGen index.Extends type n → ∀ m ∈ index.membersOf n,
      m.kind ≠ .constructor → ∃ kept ∈ index.allMembers type, m.sharesKey kept) ∧
    ∀ other : SymbolIndex, (∀ n, Relation.ReflTransGen index.Extends type n →
        other.types.find? n = index.types.find? n) →
      other.allMembers type = index.allMembers type := by
  obtain ⟨walk, hcollects, -⟩ := MemberWalk.exists_collects type (Nat.le_refl index.types.size)
  refine ⟨⟨walk, hcollects⟩, fun walk hwalk => ?_, allMembers_eq index type,
    nodup_lineage index type, fun n => mem_lineage_iff, exists_allMembers_eq index type,
    pairwise_allMembers index type, fun n hreach m => exists_mem_allMembers hreach,
    fun other => allMembers_congr⟩
  rw [hwalk.kept_eq, allMembers_eq]

/-- A diamond with a cycle, a supertype that is named twice and one that is not declared. -/
example :
    let index : SymbolIndex := [
      { name := "A", supertypes := ["B", "C"],
        members := [⟨"x", .field, []⟩, ⟨"A", .constructor, []⟩] },
      { name := "B", supertypes := ["D", "A"],
        members := [⟨"m", .method, [.declared "T"]⟩, ⟨"B", .constructor, []⟩] },
      { name := "C", supertypes := ["D", "E", "D"],
        members := [⟨"x", .enumConstant, []⟩, ⟨"m", .method, [.parameterized "T" []]⟩] },
      { name := "D", supertypes := ["C"], members := [⟨"m", .method, []⟩] }].foldl addType {}
    (index.allMembers "A").map (fun m => (m.owner, m.name)) =
      [("A", "x"), ("A", "A"), ("B", "m"), ("D", "m")] := by
  decide

end SymbolIndex
end DocWeave
