import DocWeave.Proofs.Members.Enumeration

/-!
# Overriding

Types of one lineage may declare members with the same key: methods with the same name and erased
parameter types, or fields with the same name. Of these declarations the one of the first type in
the lineage is kept (`keeps_iff`). A lineage is depth first, and in it a type may stand before its
subtype: it does if a way up comes to it around the subtype (`Bypasses`). So a declaration that is
overridden is left out when no way up bypasses the type that overrides it, but not in every diamond.
-/

namespace DocWeave.SymbolIndex

variable {index : SymbolIndex} {type lower upper owner name : QualifiedName}
  {memberKey : MemberKey} {path seen : List QualifiedName}

/-- No type is above itself. -/
def Acyclic (index : SymbolIndex) : Prop :=
  ∀ type, ¬ Relation.TransGen index.Extends type type

/-- The type declares a member with the key. -/
def Declares (index : SymbolIndex) (memberKey : MemberKey) (type : QualifiedName) : Prop :=
  ∃ m ∈ index.membersOf type, m.key? = some memberKey

instance (index : SymbolIndex) (memberKey : MemberKey) : DecidablePred (index.Declares memberKey) :=
  fun type => inferInstanceAs (Decidable (∃ m ∈ index.membersOf type, m.key? = some memberKey))

/-- What `owner` declares under the key is among the members of `type`. -/
def Keeps (index : SymbolIndex) (type : QualifiedName) (memberKey : MemberKey)
    (owner : QualifiedName) : Prop :=
  ∃ m ∈ index.allMembers type, m.owner = owner ∧ m.key? = some memberKey

/-- A type above `type`, or `type` itself, overrides the declaration of `upper`. -/
def Overridden (index : SymbolIndex) (type : QualifiedName) (memberKey : MemberKey)
    (upper : QualifiedName) : Prop :=
  ∃ lower, Relation.ReflTransGen index.Extends type lower ∧
    Relation.TransGen index.Extends lower upper ∧ index.Declares memberKey lower

/-- The members of `type` hold no declaration that is overridden, and one for each key that is not
overridden. -/
structure OmitsOverridden (index : SymbolIndex) (type : QualifiedName) : Prop where
  omitted : ∀ memberKey upper, Relation.ReflTransGen index.Extends type upper →
    index.Declares memberKey upper → index.Overridden type memberKey upper →
    ¬ index.Keeps type memberKey upper
  kept : ∀ memberKey upper, Relation.ReflTransGen index.Extends type upper →
    index.Declares memberKey upper →
    ∃ owner, index.Keeps type memberKey owner ∧ ¬ index.Overridden type memberKey owner

/-- A way up from `type` comes to `upper` without coming to `lower`. -/
def Bypasses (index : SymbolIndex) (type lower upper : QualifiedName) : Prop :=
  type ≠ lower ∧
    Relation.ReflTransGen (fun n above => index.Extends n above ∧ above ≠ lower) type upper

/-! ## The first declaration -/

/-- A declaration with a key is offered to every type. -/
theorem mem_offered_of_key? {m : Member} (hm : m ∈ index.membersOf name)
    (hkey : m.key? = some memberKey) : m ∈ index.offered type name :=
  List.mem_filter.2 ⟨hm, by simp [Member.kind_ne_of_key? hkey]⟩

theorem find?_of_keeps (h : index.Keeps type memberKey owner) :
    (index.lineage type).find? (index.Declares memberKey ·) = some owner := by
  obtain ⟨m, hm, rfl, hkey⟩ := h
  rw [allMembers_eq, mem_eraseDupsBy_iff (fun _ _ => Member.sharesKey_comm) Member.sharesKey_trans
    (Member.sharesKey_self (Member.kind_ne_of_key? hkey)), List.find?_flatMap,
    List.findSome?_eq_some_iff] at hm
  obtain ⟨before, n, after, hlineage, hfind, hbefore⟩ := hm
  have hmem := List.mem_of_mem_filter (List.mem_of_find?_eq_some hfind)
  have howner : m.owner = n := owner_of_mem_membersOf hmem
  rw [hlineage, howner, List.find?_eq_some_iff_append]
  refine ⟨by simpa using ⟨m, hmem, hkey⟩, before, after, rfl, fun x hx => ?_⟩
  have hnone := hbefore x hx
  rw [List.find?_eq_none] at hnone
  simp only [Bool.not_eq_true', decide_eq_false_iff_not]
  rintro ⟨m', hm', hkey'⟩
  refine hnone m' (mem_offered_of_key? hm' hkey') ?_
  rw [Member.sharesKey_of_key?_some hkey, hkey']
  exact beq_self_eq_true _

theorem exists_keeps (hreach : Relation.ReflTransGen index.Extends type upper)
    (h : index.Declares memberKey upper) : ∃ owner, index.Keeps type memberKey owner := by
  obtain ⟨m, hm, hkey⟩ := h
  obtain ⟨kept, hkept, hshares⟩ := exists_mem_allMembers hreach hm (Member.kind_ne_of_key? hkey)
  rw [Member.sharesKey_of_key?_some hkey] at hshares
  exact ⟨kept.owner, kept, hkept, rfl, eq_of_beq hshares⟩

/-- Of the declarations under a key the first one in the lineage is kept. -/
theorem keeps_iff : index.Keeps type memberKey owner ↔
    (index.lineage type).find? (index.Declares memberKey ·) = some owner := by
  refine ⟨find?_of_keeps, fun hfirst => ?_⟩
  have hdeclares : index.Declares memberKey owner := by simpa using List.find?_some hfirst
  have hreach := (mem_lineage_iff.1 (List.mem_of_find?_eq_some hfirst)).1
  obtain ⟨owner', hkeeps⟩ := exists_keeps hreach hdeclares
  cases hfirst.symm.trans (find?_of_keeps hkeeps)
  exact hkeeps

/-! ## Ways up -/

/-- Every name of the list but `type` stands behind a type that extends it. -/
inductive Grown (index : SymbolIndex) (type : QualifiedName) : List QualifiedName → Prop where
  | nil : Grown index type []
  | concat {names : List QualifiedName} {name : QualifiedName} : Grown index type names →
    (name = type ∨ ∃ n ∈ names, index.Extends n name) → Grown index type (names ++ [name])

theorem Grown.append_climb {names : List QualifiedName} (h : index.Grown type names)
    (hname : name = type ∨ ∃ n ∈ names, index.Extends n name) :
    index.Grown type (names ++ index.climb path name) := by
  fun_induction climb index path name generalizing names with
  | case1 => simpa using h
  | case2 => simpa using h
  | case3 path name _ decl hfound ih =>
    have hsupers : ∀ supers : List QualifiedName, (∀ s ∈ supers, s ∈ decl.supertypes) →
        ∀ names, index.Grown type names → name ∈ names →
          index.Grown type (names ++ supers.flatMap (index.climb (name :: path))) := by
      intro supers
      induction supers with
      | nil => intro _ names hgrown _; simpa using hgrown
      | cons s supers ihsupers =>
        intro hsub names hgrown hmem
        rw [List.forall_mem_cons] at hsub
        rw [List.flatMap_cons, ← List.append_assoc]
        exact ihsupers hsub.2 _ (ih s hgrown (.inr ⟨name, hmem, decl, hfound, hsub.1⟩))
          (List.mem_append_left _ hmem)
    rw [List.append_cons]
    exact hsupers decl.supertypes (fun _ => id) _ (h.concat hname) (by simp)

theorem Grown.eraseDups {names : List QualifiedName} (h : index.Grown type names) :
    index.Grown type names.eraseDups := by
  induction h with
  | nil => exact .nil
  | @concat names name _ hname ih =>
    rw [List.eraseDups, eraseDupsBy_concat]
    split
    · exact ih
    · refine ih.concat (hname.imp_right ?_)
      rintro ⟨n, hn, hext⟩
      exact ⟨n, List.mem_eraseDups.2 hn, hext⟩

theorem grown_lineage (index : SymbolIndex) (type : QualifiedName) :
    index.Grown type (index.lineage type) := by
  have hclimb : index.Grown type ([] ++ index.climb [] type) := Grown.nil.append_climb (.inl rfl)
  exact hclimb.eraseDups

/-- Where `lower` does not stand, all names are reached around it. -/
theorem Grown.bypasses {names : List QualifiedName} (h : index.Grown type names)
    (hlower : lower ∉ names) (hmem : upper ∈ names) : index.Bypasses type lower upper := by
  induction h generalizing upper with
  | nil => cases hmem
  | @concat names name hnames hname ih =>
    simp only [List.mem_append, List.mem_singleton, not_or] at hlower hmem
    rcases hmem with hmem | rfl
    · exact ih hlower.1 hmem
    · rcases hname with rfl | ⟨n, hn, hext⟩
      · exact ⟨Ne.symm hlower.2, .refl⟩
      · obtain ⟨htype, hway⟩ := ih hlower.1 hn
        exact ⟨htype, hway.tail ⟨hext, Ne.symm hlower.2⟩⟩

theorem Grown.of_concat {names : List QualifiedName} (h : index.Grown type (names ++ [name])) :
    index.Grown type names := by
  generalize heq : names ++ [name] = all at h
  cases h with
  | nil => simp at heq
  | concat h _ =>
    obtain ⟨rfl, -⟩ := List.append_inj' heq rfl
    exact h

theorem Grown.of_append {before after : List QualifiedName}
    (h : index.Grown type (before ++ after)) : index.Grown type before := by
  induction after using List.reverseRecOn with
  | nil => simpa using h
  | append_singleton after n ih =>
    rw [← List.append_assoc] at h
    exact ih h.of_concat

/-- A type that is not bypassed stands before all types above it. -/
theorem mem_of_lineage_eq {before after : List QualifiedName}
    (hlineage : index.lineage type = before ++ upper :: after) (hne : lower ≠ upper)
    (hway : ¬ index.Bypasses type lower upper) : lower ∈ before := by
  by_contra hlower
  have hgrown := grown_lineage index type
  rw [hlineage, List.append_cons] at hgrown
  exact hway (hgrown.of_append.bypasses (by simp [hlower, hne]) (by simp))

theorem not_keeps_of_not_bypasses (hdeclares : index.Declares memberKey lower)
    (hne : lower ≠ upper) (hway : ¬ index.Bypasses type lower upper) :
    ¬ index.Keeps type memberKey upper := by
  rw [keeps_iff, List.find?_eq_some_iff_append]
  rintro ⟨-, before, after, hlineage, hbefore⟩
  have hnone := hbefore lower (mem_of_lineage_eq hlineage hne hway)
  simp [hdeclares] at hnone

/-- If no two types of the closure extend the same type, there is one way up to each, and it
bypasses nothing below it. -/
theorem not_bypasses_of_single (hacyclic : index.Acyclic)
    (hsingle : ∀ n a b, Relation.ReflTransGen index.Extends type a →
      Relation.ReflTransGen index.Extends type b → index.Extends a n → index.Extends b n → a = b)
    (hreach : Relation.ReflTransGen index.Extends type lower)
    (habove : Relation.TransGen index.Extends lower upper) :
    ¬ index.Bypasses type lower upper := by
  have hlast : ∀ {n upper}, Relation.ReflTransGen index.Extends lower n → index.Extends n upper →
      index.Bypasses type lower upper → index.Bypasses type lower n := by
    rintro n upper hn hext ⟨htype, hway⟩
    rcases hway.cases_tail with rfl | ⟨n', hway', hext', -⟩
    · exact absurd (.tail' (hreach.trans hn) hext) (hacyclic _)
    · have hreach' : Relation.ReflTransGen index.Extends type n' :=
        Relation.ReflTransGen.mono (fun _ _ h => h.1) _ _ hway'
      cases hsingle upper n n' (hreach.trans hn) hreach' hext hext'
      exact ⟨htype, hway'⟩
  induction habove with
  | single hext =>
    intro hby
    obtain ⟨htype, hway⟩ := hlast .refl hext hby
    rcases hway.cases_tail with h | ⟨_, _, _, hne⟩
    · exact htype h.symm
    · exact hne rfl
  | tail habove hext ih => exact fun hby => ih (hlast habove.to_reflTransGen hext hby)

/-! ## What is overridden -/

theorem omitsOverridden_iff : index.OmitsOverridden type ↔
    ∀ memberKey owner, (index.lineage type).find? (index.Declares memberKey ·) = some owner →
      ¬ index.Overridden type memberKey owner := by
  constructor
  · intro h memberKey owner hfirst hover
    have hdeclares : index.Declares memberKey owner := by simpa using List.find?_some hfirst
    have hreach := (mem_lineage_iff.1 (List.mem_of_find?_eq_some hfirst)).1
    exact h.omitted memberKey owner hreach hdeclares hover (keeps_iff.2 hfirst)
  · intro h
    refine ⟨fun memberKey upper _ _ hover hkeeps => ?_, fun memberKey upper hreach hdeclares => ?_⟩
    · exact h memberKey upper (keeps_iff.1 hkeeps) hover
    · obtain ⟨owner, hkeeps⟩ := exists_keeps hreach hdeclares
      exact ⟨owner, hkeeps, h memberKey owner (keeps_iff.1 hkeeps)⟩

/-- Of the declarations under a key a type keeps the first one of its lineage. Those that are
overridden are left out exactly when this first one is never overridden itself. A declaration is
left out if no way up bypasses a type that overrides it; and where there is one way up to each type
of the closure only, as in chains and trees, all that are overridden are left out. -/
theorem omits_overridden_unless_bypassed (index : SymbolIndex) (type : QualifiedName) :
    (∀ memberKey owner, index.Keeps type memberKey owner ↔
      (index.lineage type).find? (index.Declares memberKey ·) = some owner) ∧
    (index.OmitsOverridden type ↔
      ∀ memberKey owner, (index.lineage type).find? (index.Declares memberKey ·) = some owner →
        ¬ index.Overridden type memberKey owner) ∧
    (index.Acyclic → ∀ memberKey lower upper, Relation.ReflTransGen index.Extends type lower →
      Relation.TransGen index.Extends lower upper → index.Declares memberKey lower →
      index.Declares memberKey upper → ¬ index.Bypasses type lower upper →
      ¬ index.Keeps type memberKey upper) ∧
    (index.Acyclic →
      (∀ n a b, Relation.ReflTransGen index.Extends type a →
        Relation.ReflTransGen index.Extends type b → index.Extends a n → index.Extends b n →
        a = b) →
      index.OmitsOverridden type) := by
  have hne : index.Acyclic → ∀ {lower upper : QualifiedName},
      Relation.TransGen index.Extends lower upper → lower ≠ upper := by
    rintro hacyclic lower _ habove rfl
    exact hacyclic lower habove
  refine ⟨fun _ _ => keeps_iff, omitsOverridden_iff, fun hacyclic memberKey lower upper _ habove
    hlower _ hway => not_keeps_of_not_bypasses hlower (hne hacyclic habove) hway,
    fun hacyclic hsingle => omitsOverridden_iff.2 ?_⟩
  rintro memberKey owner hfirst ⟨lower, hreach, habove, hlower⟩
  exact not_keeps_of_not_bypasses hlower (hne hacyclic habove)
    (not_bypasses_of_single hacyclic hsingle hreach habove) (keeps_iff.2 hfirst)

/-! ## Diamonds -/

/-- Types that rank above all their supertypes form no circle. -/
theorem acyclic_of_rank (rank : QualifiedName → Nat)
    (hrank : ∀ decl ∈ index.types.entries, ∀ supertype ∈ decl.supertypes,
      rank supertype < rank decl.name) : index.Acyclic := by
  have hbelow : ∀ {a b}, Relation.TransGen index.Extends a b → rank b < rank a := by
    intro a b hab
    induction hab with
    | single hext =>
      obtain ⟨decl, hfind, hmem⟩ := hext
      have hlt := hrank decl (List.mem_of_find?_eq_some hfind) _ hmem
      rwa [Registry.key_of_find? hfind] at hlt
    | tail _ hext ih =>
      obtain ⟨decl, hfind, hmem⟩ := hext
      have hlt := hrank decl (List.mem_of_find?_eq_some hfind) _ hmem
      rw [Registry.key_of_find? hfind] at hlt
      exact Nat.lt_trans hlt ih
  exact fun type habove => Nat.lt_irrefl _ (hbelow habove)

/-- A type whose first supertype inherits what its second one overrides. -/
def diamond : SymbolIndex := [
  { name := "Root", members := [{ name := "m", kind := .method }] },
  { name := "Left", supertypes := ["Root"] },
  { name := "Right", supertypes := ["Root"], members := [{ name := "m", kind := .method }] },
  { name := "Leaf", supertypes := ["Left", "Right"] }].foldl addType {}

/-- The overridden declaration is kept in the diamond, and the one that overrides it is not. -/
theorem not_omitsOverridden_diamond :
    diamond.Acyclic ∧ diamond.Overridden "Leaf" (.call "m" []) "Root" ∧
      diamond.Keeps "Leaf" (.call "m" []) "Root" ∧ ¬ diamond.Keeps "Leaf" (.call "m" []) "Right" ∧
      ¬ diamond.OmitsOverridden "Leaf" := by
  have hlineage : diamond.lineage "Leaf" = ["Leaf", "Left", "Root", "Right"] := by cbv
  have hfirst : (diamond.lineage "Leaf").find? (diamond.Declares (.call "m" []) ·) =
      some "Root" := by
    rw [hlineage]
    decide
  have hover : diamond.Overridden "Leaf" (.call "m" []) "Root" :=
    ⟨"Right", .single ⟨_, rfl, by decide⟩, .single ⟨_, rfl, by decide⟩, by decide⟩
  refine ⟨acyclic_of_rank diamond.types.keys.idxOf (by decide), hover, keeps_iff.2 hfirst, ?_, ?_⟩
  · rw [keeps_iff, hfirst]
    decide
  · exact fun h => omitsOverridden_iff.1 h _ _ hfirst hover

/-- The diamond with a further type below it that overrides the method. -/
def closedDiamond : SymbolIndex := [
  { name := "Root", members := [{ name := "m", kind := .method }] },
  { name := "Left", supertypes := ["Root"] },
  { name := "Right", supertypes := ["Root"], members := [{ name := "m", kind := .method }] },
  { name := "Joint", supertypes := ["Left", "Right"],
    members := [{ name := "m", kind := .method }] },
  { name := "Leaf", supertypes := ["Joint"] }].foldl addType {}

theorem not_bypasses_closedDiamond : ¬ closedDiamond.Bypasses "Leaf" "Joint" "Root" := by
  rintro ⟨-, hway⟩
  have hstays : ∀ n, Relation.ReflTransGen
      (fun n above => closedDiamond.Extends n above ∧ above ≠ "Joint") "Leaf" n → n = "Leaf" := by
    intro n hn
    induction hn with
    | refl => rfl
    | tail _ hstep ih =>
      subst ih
      obtain ⟨⟨decl, hfind, hmem⟩, hne⟩ := hstep
      have hleaf : closedDiamond.types.find? "Leaf" =
          some { name := "Leaf", supertypes := ["Joint"] } := rfl
      cases hleaf.symm.trans hfind
      exact absurd (List.mem_singleton.1 hmem) hne
  exact absurd (hstays "Root" hway) (by decide)

theorem omits_overridden_unless_bypassed_closedDiamond :
    closedDiamond.Acyclic ∧ Relation.ReflTransGen closedDiamond.Extends "Leaf" "Joint" ∧
      Relation.TransGen closedDiamond.Extends "Joint" "Root" ∧
      closedDiamond.Declares (.call "m" []) "Joint" ∧
      closedDiamond.Declares (.call "m" []) "Root" ∧
      ¬ closedDiamond.Bypasses "Leaf" "Joint" "Root" ∧
      ¬ closedDiamond.Keeps "Leaf" (.call "m" []) "Root" := by
  have hacyclic : closedDiamond.Acyclic :=
    acyclic_of_rank closedDiamond.types.keys.idxOf (by decide)
  have hreach : Relation.ReflTransGen closedDiamond.Extends "Leaf" "Joint" :=
    .single ⟨_, rfl, by decide⟩
  have habove : Relation.TransGen closedDiamond.Extends "Joint" "Root" :=
    .tail (b := "Left") (.single ⟨_, rfl, by decide⟩) ⟨_, rfl, by decide⟩
  have hjoint : closedDiamond.Declares (.call "m" []) "Joint" := by decide
  have hroot : closedDiamond.Declares (.call "m" []) "Root" := by decide
  obtain ⟨-, -, homits, -⟩ := omits_overridden_unless_bypassed closedDiamond "Leaf"
  exact ⟨hacyclic, hreach, habove, hjoint, hroot, not_bypasses_closedDiamond,
    homits hacyclic _ _ _ hreach habove hjoint hroot not_bypasses_closedDiamond⟩

end DocWeave.SymbolIndex
