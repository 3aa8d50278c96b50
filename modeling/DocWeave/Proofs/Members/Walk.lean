import DocWeave.Proofs.Members.Lineage

/-!
# The walk over the supertypes

`Rises index names walk walk'` says that a walk that goes up to the names, one after the other, ends
in `walk'`. It has no bound on how far up it goes, so a walk that rises is one that comes to an end.
`MemberWalk.visit` does the same within a number of levels (`exists_rises_above`); there are enough
of them, because the declared types that have not been reached run out first. What has been reached
is `Closed`, and so the walk comes to the fresh types of the lineages of the names, in their order
(`Rises.covers`).
-/

namespace DocWeave

variable {index : SymbolIndex} {walk walk' : MemberWalk} {name n : QualifiedName}
  {names : List QualifiedName} {isOwn : Bool} {ms : List Member}

/-- The members that a declared type declares. -/
def SymbolIndex.membersOf (index : SymbolIndex) (type : QualifiedName) : List Member :=
  match index.types.find? type with
  | none => []
  | some decl => decl.ownMembers

namespace MemberWalk

/-- The walk with one more name reached. -/
def mark (walk : MemberWalk) (name : QualifiedName) : MemberWalk :=
  { walk with reached := name :: walk.reached }

/-- Going up to the names in order, each one that was not reached before together with what lies
above it. -/
inductive Rises (index : SymbolIndex) : List QualifiedName → MemberWalk → MemberWalk → Prop where
  | done (walk : MemberWalk) : Rises index [] walk walk
  | reached {name : QualifiedName} {names : List QualifiedName} {walk walk' : MemberWalk} :
    name ∈ walk.reached → Rises index names walk walk' → Rises index (name :: names) walk walk'
  | undeclared {name : QualifiedName} {names : List QualifiedName} {walk walk' : MemberWalk} :
    name ∉ walk.reached → index.types.find? name = none → Rises index names (walk.mark name) walk' →
    Rises index (name :: names) walk walk'
  | declared {name : QualifiedName} {decl : TypeDecl} {names : List QualifiedName}
      {walk upper walk' : MemberWalk} :
    name ∉ walk.reached → index.types.find? name = some decl →
    Rises index decl.supertypes (decl.ownMembers.foldl (offer false) (walk.mark name)) upper →
    Rises index names upper walk' → Rises index (name :: names) walk walk'

/-- The walk that starts at `type` ends in `walk`. -/
inductive Collects (index : SymbolIndex) (type : QualifiedName) : MemberWalk → Prop where
  | undeclared : index.types.find? type = none → Collects index type { reached := [type] }
  | declared {decl : TypeDecl} {walk : MemberWalk} : index.types.find? type = some decl →
    Rises index decl.supertypes (decl.ownMembers.foldl (offer true) { reached := [type] }) walk →
    Collects index type walk

/-! ## Offering members -/

theorem reached_offer (isOwn : Bool) (walk : MemberWalk) (m : Member) :
    (offer isOwn walk m).reached = walk.reached := by
  unfold offer
  split
  · split <;> rfl
  · split <;> rfl

theorem reached_foldl_offer (isOwn : Bool) (walk : MemberWalk) (ms : List Member) :
    (ms.foldl (offer isOwn) walk).reached = walk.reached := by
  induction ms generalizing walk with
  | nil => rfl
  | cons m ms ih => rw [List.foldl_cons, ih, reached_offer]

theorem kept_offer_congr (h : walk.kept = walk'.kept) (m : Member) :
    (offer isOwn walk m).kept = (offer isOwn walk' m).kept := by
  unfold offer
  split
  · split
    · simp [keep, h]
    · exact h
  · rw [h]
    split
    · exact h
    · simp [keep, h]

/-- What is kept of the offered members does not depend on what was reached. -/
theorem kept_foldl_offer_congr (h : walk.kept = walk'.kept) (ms : List Member) :
    (ms.foldl (offer isOwn) walk).kept = (ms.foldl (offer isOwn) walk').kept := by
  induction ms generalizing walk walk' with
  | nil => exact h
  | cons m ms ih => exact ih (kept_offer_congr h m)

theorem kept_foldl_offer_mark (isOwn : Bool) (walk : MemberWalk) (name : QualifiedName)
    (ms : List Member) :
    (ms.foldl (offer isOwn) (walk.mark name)).kept = (ms.foldl (offer isOwn) walk).kept := by
  have hkept : (walk.mark name).kept = walk.kept := rfl
  exact kept_foldl_offer_congr hkept ms

/-! ## Enough levels -/

/-- The same members are kept and the same declared types reached. -/
structure Agrees (index : SymbolIndex) (walk walk' : MemberWalk) : Prop where
  kept : walk.kept = walk'.kept
  reached : ∀ n ∈ index.types.keys, n ∈ walk.reached ↔ n ∈ walk'.reached

/-- One step of the walk within `levels`. -/
def goUp (index : SymbolIndex) (levels : Nat) (walk : MemberWalk) (name : QualifiedName) :
    MemberWalk :=
  if walk.reached.contains name then walk else visit index levels false name (walk.mark name)

/-- The names above a type that is visited within `levels`. -/
def above (index : SymbolIndex) (levels : Nat) (names : List QualifiedName) (walk : MemberWalk) :
    MemberWalk :=
  match levels with
  | 0 => walk
  | levels + 1 => names.foldl (goUp index levels) walk

theorem visit_of_none (levels : Nat) (h : index.types.find? name = none) :
    visit index levels isOwn name walk = walk := by
  rw [visit.eq_def, h]

theorem visit_of_some {decl : TypeDecl} (levels : Nat) (h : index.types.find? name = some decl) :
    visit index levels isOwn name walk =
      above index levels decl.supertypes (decl.ownMembers.foldl (offer isOwn) walk) := by
  rw [visit.eq_def, h]
  cases levels <;> rfl

theorem goUp_of_mem (levels : Nat) (h : name ∈ walk.reached) :
    goUp index levels walk name = walk :=
  if_pos (by simpa using h)

theorem goUp_of_some {decl : TypeDecl} (levels : Nat) (hnew : name ∉ walk.reached)
    (h : index.types.find? name = some decl) :
    goUp index levels walk name = above index levels decl.supertypes
      (decl.ownMembers.foldl (offer false) (walk.mark name)) := by
  rw [goUp, if_neg (by simpa using hnew), visit_of_some levels h]

theorem Rises.subset (h : Rises index names walk walk') :
    ∀ n ∈ walk.reached, n ∈ walk'.reached := by
  induction h with
  | done => exact fun _ hn => hn
  | reached _ _ ih => exact ih
  | undeclared _ _ _ ih => exact fun n hn => ih n (List.mem_cons_of_mem _ hn)
  | declared _ _ _ _ ihup ih =>
    intro n hn
    refine ih n (ihup n ?_)
    rw [reached_foldl_offer]
    exact List.mem_cons_of_mem _ hn

namespace Agrees

variable {walk₂ : MemberWalk}

/-- A name that is not declared makes no difference. -/
theorem mark_right (h : Agrees index walk walk₂) (hname : index.types.find? name = none) :
    Agrees index walk (walk₂.mark name) where
  kept := h.kept
  reached n hn := by
    have hne : n ≠ name := by
      rintro rfl
      exact Registry.find?_eq_none_iff.1 hname hn
    rw [h.reached n hn, mark, List.mem_cons, or_iff_right hne]

theorem refl (index : SymbolIndex) (walk : MemberWalk) : Agrees index walk walk :=
  ⟨rfl, fun _ _ => Iff.rfl⟩

theorem symm (h : Agrees index walk walk₂) : Agrees index walk₂ walk :=
  ⟨h.kept.symm, fun n hn => (h.reached n hn).symm⟩

theorem trans (h : Agrees index walk walk₂) (h' : Agrees index walk₂ walk') :
    Agrees index walk walk' :=
  ⟨h.kept.trans h'.kept, fun n hn => (h.reached n hn).trans (h'.reached n hn)⟩

theorem offered (h : Agrees index walk walk₂) (name : QualifiedName) (ms : List Member)
    (isOwn : Bool) :
    Agrees index (ms.foldl (offer isOwn) (walk.mark name))
      (ms.foldl (offer isOwn) (walk₂.mark name)) where
  kept := by
    have hkept : (walk.mark name).kept = (walk₂.mark name).kept := h.kept
    exact kept_foldl_offer_congr hkept ms
  reached n hn := by
    rw [reached_foldl_offer, reached_foldl_offer, mark, mark, List.mem_cons, List.mem_cons,
      h.reached n hn]

/-- Going up to a name that is not declared leads to no other walk. -/
theorem exists_rises_cons {P : MemberWalk → Prop} (h : Agrees index walk walk₂)
    (hname : index.types.find? name = none)
    (hrest : ∀ walk₂, Agrees index walk walk₂ → ∃ walk', Rises index names walk₂ walk' ∧ P walk') :
    ∃ walk', Rises index (name :: names) walk₂ walk' ∧ P walk' := by
  by_cases hmem : name ∈ walk₂.reached
  · obtain ⟨walk', hrises, hp⟩ := hrest walk₂ h
    exact ⟨walk', .reached hmem hrises, hp⟩
  · obtain ⟨walk', hrises, hp⟩ := hrest _ (h.mark_right hname)
    exact ⟨walk', .undeclared hmem hname hrises, hp⟩

theorem goUp_of_none (levels : Nat) (h : index.types.find? name = none) :
    Agrees index walk (goUp index levels walk name) := by
  unfold goUp
  split
  · exact .refl index walk
  · rw [visit_of_none levels h]
    exact (Agrees.refl index walk).mark_right h

end Agrees

/-- Nothing is kept any more when all declared types are reached. -/
theorem exists_rises_of_all_reached {walk₂ : MemberWalk} (hagree : Agrees index walk walk₂)
    (hall : ∀ n ∈ index.types.keys, n ∈ walk.reached) :
    ∃ walk', Rises index names walk₂ walk' ∧ Agrees index walk walk' := by
  induction names generalizing walk₂ with
  | nil => exact ⟨walk₂, .done _, hagree⟩
  | cons name names ih =>
    cases hfind : index.types.find? name with
    | none => exact hagree.exists_rises_cons hfind fun walk₂ => ih
    | some decl =>
      have hkey : name ∈ index.types.keys := Registry.mem_keys_iff.2 ⟨decl, hfind⟩
      obtain ⟨walk', hrises, hagree'⟩ := ih hagree
      exact ⟨walk', .reached ((hagree.reached name hkey).1 (hall name hkey)) hrises, hagree'⟩

/-- Levels for all declared types that have not been reached are enough. -/
theorem exists_rises_above {levels : Nat} {walk₂ : MemberWalk} (hagree : Agrees index walk walk₂)
    (hlevels : (index.typesOutside walk.reached).length ≤ levels) :
    ∃ walk', Rises index names walk₂ walk' ∧
      Agrees index (above index levels names walk) walk' := by
  -- without levels the names above are not even marked, so the walks agree and need not be equal
  induction levels generalizing names walk walk₂ with
  | zero =>
    exact exists_rises_of_all_reached hagree fun n hn =>
      SymbolIndex.mem_of_typesOutside (Nat.le_zero.1 hlevels) hn
  | succ levels ihlevels =>
    rw [above]
    induction names generalizing walk walk₂ with
    | nil => exact ⟨walk₂, .done _, hagree⟩
    | cons name names ih =>
      rw [List.foldl_cons]
      cases hfind : index.types.find? name with
      | none =>
        have hgo : Agrees index walk (goUp index levels walk name) := .goUp_of_none levels hfind
        refine (hgo.symm.trans hagree).exists_rises_cons hfind fun walk₂ hagree₂ => ih hagree₂ ?_
        have hle := SymbolIndex.length_typesOutside_le fun n hn => (hgo.reached n hn).1
        omega
      | some decl =>
        have hkey : name ∈ index.types.keys := Registry.mem_keys_iff.2 ⟨decl, hfind⟩
        by_cases hmem : name ∈ walk.reached
        · obtain ⟨walk', hrises, hagree'⟩ := ih hagree hlevels
          rw [goUp_of_mem levels hmem]
          exact ⟨walk', .reached ((hagree.reached name hkey).1 hmem) hrises, hagree'⟩
        · have hlt := SymbolIndex.length_typesOutside_lt hkey hmem
          have hoffered := hagree.offered name decl.ownMembers false
          obtain ⟨upper, hupper, hagree'⟩ := ihlevels hoffered (by
            rw [reached_foldl_offer]
            show (index.typesOutside (name :: walk.reached)).length ≤ levels
            omega)
          rw [← goUp_of_some levels hmem hfind] at hagree'
          have hkeeps : ∀ n ∈ index.types.keys, n ∈ walk.reached →
              n ∈ (goUp index levels walk name).reached := by
            intro n hn hin
            rw [hagree'.reached n hn]
            apply hupper.subset
            rw [← hoffered.reached n hn, reached_foldl_offer]
            exact List.mem_cons_of_mem _ hin
          have hle := SymbolIndex.length_typesOutside_le hkeeps
          obtain ⟨walk', hrises, hagree''⟩ := ih hagree' (by omega)
          exact ⟨walk', .declared (mt (hagree.reached name hkey).2 hmem) hfind hupper hrises,
            hagree''⟩

/-! ## What a walk comes to -/

theorem Rises.names_subset (h : Rises index names walk walk') : ∀ n ∈ names, n ∈ walk'.reached := by
  induction h with
  | done => exact fun _ hn => nomatch hn
  | reached hname hrest ih =>
    exact List.forall_mem_cons.2 ⟨hrest.subset _ hname, ih⟩
  | undeclared _ _ hrest ih =>
    exact List.forall_mem_cons.2 ⟨hrest.subset _ (List.mem_cons_self ..), ih⟩
  | declared _ _ hup hrest _ ih =>
    refine List.forall_mem_cons.2 ⟨hrest.subset _ (hup.subset _ ?_), ih⟩
    rw [reached_foldl_offer]
    exact List.mem_cons_self ..

/-- While a walk goes up from the types of a path, what it has left behind is closed. -/
theorem Rises.closed {path : List QualifiedName} (h : Rises index names walk walk')
    (hclosed : index.Closed path walk.reached) : index.Closed path walk'.reached := by
  induction h generalizing path with
  | done => exact hclosed
  | reached _ _ ih => exact ih hclosed
  | undeclared _ hfind _ ih => exact ih (hclosed.cons_of_none hfind)
  | @declared name decl _ _ upper _ _ hfind hup _ ihup ih =>
    refine ih fun type htype hfree supertype hkey hext => ?_
    by_cases heq : type = name
    · subst heq
      obtain ⟨decl', hfind', hmem⟩ := hext
      cases hfind.symm.trans hfind'
      exact hup.names_subset supertype hmem
    · have hupper : index.Closed (name :: path) upper.reached := ihup (by
        rw [reached_foldl_offer]
        exact hclosed.cons_cons name)
      exact hupper type htype (by simp [heq, hfree]) supertype hkey hext

/-- A walk from `walk` to `walk'` comes to the fresh ones among `types`, in order. -/
structure Covers (index : SymbolIndex) (types : List QualifiedName) (walk walk' : MemberWalk) :
    Prop where
  kept : walk'.kept =
    (((fresh walk.reached types).flatMap index.membersOf).foldl (offer false) walk).kept
  reached : ∀ n ∈ index.types.keys, n ∈ walk'.reached ↔ n ∈ walk.reached ∨ n ∈ types

theorem Rises.covers {path : List QualifiedName} (h : Rises index names walk walk')
    (hpath : ∀ n ∈ path, n ∈ walk.reached) (hclosed : index.Closed path walk.reached) :
    Covers index (names.flatMap (index.climb path)) walk walk' := by
  induction h generalizing path with
  | done => exact ⟨rfl, by simp⟩
  | @reached name names walk _ hname _ ih =>
    obtain ⟨hkept, hreached⟩ := ih hpath hclosed
    have hold : ∀ n ∈ index.climb path name, n ∈ walk.reached :=
      fun _ => SymbolIndex.mem_of_mem_climb hclosed hname
    rw [List.flatMap_cons]
    refine ⟨by rw [fresh_append_of_forall_mem hold, hkept], fun n hn => ?_⟩
    rw [hreached n hn, List.mem_append, ← or_assoc, or_iff_left_of_imp (hold n)]
  | @undeclared name names walk _ _ hfind _ ih =>
    obtain ⟨hkept, hreached⟩ := ih (fun n hn => List.mem_cons_of_mem _ (hpath n hn))
      (hclosed.cons_of_none hfind)
    have hne : ∀ n ∈ index.types.keys, n ∈ (walk.mark name).reached ↔ n ∈ walk.reached :=
      fun n hn => ((Agrees.refl index walk).mark_right hfind).symm.reached n hn
    rw [List.flatMap_cons, SymbolIndex.climb_of_none hfind, List.nil_append]
    constructor
    · rw [hkept, fresh_congr fun n hn => hne n (SymbolIndex.mem_keys_of_mem_flatMap_climb hn)]
      exact kept_foldl_offer_mark ..
    · intro n hn
      rw [hreached n hn, hne n hn]
  | @declared name decl names walk upper walk' hname hfind hup hrest ihup ih =>
    have hoffered : (decl.ownMembers.foldl (offer false) (walk.mark name)).reached =
        name :: walk.reached := reached_foldl_offer ..
    have hfree : name ∉ path := fun hn => hname (hpath name hn)
    have hpath' : ∀ n ∈ name :: path, n ∈ name :: walk.reached := List.cons_subset_cons name hpath
    have hclosed' := hclosed.cons_cons name
    rw [← hoffered] at hpath' hclosed'
    obtain ⟨hkept, hreached⟩ := ihup hpath' hclosed'
    have hcloses := (Rises.declared hname hfind hup (.done upper)).closed hclosed
    obtain ⟨hkept', hreached'⟩ := ih (fun n hn => hup.subset n (hpath' n (.tail _ hn))) hcloses
    rw [hoffered] at hkept
    simp only [hoffered] at hreached
    rw [List.flatMap_cons, SymbolIndex.climb_of_some hfree hfind]
    generalize decl.supertypes.flatMap (index.climb (name :: path)) = supers at hkept hreached ⊢
    constructor
    · have hsplit : fresh walk.reached (name :: supers ++ names.flatMap (index.climb path)) =
          name :: fresh (name :: walk.reached) supers ++
            fresh upper.reached (names.flatMap (index.climb path)) := by
        apply fresh_cons_append hname
        exact fun n hn => hreached n (SymbolIndex.mem_keys_of_mem_flatMap_climb hn)
      have hown : index.membersOf name = decl.ownMembers := by
        rw [SymbolIndex.membersOf, hfind]
      rw [hsplit, List.flatMap_append, List.flatMap_cons, hown, List.append_assoc,
        List.foldl_append, List.foldl_append, hkept']
      refine kept_foldl_offer_congr ?_ _
      rw [hkept]
      exact kept_foldl_offer_congr (kept_foldl_offer_mark ..) _
    · intro n hn
      rw [hreached' n hn, hreached n hn, List.mem_append, List.mem_cons, List.mem_cons]
      tauto

end MemberWalk
end DocWeave
