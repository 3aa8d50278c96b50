import DocWeave.Proofs.Members.Enumeration

/-!
# Members in another order

`Rearranged members members'` says that `members'` are the same members with the methods in another
order. Methods with the same name and erased parameter types keep their order, and so do the members
that are no methods, as they do when they stay in their places. So each key has the same members in
the same order, and when the members of one type are rearranged, the same ones are kept for every
type (`mem_allMembers_rearrange`).
-/

namespace DocWeave

/-- Whether a method has the name and the erased parameter types of another. -/
def MemberDecl.isLike (m other : MemberDecl) : Bool :=
  m.isMethod && m.name == other.name && m.erasedParams == other.erasedParams

/-- The same members with the methods in another order. -/
structure Rearranged (members members' : List MemberDecl) : Prop where
  perm : members'.Perm members
  alike : ∀ m ∈ members, members'.filter (·.isLike m) = members.filter (·.isLike m)
  rest : members'.filter (!·.isMethod) = members.filter (!·.isMethod)

/-- The index with the members of a declared type replaced. -/
def SymbolIndex.rearrange (index : SymbolIndex) (decl : TypeDecl) (members : List MemberDecl) :
    SymbolIndex :=
  index.addType { decl with members }

/-- Each key has the same members in the same order. -/
theorem Rearranged.filter_key {members members' : List MemberDecl}
    (h : Rearranged members members') (memberKey : MemberKey) :
    members'.filter (·.key? == some memberKey) = members.filter (·.key? == some memberKey) := by
  cases memberKey with
  | call name params =>
    by_cases hany : ∃ m ∈ members, m.key? = some (.call name params)
    · obtain ⟨m, hm, hkey⟩ := hany
      have hlike : ∀ a : MemberDecl, (a.key? == some (.call name params)) = a.isLike m := by
        intro a
        rw [← hkey, Bool.eq_iff_iff]
        cases ha : a.kind <;> cases hb : m.kind <;>
          simp [MemberDecl.key?, MemberDecl.isLike, MemberDecl.isMethod, ha, hb] at hkey ⊢
      simp only [hlike, h.alike m hm]
    · have hnone : members.filter (·.key? == some (.call name params)) = [] := by
        refine List.filter_eq_nil_iff.2 fun m hm hkey => hany ⟨m, hm, ?_⟩
        simpa using hkey
      have hperm := h.perm.filter (·.key? == some (.call name params))
      rw [hnone] at hperm ⊢
      exact hperm.eq_nil
  | value name =>
    have hvalue : ∀ a : MemberDecl, (a.key? == some (.value name)) =
        (a.key? == some (.value name) && !a.isMethod) := by
      intro a
      cases ha : a.kind <;> simp [MemberDecl.key?, MemberDecl.isMethod, ha]
    have hsplit : ∀ ms : List MemberDecl, ms.filter (·.key? == some (.value name)) =
        (ms.filter (!·.isMethod)).filter (·.key? == some (.value name)) := by
      intro ms
      rw [List.filter_filter]
      exact List.filter_congr fun a _ => hvalue a
    rw [hsplit, h.rest, ← hsplit]

namespace SymbolIndex

variable {index : SymbolIndex} {decl : TypeDecl} (hdecl : index.types.find? decl.name = some decl)

include hdecl

theorem supertypes_rearrange (members : List MemberDecl) (n : QualifiedName) :
    ((index.rearrange decl members).types.find? n).map TypeDecl.supertypes =
      (index.types.find? n).map TypeDecl.supertypes := by
  rw [rearrange, addType, Registry.find?_insert]
  split
  · rename_i hname
    rw [← hname, hdecl]
    rfl
  · rfl

theorem lookupType?_rearrange (members : List MemberDecl) (name : QualifiedName) :
    (index.rearrange decl members).lookupType? name = index.lookupType? name := by
  have hsome := congrArg Option.isSome (supertypes_rearrange hdecl members name)
  rw [Option.isSome_map, Option.isSome_map] at hsome
  rw [lookupType?, lookupType?, hasType, hasType, Registry.contains, Registry.contains, hsome]

variable {members : List MemberDecl} (hmembers : Rearranged decl.members members)

include hmembers

theorem filter_key_membersOf_rearrange (memberKey : MemberKey) (n : QualifiedName) :
    ((index.rearrange decl members).membersOf n).filter (·.key? == some memberKey) =
      (index.membersOf n).filter (·.key? == some memberKey) := by
  rw [membersOf, membersOf, rearrange, addType, Registry.find?_insert]
  by_cases hname : decl.name = n
  · rw [if_pos hname, ← hname, hdecl]
    simp only [TypeDecl.ownMembers, List.filter_map]
    exact congrArg _ (hmembers.filter_key memberKey)
  · rw [if_neg hname]

/-- A type keeps the same fields, enum constants and methods. -/
theorem mem_allMembers_rearrange {m : Member} (hkind : m.kind ≠ .constructor)
    (type : QualifiedName) :
    m ∈ (index.rearrange decl members).allMembers type ↔ m ∈ index.allMembers type := by
  obtain ⟨memberKey, hkey⟩ := Option.ne_none_iff_exists'.1 (mt Member.key?_eq_none_iff.1 hkind)
  have hclass : m.sharesKey = fun b => b.key? == some memberKey := by
    funext b
    exact Member.sharesKey_of_key?_some hkey
  have hlineage : (index.rearrange decl members).lineage type = index.lineage type := by
    rw [lineage, climb_congr fun n _ => supertypes_rearrange hdecl members n, ← lineage]
  have hoffered : ∀ n, ((index.rearrange decl members).offered type n).filter m.sharesKey =
      (index.offered type n).filter m.sharesKey := by
    intro n
    rw [offered, offered, List.filter_comm, hclass,
      filter_key_membersOf_rearrange hdecl hmembers memberKey n, List.filter_comm]
  have hstays : ∀ index : SymbolIndex, m ∈ index.allMembers type ↔
      (((index.lineage type).flatMap (index.offered type)).filter m.sharesKey).head? = some m := by
    intro index
    rw [allMembers_eq, List.head?_filter]
    exact mem_eraseDupsBy_iff (fun _ _ => Member.sharesKey_comm) Member.sharesKey_trans
      (Member.sharesKey_self hkind)
  rw [hstays, hstays, List.filter_flatMap, List.filter_flatMap, hlineage]
  simp only [hoffered]

end SymbolIndex
end DocWeave
