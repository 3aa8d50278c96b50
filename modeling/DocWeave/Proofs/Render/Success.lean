import DocWeave.Proofs.Render.Run

/-!
# When rendering succeeds

A module renders if and only if no module that it reaches holds a broken node or lies on a circle
of includes. In one direction a successful run visits every module that is reached, each of them
inside a stack that grows along the includes; so a circle would meet its own first module on the
stack. In the other, without a circle no module that is reached is ever on the stack.
-/

namespace DocWeave.Renderer

variable {r : Renderer} {stack inside : IncludeStack} {a b module : QualifiedName}

theorem not_mem_of_piece_ok (h : (r.piece stack a).outcome = .ok ()) : a ∉ stack.entries := by
  intro hm
  rw [piece_of_mem hm] at h
  cases h

/-- Inside a module that can be entered, it renders if and only if all its effects succeed. -/
theorem piece_ok_iff_of_enter (h : stack.enter a = .ok inside) :
    (r.piece stack a).outcome = .ok () ↔
      ∀ effect ∈ r.moduleEffects a, (r.effectPiece inside effect).outcome = .ok () := by
  rw [piece_of_enter h, Piece.outcome_concat_eq_ok_iff, List.forall_mem_map]

/-- A module that renders includes only modules that render inside it. -/
theorem exists_piece_ok_of_includes (h : (r.piece stack a).outcome = .ok ())
    (hab : r.Includes a b) :
    ∃ inside, stack.enter a = .ok inside ∧ (r.piece inside b).outcome = .ok () := by
  obtain ⟨inside, hin⟩ := IncludeStack.exists_enter (not_mem_of_piece_ok h)
  exact ⟨inside, hin, (piece_ok_iff_of_enter hin).1 h _ (splice_mem_moduleEffects_iff.2 hab)⟩

/-- A module that renders reaches no module on the stack. -/
theorem not_mem_of_reaches (h : (r.piece stack a).outcome = .ok ()) (hab : r.Reaches a b) :
    b ∉ stack.entries := by
  induction hab using Relation.ReflTransGen.head_induction_on generalizing stack with
  | refl => exact not_mem_of_piece_ok h
  | head hac _ ih =>
    obtain ⟨inside, hin, hc⟩ := exists_piece_ok_of_includes h hac
    intro hb
    refine ih hc ?_
    rw [(IncludeStack.entries_of_enter hin).2]
    exact List.mem_append_left _ hb

/-- Whatever a module that renders reaches renders on the way. -/
theorem exists_piece_ok_of_reaches (h : (r.piece stack a).outcome = .ok ())
    (hab : r.Reaches a b) : ∃ stack', (r.piece stack' b).outcome = .ok () := by
  induction hab with
  | refl => exact ⟨stack, h⟩
  | tail _ hbc ih =>
    obtain ⟨stack', hb⟩ := ih
    obtain ⟨inside, -, hc⟩ := exists_piece_ok_of_includes hb hbc
    exact ⟨inside, hc⟩

theorem not_broken_of_piece_ok (h : (r.piece stack a).outcome = .ok ()) {node : DocNode}
    (hactive : r.Active a node) : ¬ r.Broken a node := by
  intro hbroken
  obtain ⟨inside, hin⟩ := IncludeStack.exists_enter (not_mem_of_piece_ok h)
  obtain ⟨e, he⟩ := exists_fail_mem_moduleEffects_iff.2 ⟨node, hactive, hbroken⟩
  have := (piece_ok_iff_of_enter hin).1 h _ he
  cases this

theorem not_circle_of_piece_ok (h : (r.piece stack a).outcome = .ok ()) :
    ¬ Relation.TransGen r.Includes a a := by
  intro hcircle
  obtain ⟨b, hab, hba⟩ := Relation.TransGen.head'_iff.1 hcircle
  obtain ⟨inside, hin, hb⟩ := exists_piece_ok_of_includes h hab
  refine not_mem_of_reaches hb hba ?_
  rw [(IncludeStack.entries_of_enter hin).2]
  exact List.mem_append_right _ (List.mem_singleton.2 rfl)

/-- Without broken nodes and circles nothing can fail but a module that is on the stack. -/
theorem piece_ok_of_sound (hsound : ∀ b, r.Reaches module b → ∀ node, r.Active b node →
      ¬ r.Broken b node) (hcircle : ∀ b, r.Reaches module b → ¬ Relation.TransGen r.Includes b b)
    (hstack : ∀ b, r.Reaches module b → b ∉ stack.entries) :
    (r.piece stack module).outcome = .ok () := by
  induction stack, module using r.include_induction with
  | repeated stack a hm => exact (hstack a .refl hm).elim
  | entered stack a inside hin ih =>
    rw [piece_ok_iff_of_enter hin]
    intro effect he
    cases effect with
    | emit text => rfl
    | fail e =>
      obtain ⟨node, hactive, hbroken⟩ := exists_fail_mem_moduleEffects_iff.1 ⟨e, he⟩
      exact (hsound a .refl node hactive hbroken).elim
    | splice k =>
      have hak : r.Includes a k := splice_mem_moduleEffects_iff.1 he
      apply ih k hak
      · intro b hb
        exact hsound b (.head hak hb)
      · intro b hb
        exact hcircle b (.head hak hb)
      · intro b hb hmem
        rw [(IncludeStack.entries_of_enter hin).2, List.mem_append, List.mem_singleton] at hmem
        rcases hmem with hmem | rfl
        · exact hstack b (.head hak hb) hmem
        · exact hcircle b .refl (.head' hak hb)

/-- A module renders if and only if no module that it reaches, itself included, holds a broken
node or includes itself. -/
theorem exists_renderModule_eq_ok_iff (r : Renderer) (module : QualifiedName) :
    (∃ text, r.renderModule module = .ok text) ↔
      (∀ b, r.Reaches module b → ∀ node, r.Active b node → ¬ r.Broken b node) ∧
        ¬ ∃ b, r.Reaches module b ∧ Relation.TransGen r.Includes b b := by
  refine ⟨?_, ?_⟩
  · rintro ⟨text, h⟩
    have hok : (r.piece {} module).outcome = .ok () := by rw [renderModule_eq_ok_iff.1 h]
    refine ⟨?_, ?_⟩
    · intro b hb node hactive
      obtain ⟨stack, hstack⟩ := exists_piece_ok_of_reaches hok hb
      exact not_broken_of_piece_ok hstack hactive
    · rintro ⟨b, hb, hcircle⟩
      obtain ⟨stack, hstack⟩ := exists_piece_ok_of_reaches hok hb
      exact not_circle_of_piece_ok hstack hcircle
  · rintro ⟨hsound, hcircle⟩
    have hok : (r.piece {} module).outcome = .ok () := by
      apply piece_ok_of_sound hsound
      · intro b hb hc
        exact hcircle ⟨b, hb, hc⟩
      · intro b _
        exact List.not_mem_nil
    refine ⟨(r.piece {} module).text, renderModule_eq_ok_iff.2 ?_⟩
    rw [← hok]

end DocWeave.Renderer
