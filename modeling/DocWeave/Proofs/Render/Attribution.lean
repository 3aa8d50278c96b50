import DocWeave.Proofs.Render.Circle

/-!
# Which module a failure is attributed to

A failure arises in the effects of the module that it is attributed to, or it is a circle that
closes at that module. Either way the module is reached from the one that was asked for, and it
fails when it is rendered on its own: what succeeds inside a stack succeeds inside the end of that
stack, and what fails there fails in the same way, unless it fails because of a module that was
taken off (`piece_eq_of_append`).
-/

namespace DocWeave

namespace DocError

/-- The failure without the first `n` modules of a chain. -/
def dropChain (n : Nat) : DocError → DocError
  | circularInclude module chain => circularInclude module (chain.drop n)
  | e => e

/-- The failure as the module that it is attributed to meets it on its own: the chain of a circle
starts at that module. -/
def own : DocError → DocError
  | circularInclude module chain => circularInclude module (chain.dropWhile (· != module))
  | e => e

theorem dropChain_eq_self {e : DocError} (h : ∀ x, ¬ e.Repeated x) (n : Nat) :
    e.dropChain n = e := by
  cases e with
  | circularInclude x chain => exact (h x ⟨chain, rfl⟩).elim
  | _ => rfl

end DocError

/-! ## Failures of pieces -/

namespace Piece

variable {α : Type} {φ : DocError → DocError} {P : DocError → Prop} {f g : α → Piece}
  {xs : List α}

/-- The same piece with another failure. -/
def mapError (φ : DocError → DocError) (piece : Piece) : Piece :=
  { piece with outcome := piece.outcome.mapError φ }

theorem mapError_of_ok {piece : Piece} (h : piece.outcome = .ok ()) :
    piece.mapError φ = piece := by
  obtain ⟨outcome, text⟩ := piece
  cases h
  rfl

theorem mapError_fail (e : DocError) : (Piece.fail e).mapError φ = .fail (φ e) := rfl

theorem outcome_mapError {piece : Piece} {e : DocError} (h : piece.outcome = .error e) :
    (piece.mapError φ).outcome = .error (φ e) := by
  rw [mapError, h]
  rfl

/-- To change the failure of the whole it is enough to change those of the pieces, and only where
the failure is one that the whole may have. -/
theorem concat_map_eq_mapError
    (hP : ∀ e, (concat (xs.map f)).outcome = .error e → P e)
    (h : ∀ x ∈ xs, (∀ e, (f x).outcome = .error e → P e) → g x = (f x).mapError φ) :
    concat (xs.map g) = (concat (xs.map f)).mapError φ := by
  induction xs with
  | nil => rfl
  | cons x rest ih =>
    rw [List.map_cons, concat] at hP ⊢
    rw [List.map_cons, concat]
    rcases (f x).ok_or_error with hx | ⟨e, hx⟩
    · rw [andThen_of_ok hx] at hP ⊢
      have hnone : ∀ e, (f x).outcome = .error e → P e := by
        intro e he
        rw [hx] at he
        cases he
      have hg : g x = f x := by
        rw [h x List.mem_cons_self hnone, mapError_of_ok hx]
      rw [hg, andThen_of_ok hx, ih hP fun y hy => h y (List.mem_cons_of_mem _ hy)]
      rfl
    · rw [andThen_of_error hx] at hP ⊢
      have hg := h x List.mem_cons_self hP
      rw [hg, andThen_of_error (outcome_mapError hx)]

end Piece

namespace Renderer

variable {r : Renderer} {stack stack' inside : IncludeStack} {a b n module : QualifiedName}
  {e : DocError}

/-- A failure is attributed to a module on the stack, or to one that is reached and that met it
when it was entered. -/
theorem exists_module_of_piece_error (he : (r.piece stack a).outcome = .error e) :
    ∃ n, e.module? = some n ∧ r.Reaches a n ∧
      (n ∈ stack.entries ∨
        ∃ stack', n ∉ IncludeStack.entries stack' ∧ (r.piece stack' n).outcome = .error e) := by
  induction stack, a using r.include_induction with
  | repeated stack a hm =>
    rw [piece_of_mem hm] at he
    cases he
    exact ⟨a, rfl, .refl, .inl hm⟩
  | entered stack a inside hin ih =>
    have ha : a ∉ stack.entries := (IncludeStack.entries_of_enter hin).1
    rcases fail_or_includes_of_piece hin he with hfail | ⟨k, hk, hke⟩
    · exact ⟨a, (module?_of_fail_mem hfail).1, .refl, .inr ⟨stack, ha, he⟩⟩
    · obtain ⟨n, hn, hreach, hmem | hstack'⟩ := ih k hk hke
      · rw [(IncludeStack.entries_of_enter hin).2, List.mem_append, List.mem_singleton] at hmem
        rcases hmem with hmem | rfl
        · exact ⟨n, hn, .head hk hreach, .inl hmem⟩
        · exact ⟨n, hn, .refl, .inr ⟨stack, ha, he⟩⟩
      · exact ⟨n, hn, .head hk hreach, .inr hstack'⟩

/-! ## Inside the end of a stack -/

/-- Taking the outer modules off the stack takes them off the chain of a failure, and changes
nothing else, unless the failure is due to one of them. -/
theorem piece_eq_of_append {outer : List QualifiedName}
    (hstack : stack.entries = outer ++ stack'.entries)
    (he : ∀ e, (r.piece stack a).outcome = .error e → ∀ x, e.Repeated x → x ∉ outer) :
    r.piece stack' a = (r.piece stack a).mapError (DocError.dropChain outer.length) := by
  induction stack, a using r.include_induction generalizing stack' with
  | repeated stack a hm =>
    rw [piece_of_mem hm] at he ⊢
    have houter : a ∉ outer := he _ rfl a ⟨_, rfl⟩
    have hm' : a ∈ stack'.entries := by
      rw [hstack, List.mem_append] at hm
      exact hm.resolve_left houter
    rw [piece_of_mem hm', Piece.mapError_fail, DocError.dropChain, hstack, List.append_assoc,
      List.drop_left]
  | entered stack a inside hin ih =>
    have hm' : a ∉ stack'.entries := by
      intro hmem
      apply (IncludeStack.entries_of_enter hin).1
      rw [hstack]
      exact List.mem_append_right _ hmem
    obtain ⟨inside', hin'⟩ := IncludeStack.exists_enter hm'
    have hinside : inside.entries = outer ++ inside'.entries := by
      rw [(IncludeStack.entries_of_enter hin).2, (IncludeStack.entries_of_enter hin').2, hstack,
        List.append_assoc]
    rw [piece_of_enter hin] at he ⊢
    rw [piece_of_enter hin']
    refine Piece.concat_map_eq_mapError he fun effect heffect heff => ?_
    cases effect with
    | emit text => rfl
    | fail e =>
      have hcircle := (module?_of_fail_mem heffect).2
      show Piece.fail e = Piece.fail (e.dropChain outer.length)
      rw [DocError.dropChain_eq_self hcircle]
    | splice k => exact ih k (splice_mem_moduleEffects_iff.1 heffect) hinside heff

/-- A module that a failure is attributed to has that failure on its own, as soon as it has it
inside modules that do not hold it. -/
theorem renderModule_eq_own_error (he : (r.piece stack n).outcome = .error e)
    (hn : e.module? = some n) (hmem : n ∉ stack.entries) : r.renderModule n = .error e.own := by
  have houter : ∀ x, e.Repeated x → x ∉ stack.entries := by
    rintro x ⟨chain, rfl⟩
    cases hn
    exact hmem
  have hpiece :
      r.piece {} n = (r.piece stack n).mapError (DocError.dropChain stack.entries.length) := by
    apply piece_eq_of_append (List.append_nil _).symm
    intro e' he'
    rw [he] at he'
    cases he'
    exact houter
  rw [renderModule_eq_error_iff, hpiece, Piece.outcome_mapError he]
  cases e with
  | circularInclude x chain =>
    cases hn
    obtain ⟨rest, rfl⟩ := chain_of_piece he
    have hother : ∀ y ∈ stack.entries, (y != n) = true := by
      intro y hy
      rw [bne_iff_ne]
      rintro rfl
      exact hmem hy
    rw [DocError.dropChain, DocError.own, List.drop_left, List.dropWhile_append_of_pos hother]
    simp
  | _ => rfl

/-- The module that a failure is attributed to is reached, and it has that failure on its own. -/
theorem exists_module_of_renderModule_error (h : r.renderModule module = .error e) :
    ∃ n, e.module? = some n ∧ r.Reaches module n ∧ r.renderModule n = .error e.own := by
  obtain ⟨n, hn, hreach, hmem | ⟨stack', hmem, he⟩⟩ :=
    exists_module_of_piece_error (renderModule_eq_error_iff.1 h)
  · cases hmem
  · exact ⟨n, hn, hreach, renderModule_eq_own_error he hn hmem⟩

end Renderer
end DocWeave
