import DocWeave.Proofs.Render.Splicing
import DocWeave.Proofs.Resolution.Failure
import Mathlib.Data.List.Chain
import Mathlib.Data.List.Nodup

/-!
# Failures and circles

A module fails because of one of its own nodes or because of a module that it includes
(`fail_or_includes_of_piece`). So a failure is found at the end of a path of includes: there it is
a broken node, or it is a module that is on the stack already. In the second case the chain that
is reported is the stack at first, then that path, and then the repeated module (`ClosesCircle`).
-/

namespace DocWeave

/-- The modules that a failure shows to be rendered already. -/
def DocError.Repeated (e : DocError) (module : QualifiedName) : Prop :=
  ∃ chain, e = .circularInclude module chain

namespace Renderer

variable {r : Renderer} {stack inside : IncludeStack} {a b k x module : QualifiedName}
  {e : DocError} {chain path entries : List QualifiedName}

/-! ## Where a failure comes from -/

/-- What can be wrong with the nodes of a module. -/
theorem cause_of_fail_mem (h : .fail e ∈ r.moduleEffects a) :
    (∃ signature cause, e = .malformedReference a signature cause) ∨
      (∃ signature, e = .unresolvedLink a signature) ∨ (∃ target, e = .missingModule a target) ∨
      ∃ path, e = .malformedImport a path := by
  rcases (mem_moduleEffects_iff (by simp)).1 h with ⟨s, l, -, he⟩ | ⟨t, -, he⟩
  · rcases linkEffect_eq_fail_iff.1 he.symm with
      ⟨cause, -, rfl⟩ | ⟨reference, -, hresolve | ⟨-, rfl⟩⟩
    · exact .inl ⟨s, cause, rfl⟩
    · have himport := Scope.malformedImport?_of_resolve? hresolve
      exact .inr (.inr (.inr (Scope.exists_path_of_malformedImport? himport)))
    · exact .inr (.inl ⟨s, rfl⟩)
  · obtain ⟨-, rfl⟩ := inclusionEffect_eq_fail_iff.1 he.symm
    exact .inr (.inr (.inl ⟨_, rfl⟩))

/-- A broken node fails for the module that holds it, and not because of a circle. -/
theorem module?_of_fail_mem (h : .fail e ∈ r.moduleEffects a) :
    e.module? = some a ∧ ∀ x, ¬ e.Repeated x := by
  rcases cause_of_fail_mem h with ⟨_, _, rfl⟩ | ⟨_, rfl⟩ | ⟨_, rfl⟩ | ⟨_, rfl⟩ <;>
    exact ⟨rfl, fun x ⟨chain, hx⟩ => by cases hx⟩

/-- Inside a module that can be entered a failure is one of its own or that of an included one. -/
theorem fail_or_includes_of_piece (hin : stack.enter a = .ok inside)
    (he : (r.piece stack a).outcome = .error e) :
    .fail e ∈ r.moduleEffects a ∨ ∃ k, r.Includes a k ∧ (r.piece inside k).outcome = .error e := by
  rw [piece_of_enter hin] at he
  obtain ⟨p, hp, hpe⟩ := Piece.exists_mem_of_outcome_concat he
  obtain ⟨effect, heffect, rfl⟩ := List.mem_map.1 hp
  cases effect with
  | emit text => cases hpe
  | fail e' =>
    cases hpe
    exact .inl heffect
  | splice k => exact .inr ⟨k, splice_mem_moduleEffects_iff.1 heffect, hpe⟩

/-! ## Circles -/

/-- Inside the given modules the includes lead from `a` along `path` to `x`, which is one of the
modules on the way or one of the given ones and the first to come twice; `chain` lists them all. -/
structure ClosesCircle (r : Renderer) (entries : List QualifiedName) (a : QualifiedName)
    (path : List QualifiedName) (x : QualifiedName) (chain : List QualifiedName) : Prop where
  chain_eq : chain = entries ++ a :: path ++ [x]
  includes : List.IsChain r.Includes (a :: path ++ [x])
  nodup : (entries ++ a :: path).Nodup
  repeated : x ∈ entries ++ a :: path

/-- A module that is on the stack already, or that closes a circle inside `a`, closes one for a
module that includes it. -/
theorem ClosesCircle.of_includes (hak : r.Includes a k) (hnodup : (entries ++ [a]).Nodup)
    (h : (k ∈ entries ++ [a] ∧ x = k ∧ chain = entries ++ [a] ++ [k]) ∨
      ∃ path, r.ClosesCircle (entries ++ [a]) k path x chain) :
    ∃ path, r.ClosesCircle entries a path x chain := by
  rcases h with ⟨hk, rfl, rfl⟩ | ⟨path, hchain, hpath, hdistinct, hx⟩
  · exact ⟨[], rfl, List.isChain_pair.2 hak, hnodup, hk⟩
  · rw [List.append_assoc] at hdistinct hx
    refine ⟨k :: path, ?_, ?_, hdistinct, hx⟩
    · rw [hchain, List.append_assoc entries]
      rfl
    · exact List.isChain_cons_cons.2 ⟨hak, hpath⟩

/-- A circle that is reported is one: the module is on the stack already, or a path of includes
leads from it to a module that is then rendered inside itself. -/
theorem circle_of_piece
    (he : (r.piece stack a).outcome = .error (.circularInclude x chain)) :
    (a ∈ stack.entries ∧ x = a ∧ chain = stack.entries ++ [a]) ∨
      ∃ path, r.ClosesCircle stack.entries a path x chain := by
  induction stack, a using r.include_induction with
  | repeated stack a hm =>
    rw [piece_of_mem hm] at he
    cases he
    exact .inl ⟨hm, rfl, rfl⟩
  | entered stack a inside hin ih =>
    rcases fail_or_includes_of_piece hin he with hfail | ⟨k, hk, hke⟩
    · exact ((module?_of_fail_mem hfail).2 x ⟨chain, rfl⟩).elim
    · have hinside := ih k hk hke
      have hnodup := inside.nodup_entries
      rw [(IncludeStack.entries_of_enter hin).2] at hinside hnodup
      exact .inr (ClosesCircle.of_includes hk hnodup hinside)

/-- The chain of a circle lists the stack and then the module that was to be rendered. -/
theorem chain_of_piece (he : (r.piece stack a).outcome = .error (.circularInclude x chain)) :
    ∃ rest, chain = stack.entries ++ a :: rest := by
  rcases circle_of_piece he with ⟨-, -, rfl⟩ | ⟨path, rfl, -, -, -⟩
  · exact ⟨[], rfl⟩
  · exact ⟨path ++ [x], List.append_assoc ..⟩

/-- A circle that rendering a module reports is one. Either the module is on the stack already, and
the chain is the stack and the module; or the chain is the stack and then a path of includes that
starts at the module, on which no module comes twice before the last one, which does. On its own, a
module reports a chain that starts with it and follows the includes, and whose last module is
exactly one of the modules before. -/
theorem circle_of_render (r : Renderer) (module : QualifiedName) :
    (∀ stack text x chain,
      (r.render module (stack, text)).1 = .error (.circularInclude x chain) →
        (module ∈ stack.entries ∧ x = module ∧ chain = stack.entries ++ [module]) ∨
          ∃ path, r.ClosesCircle stack.entries module path x chain) ∧
    ∀ x chain, r.renderModule module = .error (.circularInclude x chain) →
      chain.head? = some module ∧ List.IsChain r.Includes chain ∧ chain.getLast? = some x ∧
        chain.dropLast.Nodup ∧ chain.dropLast.count x = 1 := by
  refine ⟨?_, ?_⟩
  · intro stack text x chain h
    rw [render_eq] at h
    exact circle_of_piece h
  · intro x chain h
    rcases circle_of_piece (renderModule_eq_error_iff.1 h) with ⟨hm, -⟩ | ⟨path, hcircle⟩
    · cases hm
    · obtain ⟨rfl, hincludes, hnodup, hx⟩ := hcircle
      rw [List.dropLast_concat, List.getLast?_concat]
      exact ⟨rfl, hincludes, rfl, hnodup, List.count_eq_one_of_mem hnodup hx⟩

/-- On its own `e` reports the circle of `c` and `d`. Inside `d` the circle closes at `d`, and
inside `e` it closes at once. -/
theorem circle_of_render_sample :
    (sample.renderModule "e" = .error (.circularInclude "c" ["e", "c", "d", "c"]) ∧
      List.IsChain sample.Includes ["e", "c", "d", "c"] ∧ ["e", "c", "d"].count "c" = 1) ∧
    ((sample.render "e" (⟨["d"], by simp⟩, ">")).1 =
        .error (.circularInclude "d" ["d", "e", "c", "d"]) ∧
      ∃ path, sample.ClosesCircle ["d"] "e" path "d" ["d", "e", "c", "d"]) ∧
    (sample.render "e" (⟨["e"], by simp⟩, ">")).1 = .error (.circularInclude "e" ["e", "e"]) ∧
      ("e" ∈ ["e"] ∧ "e" = "e" ∧ ["e", "e"] = ["e"] ++ ["e"] ∨
        ∃ path, sample.ClosesCircle ["e"] "e" path "e" ["e", "e"]) := by
  have halone : sample.renderModule "e" = .error (.circularInclude "c" ["e", "c", "d", "c"]) := by
    decide +kernel
  have hinside : (sample.render "e" (⟨["d"], by simp⟩, ">")).1 =
      .error (.circularInclude "d" ["d", "e", "c", "d"]) := by
    decide +kernel
  have hrepeated : (sample.render "e" (⟨["e"], by simp⟩, ">")).1 =
      .error (.circularInclude "e" ["e", "e"]) := by
    decide +kernel
  obtain ⟨hstack, hmodule⟩ := circle_of_render sample "e"
  obtain ⟨-, hincludes, -, -, hcount⟩ := hmodule _ _ halone
  refine ⟨⟨halone, hincludes, hcount⟩, ⟨hinside, ?_⟩, hrepeated, hstack _ _ _ _ hrepeated⟩
  rcases hstack _ _ _ _ hinside with ⟨hm, -⟩ | hcircle
  · simp at hm
  · exact hcircle

end Renderer
end DocWeave
