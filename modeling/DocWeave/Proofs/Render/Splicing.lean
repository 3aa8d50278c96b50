import DocWeave.Link.Javadoc
import DocWeave.Proofs.Render.Success

/-!
# What an included module contributes

A module that renders on its own renders to the same text wherever it is included, unless one of
the modules that it reaches is being rendered already; then a circle is reported. So the text of a
module is put together from its own texts and from what the included modules render to on their
own (`text_eq_join_contributions`), and a module that fails on its own fails everywhere.
-/

namespace DocWeave

namespace Piece

variable {α : Type}

/-- Successful pieces, each replaced by itself or by one that fails as `P` says, make up the same
whole or one that fails as `P` says. -/
theorem concat_eq_or_error {P : DocError → Prop} {f g : α → Piece} {xs : List α}
    (hok : (concat (xs.map f)).outcome = .ok ())
    (h : ∀ x ∈ xs, (f x).outcome = .ok () →
      g x = f x ∨ ∃ e, (g x).outcome = .error e ∧ P e) :
    concat (xs.map g) = concat (xs.map f) ∨
      ∃ e, (concat (xs.map g)).outcome = .error e ∧ P e := by
  induction xs with
  | nil => exact .inl rfl
  | cons x rest ih =>
    rw [outcome_concat_eq_ok_iff, List.map_cons, List.forall_mem_cons] at hok
    obtain ⟨hx, hrest⟩ := hok
    rw [List.map_cons, List.map_cons, concat, concat]
    rcases h x List.mem_cons_self hx with he | ⟨e, he, hp⟩
    · rw [he, andThen_of_ok hx, andThen_of_ok hx]
      rcases ih (outcome_concat_eq_ok_iff.2 hrest) fun y hy => h y (List.mem_cons_of_mem _ hy)
        with hr | ⟨e, hr, hp⟩
      · exact .inl (by rw [hr])
      · exact .inr ⟨e, hr, hp⟩
    · exact .inr ⟨e, by rw [andThen_of_error he, he], hp⟩

theorem text_concat {pieces : List Piece} (hok : (concat pieces).outcome = .ok ()) :
    (concat pieces).text = String.join (pieces.map text) := by
  induction pieces with
  | nil => rfl
  | cons p rest ih =>
    have hp := outcome_concat_eq_ok_iff.1 hok
    rw [List.forall_mem_cons, ← outcome_concat_eq_ok_iff] at hp
    rw [concat, andThen_of_ok hp.1, List.map_cons, String.join_cons, ← ih hp.2]

end Piece

namespace Renderer

variable {r : Renderer} {stack inside : IncludeStack} {a b module : QualifiedName}

/-- A failure that says that a module reached from `a` is on the stack already. -/
def Repeats (r : Renderer) (stack : IncludeStack) (a : QualifiedName) (e : DocError) : Prop :=
  ∃ x ∈ stack.entries, r.Reaches a x ∧ ∃ chain, e = .circularInclude x chain

/-- Another stack makes no difference to a module that renders, or it makes it fail because of
what is on it. -/
theorem piece_eq_or_repeats (hok : (r.piece stack a).outcome = .ok ()) (stack' : IncludeStack) :
    r.piece stack' a = r.piece stack a ∨
      ∃ e, (r.piece stack' a).outcome = .error e ∧ r.Repeats stack' a e := by
  induction stack, a using r.include_induction generalizing stack' with
  | repeated stack a hm => exact (not_mem_of_piece_ok hok hm).elim
  | entered stack a inside hin ih =>
    by_cases hm : a ∈ stack'.entries
    · rw [piece_of_mem hm]
      exact .inr ⟨_, rfl, a, hm, .refl, _, rfl⟩
    · obtain ⟨inside', hin'⟩ := IncludeStack.exists_enter hm
      rw [piece_of_enter hin] at hok ⊢
      rw [piece_of_enter hin']
      refine Piece.concat_eq_or_error hok fun effect he heffect => ?_
      cases effect with
      | emit text => exact .inl rfl
      | fail e => cases heffect
      | splice k =>
        have hak : r.Includes a k := splice_mem_moduleEffects_iff.1 he
        rcases ih k hak heffect inside' with heq | ⟨e, herr, x, hx, hkx, hchain⟩
        · exact .inl heq
        · refine .inr ⟨e, herr, x, ?_, .head hak hkx, hchain⟩
          rw [(IncludeStack.entries_of_enter hin').2, List.mem_append, List.mem_singleton] at hx
          rcases hx with hx | rfl
          · exact hx
          · -- then the module would reach itself, and it would not have rendered
            refine (not_mem_of_reaches heffect hkx ?_).elim
            rw [(IncludeStack.entries_of_enter hin).2]
            exact List.mem_append_right _ (List.mem_singleton.2 rfl)

theorem piece_empty_eq (hok : (r.piece stack a).outcome = .ok ()) :
    r.piece {} a = r.piece stack a := by
  rcases piece_eq_or_repeats hok {} with heq | ⟨e, -, x, hx, -⟩
  · exact heq
  · cases hx

/-- Wherever a module renders it renders to its own text. -/
theorem renderModule_of_piece_ok (hok : (r.piece stack a).outcome = .ok ()) :
    r.renderModule a = .ok (r.piece stack a).text := by
  rw [renderModule_eq_ok_iff, piece_empty_eq hok]
  rw [← hok]

/-- What an effect adds to the text of the module that has it: an included module adds what it
renders to on its own. -/
def contribution (r : Renderer) : Effect → String
  | .emit text => text
  | .splice module => (r.renderModule module).toOption.getD ""
  | .fail _ => ""

theorem text_effectPiece {effect : Effect}
    (hok : (r.effectPiece stack effect).outcome = .ok ()) :
    (r.effectPiece stack effect).text = r.contribution effect := by
  cases effect with
  | emit text => rfl
  | fail e => cases hok
  | splice k =>
    rw [contribution, renderModule_of_piece_ok hok]
    rfl

/-- The text of a module is what its effects contribute, in order. -/
theorem text_eq_join_contributions (hok : (r.piece stack a).outcome = .ok ()) :
    (r.piece stack a).text = String.join ((r.moduleEffects a).map r.contribution) := by
  obtain ⟨inside, hin⟩ := IncludeStack.exists_enter (not_mem_of_piece_ok hok)
  have hall := (piece_ok_iff_of_enter hin).1 hok
  rw [piece_of_enter hin] at hok ⊢
  rw [Piece.text_concat hok, List.map_map]
  congr 1
  exact List.map_congr_left fun effect he => text_effectPiece (hall effect he)

/-- A module renders the same wherever it is included. If it renders on its own, it adds that text
behind any other inside all modules that it does not reach, and reports a circle inside one that
it reaches; if it fails on its own, it fails everywhere. In each case what it adds does not depend
on the text before. So an included module contributes what it renders to on its own. -/
theorem render_eq_standalone (r : Renderer) (module : QualifiedName) :
    (∀ text, r.renderModule module = .ok text → ∀ stack out,
      ((∀ b, r.Reaches module b → b ∉ stack.entries) →
        r.render module (stack, out) = (.ok (), stack, out ++ text)) ∧
      ((∃ b, r.Reaches module b ∧ b ∈ stack.entries) → ∃ x ∈ stack.entries, ∃ chain,
        (r.render module (stack, out)).1 = .error (.circularInclude x chain))) ∧
    (∀ e, r.renderModule module = .error e → ∀ stack out,
      ∃ e', (r.render module (stack, out)).1 = .error e') ∧
    (∀ stack, ∃ outcome added, ∀ out,
      r.render module (stack, out) = (outcome, stack, out ++ added)) ∧
    (∀ stack out, (r.render module (stack, out)).1 = .ok () →
      (r.render module (stack, out)).2.2 =
        out ++ String.join ((r.moduleEffects module).map r.contribution) ∧
      ∀ k, r.Includes module k → ∃ text, r.renderModule k = .ok text ∧
        ∀ inside out', stack.enter module = .ok inside →
          r.render k (inside, out') = (.ok (), inside, out' ++ text)) := by
  refine ⟨?_, ?_, ?_, ?_⟩
  · intro text htext stack out
    have hpiece := renderModule_eq_ok_iff.1 htext
    have hok : (r.piece {} module).outcome = .ok () := by rw [hpiece]
    rw [render_eq]
    rcases piece_eq_or_repeats hok stack with heq | ⟨e, herr, x, hx, hmx, chain, rfl⟩
    · rw [heq, hpiece]
      refine ⟨?_, ?_⟩
      · intro _
        rfl
      · rintro ⟨b, hb, hmem⟩
        rw [← heq] at hok
        exact (not_mem_of_reaches hok hb hmem).elim
    · refine ⟨?_, ?_⟩
      · intro h
        exact (h x hmx hx).elim
      · intro _
        exact ⟨x, hx, chain, herr⟩
  · intro e he stack out
    rw [render_eq]
    rcases (r.piece stack module).ok_or_error with hok | herr
    · rw [renderModule_of_piece_ok hok] at he
      cases he
    · exact herr
  · intro stack
    exact ⟨_, _, r.render_eq stack module⟩
  · intro stack out hout
    rw [render_eq] at hout ⊢
    refine ⟨?_, ?_⟩
    · rw [text_eq_join_contributions hout]
    · intro k hk
      obtain ⟨inside, hin, hkok⟩ := exists_piece_ok_of_includes hout hk
      refine ⟨_, renderModule_of_piece_ok hkok, ?_⟩
      intro inside' out' hin'
      cases hin.symm.trans hin'
      rw [render_eq, hkok]

/-- `a` includes `a.b`; `c` and `d` include each other, and `e` includes `c`. -/
def sample : Renderer where
  workspace := [("a", [.text "x", .inclusion "b"]), ("a.b", [.text "y"]), ("c", [.link "d" []]),
    ("d", [.text "z", .link "c" []]), ("e", [.link "c" []])].foldl
      (fun w (name, nodes) => (w.addModule { name }).setDoc name (.tree nodes)) {}
  links := Javadoc.links ""

theorem mem_of_sample_reaches (h : sample.Reaches "a" b) : b ∈ ["a", "a.b"] := by
  have ha : sample.moduleEffects "a" = [.emit "x", .splice "a.b"] := by decide +kernel
  have hb : sample.moduleEffects "a.b" = [.emit "y"] := by decide +kernel
  induction h with
  | refl => exact List.mem_cons_self
  | tail _ hstep ih =>
    have hmem := splice_mem_moduleEffects_iff.2 hstep
    simp only [List.mem_cons, List.not_mem_nil, or_false] at ih
    rcases ih with rfl | rfl
    · rw [ha] at hmem
      simp_all
    · rw [hb] at hmem
      simp at hmem

/-- `a` adds its text inside `c`, where it contributes what `a.b` renders to, and it reports a
circle inside `a.b`, which it includes; `e` fails on its own and so inside `a`. -/
theorem render_sample_inside_included :
    (sample.renderModule "a" = .ok "xy" ∧ (∀ b, sample.Reaches "a" b → b ∉ ["c"]) ∧
      sample.render "a" (⟨["c"], by simp⟩, ">") = (.ok (), ⟨["c"], by simp⟩, ">xy")) ∧
    (sample.Includes "a" "a.b" ∧
      ∃ x ∈ ["a.b"], ∃ chain, (sample.render "a" (⟨["a.b"], by simp⟩, ">")).1 =
        .error (.circularInclude x chain)) ∧
    (sample.renderModule "e" = .error (.circularInclude "c" ["e", "c", "d", "c"]) ∧
      ∃ e', (sample.render "e" (⟨["a"], by simp⟩, ">")).1 = .error e') ∧
    ∃ text, sample.renderModule "a.b" = .ok text ∧
      sample.render "a.b" (⟨["c", "a"], by simp⟩, ">") =
        (.ok (), ⟨["c", "a"], by simp⟩, ">" ++ text) := by
  have htext : sample.renderModule "a" = .ok "xy" := by decide +kernel
  have hab : sample.Includes "a" "a.b" := splice_mem_moduleEffects_iff.1 (by decide +kernel)
  have he : sample.renderModule "e" = .error (.circularInclude "c" ["e", "c", "d", "c"]) := by
    decide +kernel
  have hfree : ∀ b, sample.Reaches "a" b → b ∉ ["c"] := by
    intro b hb hc
    have := mem_of_sample_reaches hb
    simp_all
  obtain ⟨hok, hfail, -, hinner⟩ := render_eq_standalone sample "a"
  have hinside := (hok "xy" htext ⟨["c"], by simp⟩ ">").1 hfree
  refine ⟨⟨htext, hfree, hinside⟩, ⟨hab, ?_⟩, ⟨he, ?_⟩, ?_⟩
  · exact (hok "xy" htext ⟨["a.b"], by simp⟩ ">").2 ⟨"a.b", .single hab, List.mem_singleton.2 rfl⟩
  · exact (render_eq_standalone sample "e").2.1 _ he ⟨["a"], by simp⟩ ">"
  · obtain ⟨text, htext, hsplice⟩ :=
      (hinner ⟨["c"], by simp⟩ ">" (by rw [hinside])).2 "a.b" hab
    exact ⟨text, htext, hsplice ⟨["c", "a"], by simp⟩ ">" rfl⟩

end Renderer
end DocWeave
