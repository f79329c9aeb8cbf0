import PascalTokens.Proofs.Scan.Line

/-!
# Line numbers in order

A scan goes from line to line and never back. What it gives has the number of the line that it is
on, so the lines of tokens never decrease, and a word is rejected on the last line that has been
begun.

## Main definitions

* `Progress.Ordered` says that the lines of what a part of a scan gives never decrease.

## Main statements

* `State.ordered_scanLines`: the lines of a scan are in order, from the first that is read.
* `State.line_scanLines_lt`: it does not come further than to the last one.
-/

namespace PascalTokens

namespace Scan

/-- The scan goes from line `n` to the line of its state. The lines of its tokens lie between these
and never decrease, and its failure stands on the last of them. -/
structure Progress.Ordered (n : Int) (p : Progress) : Prop where
  le_line : n ≤ p.state.line
  le_of_mem : ∀ t ∈ p.tokens, n ≤ t.line ∧ t.line ≤ p.state.line
  pairwise : p.tokens.Pairwise fun t u => t.line ≤ u.line
  failure_eq : ∀ e, p.failure = some e → e.line = p.state.line

theorem Progress.ordered_nil (s : State) : Ordered s.line ⟨s, [], none⟩ :=
  ⟨Int.le_refl _, by simp, .nil, by simp⟩

theorem Progress.Ordered.mono {m n : Int} {p : Progress} (hmn : m ≤ n) (h : p.Ordered n) :
    p.Ordered m where
  le_line := Int.le_trans hmn h.le_line
  le_of_mem t ht := ⟨Int.le_trans hmn (h.le_of_mem t ht).1, (h.le_of_mem t ht).2⟩
  pairwise := h.pairwise
  failure_eq := h.failure_eq

theorem Progress.Ordered.andThen {n : Int} {p : Progress} {f : State → Progress} (hp : p.Ordered n)
    (hf : (f p.state).Ordered p.state.line) : (p.andThen f).Ordered n := by
  obtain ⟨s, ts, _ | e⟩ := p
  · rw [andThen_ok]
    refine ⟨Int.le_trans hp.le_line hf.le_line, ?_, ?_, hf.failure_eq⟩
    · intro t ht
      rcases List.mem_append.1 ht with ht | ht
      · obtain ⟨hn, hline⟩ := hp.le_of_mem t ht
        exact ⟨hn, Int.le_trans hline hf.le_line⟩
      · obtain ⟨hn, hline⟩ := hf.le_of_mem t ht
        exact ⟨Int.le_trans hp.le_line hn, hline⟩
    · refine List.pairwise_append.2 ⟨hp.pairwise, hf.pairwise, fun t ht u hu => ?_⟩
      exact Int.le_trans (hp.le_of_mem t ht).2 (hf.le_of_mem u hu).1
  · exact hp

namespace State

variable (setting : Setting) (s : State)

/-! ## Words -/

/-- A word leaves the scan on its line, and what it gives stands there. -/
theorem lines_scanWord (w : Text) :
    (s.scanWord setting w).1.line = s.line ∧
      match (s.scanWord setting w).2 with
      | .nothing => True
      | .token t => t.line = s.line
      | .failure e => e.line = s.line := by
  have hstep := wordStep setting s w
  generalize s.scanWord setting w = out at hstep ⊢
  cases hstep with
  | normal _ hstep => cases hstep <;> simp [openString, openComment, fail]
  | string _ hstep => cases hstep <;> simp
  | closesComment => simp
  | skipped => simp

theorem ordered_scanWord (w : Text) :
    (Progress.ofStep (s.scanWord setting w)).Ordered s.line := by
  obtain ⟨hline, hemission⟩ := s.lines_scanWord setting w
  generalize s.scanWord setting w = out at hline hemission ⊢
  obtain ⟨r, _ | t | e⟩ := out
  · exact hline ▸ Progress.ordered_nil r
  · refine ⟨Int.le_of_eq hline.symm, ?_, List.pairwise_singleton _ t, by simp [Progress.ofStep]⟩
    simp_all [Progress.ofStep]
  · refine ⟨Int.le_of_eq hline.symm, by simp [Progress.ofStep], .nil, ?_⟩
    simp_all [Progress.ofStep]

theorem line_scanWords (ws : List Text) : (s.scanWords setting ws).state.line = s.line := by
  induction ws generalizing s with
  | nil => rfl
  | cons w ws ih =>
    rw [scanWords_cons]
    refine Progress.state_andThen ?_ fun r hr => (ih r).trans hr
    rw [Progress.state_ofStep, (s.lines_scanWord setting w).1]

theorem ordered_scanWords (ws : List Text) : (s.scanWords setting ws).Ordered s.line := by
  induction ws generalizing s with
  | nil => exact Progress.ordered_nil s
  | cons w ws ih =>
    rw [scanWords_cons]
    exact (s.ordered_scanWord setting w).andThen (ih _)

/-! ## Lines -/

theorem line_beginLine (n : Int) (line : Text) : (s.beginLine n line).1.line = n := by
  have hleft := uncommented { s with line := n } line
  rw [beginLine]
  generalize State.uncomment { s with line := n } line = out at hleft ⊢
  cases hleft <;> rfl

theorem line_scanLine (n : Int) (line : Text) : (s.scanLine setting n line).state.line = n := by
  rw [scanLine, line_scanWords, line_beginLine]

theorem ordered_scanLine (n : Int) (line : Text) : (s.scanLine setting n line).Ordered n := by
  have h := (s.beginLine n line).1.ordered_scanWords setting (s.beginLine n line).2
  rwa [line_beginLine] at h

/-- The lines of a scan are in order, from the first that is read. -/
theorem ordered_scanLines (n : Int) {lines : List Text} (h : lines ≠ []) :
    (s.scanLines setting n lines).Ordered n := by
  induction lines generalizing s n with
  | nil => contradiction
  | cons line lines ih =>
    rw [scanLines_cons]
    refine (s.ordered_scanLine setting n line).andThen ?_
    cases lines with
    | nil => exact Progress.ordered_nil _
    | cons next lines =>
      refine (ih _ (n + 1) (by simp)).mono ?_
      rw [line_scanLine]
      omega

theorem le_line_of_mem_scanLines {n : Int} {lines : List Text} {t : Token}
    (h : t ∈ (s.scanLines setting n lines).tokens) : n ≤ t.line := by
  cases lines with
  | nil => simp at h
  | cons line lines => exact ((s.ordered_scanLines setting n (by simp)).le_of_mem t h).1

/-- A scan does not come further than to the last line. -/
theorem line_scanLines_lt {n m : Int} {lines : List Text} (hs : s.line < m)
    (hm : n + lines.length ≤ m) : (s.scanLines setting n lines).state.line < m := by
  induction lines generalizing s n with
  | nil => exact hs
  | cons line lines ih =>
    rw [List.length_cons, Int.natCast_succ] at hm
    refine Progress.state_andThen (P := fun r : State => r.line < m)
      (p := s.scanLine setting n line) ?_ fun r hr => ih r hr (by omega)
    rw [line_scanLine]
    omega

end State

end Scan

end PascalTokens
