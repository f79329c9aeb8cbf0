import PascalTokens.Proofs.Text.Cut
import PascalTokens.Text.LineEnding

/-!
# Texts with line feeds only

Writing every line ending as a line feed brings in no other character, and leaves a text alone that
has no carriage return. If carriage returns stand at line ends only, the lines stay the same but for
these. Ending the last line leaves a text alone that is ended, and may come first or last.

## Main definitions

* `Text.ReturnsEndLines` says that every carriage return stands right before a line feed.

## Main statements

* `Text.lines_unifyLineEndings`: the lines of a text whose line endings are unified.
* `Text.unifyLineEndings_terminated`: line endings may be unified before or after the last line is
  ended.
-/

namespace PascalTokens

namespace Text

variable {c : Char} {t : Text}

theorem mem_unifyLineEndings (h : c ∈ unifyLineEndings t) : c = '\n' ∨ c ∈ t ∧ c ≠ '\r' := by
  fun_induction unifyLineEndings t with
  | case1 => simp at h
  | case2 rest ih =>
    rcases List.mem_cons.1 h with rfl | h
    · exact .inl rfl
    · exact (ih h).imp_right fun ⟨hmem, hne⟩ => ⟨by simp [hmem], hne⟩
  | case3 d rest _ ih =>
    rcases List.mem_cons.1 h with rfl | h
    · split
      · exact .inl rfl
      · next hd => exact .inr ⟨List.mem_cons_self, hd⟩
    · exact (ih h).imp_right fun ⟨hmem, hne⟩ => ⟨List.mem_cons_of_mem _ hmem, hne⟩

theorem carriageReturn_notMem_unifyLineEndings (t : Text) : '\r' ∉ unifyLineEndings t := by
  intro h
  rcases mem_unifyLineEndings h with h | h
  · exact absurd h (by decide)
  · exact h.2 rfl

theorem unifyLineEndings_ne_nil (h : t ≠ []) : unifyLineEndings t ≠ [] := by
  fun_cases unifyLineEndings t with
  | case1 => exact absurd rfl h
  | case2 rest => exact List.cons_ne_nil _ _
  | case3 c rest => exact List.cons_ne_nil _ _

theorem unifyLineEndings_eq_self (h : '\r' ∉ t) : unifyLineEndings t = t := by
  fun_induction unifyLineEndings t with
  | case1 => rfl
  | case2 rest ih => simp at h
  | case3 d rest _ ih =>
    rw [List.mem_cons, not_or] at h
    rw [if_neg (Ne.symm h.1), ih h.2]

/-! ## Lines -/

/-- Every carriage return stands right before a line feed. -/
def ReturnsEndLines (t : Text) : Prop := ∀ i, t[i]? = some '\r' → t[i + 1]? = some '\n'

theorem returnsEndLines_nil : ReturnsEndLines [] := by simp [ReturnsEndLines]

theorem returnsEndLines_cons :
    ReturnsEndLines (c :: t) ↔ (c = '\r' → t.head? = some '\n') ∧ ReturnsEndLines t := by
  constructor
  · intro h
    refine ⟨?_, fun i hi => ?_⟩
    · rintro rfl
      simpa [List.head?_eq_getElem?] using h 0 rfl
    · simpa [hi] using h (i + 1)
  · rintro ⟨hc, ht⟩ i hi
    cases i with
    | zero =>
      have hreturn : c = '\r' := by simpa using hi
      simpa [List.head?_eq_getElem?] using hc hreturn
    | succ i => simpa using ht i (by simpa using hi)

theorem dropFinal_cons_of_ne {d : Char} (h : c ≠ d) (t : Text) :
    dropFinal d (c :: t) = c :: dropFinal d t := by
  cases t with
  | nil => simp [dropFinal, h]
  | cons e t =>
    unfold dropFinal
    rw [List.getLast?_cons_cons]
    split <;> rfl

theorem lines_cons_newline (t : Text) : lines ('\n' :: t) = [] :: lines t :=
  lines_append_newline (a := []) (by simp) t

theorem lines_cons_of_ne (h : c ≠ '\n') (t : Text) :
    lines (c :: t) = (c :: firstLine t) :: (lines t).tail :=
  lines_append (a := [c]) (by simpa using h.symm) t

/-- If carriage returns stand at line ends only, writing every line ending as a line feed drops
each of them from the end of its line. -/
theorem lines_unifyLineEndings (h : ReturnsEndLines t) :
    lines (unifyLineEndings t) = (lines t).map (dropFinal '\r') := by
  fun_induction unifyLineEndings t with
  | case1 => rfl
  | case2 rest ih =>
    have hrest : ReturnsEndLines rest := by simp_all [returnsEndLines_cons]
    have hreturn : lines ('\r' :: '\n' :: rest) = ['\r'] :: lines rest :=
      lines_append_newline (a := ['\r']) (by decide) rest
    rw [lines_cons_newline, ih hrest, hreturn]
    rfl
  | case3 c rest hnot ih =>
    rw [returnsEndLines_cons] at h
    have hc : c ≠ '\r' := by
      intro hc
      obtain ⟨more, rfl⟩ := List.head?_eq_some_iff.1 (h.1 hc)
      exact hnot more hc rfl
    rw [if_neg hc]
    by_cases hfeed : c = '\n'
    · rw [hfeed, lines_cons_newline, lines_cons_newline, ih h.2]
      rfl
    · have hlines := ih h.2
      rw [lines_eq_cons (unifyLineEndings rest), lines_eq_cons rest, List.map_cons] at hlines
      obtain ⟨hfirst, htail⟩ := List.cons.inj hlines
      rw [lines_cons_of_ne hfeed, lines_cons_of_ne hfeed, List.map_cons, dropFinal_cons_of_ne hc,
        hfirst, htail]

/-! ## The last line -/

/-- A text is ended already, or a line feed is what it lacks. -/
theorem terminated_cases (t : Text) : terminated t = t ∨ terminated t = t ++ ['\n'] := by
  unfold terminated
  split
  · exact .inl rfl
  · exact .inr rfl

theorem terminated_cons (c : Char) (h : t ≠ []) : terminated (c :: t) = c :: terminated t := by
  obtain ⟨d, t, rfl⟩ := List.exists_cons_of_ne_nil h
  unfold terminated
  rw [List.getLast?_cons_cons]
  split <;> simp_all

theorem terminated_terminated (t : Text) : terminated (terminated t) = terminated t := by
  rcases terminated_cases t with h | h
  · rw [h, h]
  · rw [h]
    simp [terminated]

theorem terminated_cons_newline (t : Text) : terminated ('\n' :: t) = '\n' :: terminated t := by
  cases t with
  | nil => rfl
  | cons c t => exact terminated_cons '\n' (List.cons_ne_nil c t)

/-- Line endings may be unified before the last line is ended, or after. -/
theorem unifyLineEndings_terminated (t : Text) :
    unifyLineEndings (terminated t) = terminated (unifyLineEndings t) := by
  fun_induction unifyLineEndings t with
  | case1 => rfl
  | case2 rest ih =>
    rw [terminated_cons _ (List.cons_ne_nil _ _), terminated_cons_newline, unifyLineEndings, ih,
      terminated_cons_newline]
  | case3 c rest hnot ih =>
    by_cases hrest : rest = []
    · subst hrest
      by_cases hreturn : c = '\r' <;> by_cases hfeed : c = '\n' <;>
        simp [terminated, unifyLineEndings, hreturn, hfeed]
    · -- Ending the last line leaves the first character of the rest alone.
      have hhead : ∀ more, c = '\r' → terminated rest = '\n' :: more → False := by
        intro more hc hmore
        obtain ⟨d, rest, rfl⟩ := List.exists_cons_of_ne_nil hrest
        rcases terminated_cases (d :: rest) with h | h
        · exact hnot more hc (h.symm.trans hmore)
        · obtain ⟨rfl, -⟩ := List.cons.inj (h.symm.trans hmore)
          exact hnot rest hc rfl
      rw [terminated_cons _ hrest, unifyLineEndings.eq_3 _ _ hhead, ih,
        terminated_cons _ (unifyLineEndings_ne_nil hrest)]

theorem mem_terminated (h : c ∈ terminated t) : c = '\n' ∨ c ∈ t := by
  rcases terminated_cases t with heq | heq
  · exact .inr (heq ▸ h)
  · rw [heq, List.mem_append, List.mem_singleton] at h
    exact h.symm

end Text

end PascalTokens
