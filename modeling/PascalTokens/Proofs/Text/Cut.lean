import PascalTokens.Text.Basic

/-!
# Cutting a text

What stands before and after the first occurrence of a pattern, read one character at a time, and
how these cuts behave when the text is taken apart. A character that is not in the pattern keeps
an occurrence from reaching across it.

## Main statements

* `Text.before_append_cons` and `Text.after?_append_cons`: a search goes on behind a character that
  is not in the pattern when it has found nothing in front of it.
* `Text.line_induction`: a text is built from its last line by putting lines in front.
-/

namespace PascalTokens

namespace Text

variable {p a b x y t : Text} {c : Char}

/-! ## Before and after the first occurrence -/

@[simp] theorem before_nil : before p [] = [] := rfl

theorem before_cons : before p (c :: t) = if p <+: c :: t then [] else c :: before p t := by
  by_cases h : p <+: c :: t
  · simp [before, cut?, h]
  · cases hc : cut? p t <;> simp [before, cut?, h, hc]

@[simp] theorem after?_nil : after? p [] = none := rfl

theorem after?_cons :
    after? p (c :: t) = if p <+: c :: t then some ((c :: t).drop p.length) else after? p t := by
  by_cases h : p <+: c :: t
  · simp [after?, cut?, h]
  · cases hc : cut? p t <;> simp [after?, cut?, h, hc]

/-- What is cut off stands at the end. -/
theorem before_prefix (p t : Text) : before p t <+: t := by
  induction t with
  | nil => simp
  | cons c t ih =>
    rw [before_cons]
    split
    · exact List.nil_prefix
    · exact List.prefix_cons_inj c |>.2 ih

theorem eq_of_after?_eq_some {r : Text} (h : after? p t = some r) : ∃ s, t = s ++ p ++ r := by
  induction t with
  | nil => simp at h
  | cons c t ih =>
    rw [after?_cons] at h
    split at h
    · next hp =>
      obtain ⟨u, hu⟩ := hp
      rw [← hu, List.drop_left] at h
      exact ⟨[], by rw [← hu, Option.some.inj h]; simp⟩
    · obtain ⟨s, rfl⟩ := ih h
      exact ⟨c :: s, by simp⟩

/-- A search that has passed over `x` finds in the rest what it would find there alone. -/
theorem before_eq_of_append (h : before p (x ++ t) = x ++ a) : before p t = a := by
  induction x with
  | nil => simpa using h
  | cons c x ih =>
    rw [List.cons_append, before_cons] at h
    split at h
    · simp at h
    · exact ih (List.cons.inj h).2

/-- A search that has passed over `a` finds nothing in `a` alone. -/
theorem before_eq_self_of_append (h : before p (a ++ t) = a ++ b) : before p a = a := by
  induction a with
  | nil => rfl
  | cons c a ih =>
    rw [List.cons_append, before_cons] at h
    split at h
    · simp at h
    · next hp =>
      rw [before_cons, if_neg fun hca => hp (hca.trans (List.prefix_append _ _)),
        ih (List.cons.inj h).2]

theorem before_eq_self (h : ¬ p <:+: t) : before p t = t := by
  induction t with
  | nil => rfl
  | cons c t ih =>
    rw [List.infix_cons_iff, not_or] at h
    rw [before_cons, if_neg h.1, ih h.2]

/-- There is no occurrence before the first one. -/
theorem not_infix_before (hp : p ≠ []) (t : Text) : ¬ p <:+: before p t := by
  induction t with
  | nil => simpa using hp
  | cons c t ih =>
    rw [before_cons]
    split
    · simpa using hp
    · next hc =>
      rw [List.infix_cons_iff, not_or]
      have hstart : before p t <+: t := before_prefix p t
      refine ⟨fun h => hc (h.trans ?_), ih⟩
      exact List.prefix_cons_inj c |>.2 hstart

/-- An occurrence does not reach across a character that is not in the pattern. -/
theorem prefix_append_cons (hc : c ∉ p) : p <+: a ++ c :: b ↔ p <+: a := by
  refine ⟨fun h => ?_, fun h => h.trans (List.prefix_append _ _)⟩
  have hac : a ++ [c] <+: a ++ c :: b := ⟨b, by simp⟩
  rcases List.prefix_or_prefix_of_prefix h hac with h | h
  · rcases List.prefix_concat_iff.1 h with rfl | h
    · simp at hc
    · exact h
  · exact absurd (h.subset (by simp)) hc

theorem not_prefix_cons (hp : p ≠ []) (hc : c ∉ p) : ¬ p <+: c :: b := by
  intro h
  have hnil : p <+: [] := (prefix_append_cons (a := []) hc).1 h
  exact hp (List.prefix_nil.1 hnil)

theorem infix_append_cons (hp : p ≠ []) (hc : c ∉ p) :
    p <:+: a ++ c :: b ↔ p <:+: a ∨ p <:+: b := by
  induction a with
  | nil => simp [List.infix_cons_iff, not_prefix_cons hp hc, hp]
  | cons d a ih =>
    have h : p <+: d :: (a ++ c :: b) ↔ p <+: d :: a := prefix_append_cons (a := d :: a) hc
    rw [List.cons_append, List.infix_cons_iff, List.infix_cons_iff, ih, h, or_assoc]

theorem before_append_cons_of_infix (hp : p ≠ []) (hc : c ∉ p) (h : p <:+: a) (b : Text) :
    before p (a ++ c :: b) = before p a := by
  induction a with
  | nil => exact absurd (List.infix_nil.1 h) hp
  | cons d a ih =>
    have hd : p <+: d :: (a ++ c :: b) ↔ p <+: d :: a := prefix_append_cons (a := d :: a) hc
    rw [List.cons_append, before_cons, before_cons]
    by_cases hda : p <+: d :: a
    · rw [if_pos (hd.2 hda), if_pos hda]
    · rw [if_neg (mt hd.1 hda), if_neg hda, ih ((List.infix_cons_iff.1 h).resolve_left hda)]

theorem before_append_cons (hc : c ∉ p) (h : ¬ p <:+: a) (b : Text) :
    before p (a ++ c :: b) = a ++ c :: before p b := by
  have hp : p ≠ [] := by
    rintro rfl
    exact h List.nil_infix
  induction a with
  | nil => rw [List.nil_append, before_cons, if_neg (not_prefix_cons hp hc), List.nil_append]
  | cons d a ih =>
    rw [List.infix_cons_iff, not_or] at h
    have hd : ¬ p <+: d :: (a ++ c :: b) := by
      intro hd
      exact h.1 ((prefix_append_cons (a := d :: a) hc).1 hd)
    rw [List.cons_append, before_cons, if_neg hd, ih h.2, List.cons_append]

theorem after?_append_cons (hp : p ≠ []) (hc : c ∉ p) :
    after? p (a ++ c :: b) =
      match after? p a with
      | some r => some (r ++ c :: b)
      | none => after? p b := by
  induction a with
  | nil => simp [after?_cons, not_prefix_cons hp hc]
  | cons d a ih =>
    have h : p <+: d :: (a ++ c :: b) ↔ p <+: d :: a := prefix_append_cons (a := d :: a) hc
    rw [List.cons_append, after?_cons, after?_cons, ih]
    by_cases hd : p <+: d :: a
    · rw [if_pos (h.2 hd), if_pos hd, ← List.cons_append,
        List.drop_append_of_le_length hd.length_le]
    · rw [if_neg (mt h.1 hd), if_neg hd]

/-- The first occurrence is the one behind `a` if none ends before it does. -/
theorem after?_append (h : ¬ p <:+: a ++ p.dropLast) (b : Text) :
    after? p (a ++ p ++ b) = some b := by
  induction a with
  | nil =>
    cases p with
    | nil => simp at h
    | cons c p =>
      have hc : c :: p <+: c :: (p ++ b) := List.prefix_append (c :: p) b
      simp [after?_cons, hc]
  | cons c a ih =>
    rw [List.cons_append, List.infix_cons_iff, not_or] at h
    have hc : ¬ p <+: c :: (a ++ p ++ b) := by
      intro hc
      have hend : c :: (a ++ p.dropLast) <+: c :: (a ++ p ++ b) := by
        have hdropLast : p.dropLast <+: p := List.dropLast_prefix p
        rw [List.append_assoc, List.prefix_cons_inj, List.prefix_append_right_inj]
        exact hdropLast.trans (List.prefix_append p b)
      refine h.1 (List.prefix_of_prefix_length_le hc hend ?_)
      simp
      omega
    rw [List.cons_append, List.cons_append, after?_cons, if_neg hc, ih h.2]

theorem after?_eq_none (h : ¬ p <:+: t) : after? p t = none := by
  refine Option.eq_none_iff_forall_not_mem.2 fun r hr => h ?_
  obtain ⟨s, rfl⟩ := eq_of_after?_eq_some hr
  exact ⟨s, r, rfl⟩

/-- What an occurrence leaves of a text is left of it as well when the text is cut off later. -/
theorem after?_of_append {r : Text} (hp : p ≠ []) (h : after? p (a ++ b) = some (r ++ b)) :
    after? p a = some r := by
  induction a with
  | nil =>
    obtain ⟨s, hs⟩ := eq_of_after?_eq_some h
    have hlength := congrArg List.length hs
    have hpos := List.length_pos_iff.2 hp
    simp only [List.nil_append, List.length_append] at hlength
    omega
  | cons c a ih =>
    rw [List.cons_append, after?_cons] at h
    rw [after?_cons]
    split at h
    · next hca =>
      have hdrop : (c :: a ++ b).drop p.length = r ++ b := Option.some.inj h
      have hlength : p.length ≤ (c :: a).length := by
        have hle := hca.length_le
        have heq := congrArg List.length hdrop
        simp only [List.length_drop, List.length_append, List.length_cons] at heq hle ⊢
        omega
      rw [List.drop_append_of_le_length hlength, List.append_left_inj] at hdrop
      rw [if_pos (List.prefix_of_prefix_length_le hca (List.prefix_append _ _) hlength), hdrop]
    · next hca =>
      rw [if_neg fun hp => hca (hp.trans (List.prefix_append (c :: a) b)), ih h]

/-! ## Lines -/

/-- A text has no character that satisfies `p`, or it is a run without one, such a character, and
a shorter text. -/
theorem run_induction {p : Char → Bool} {motive : Text → Prop}
    (last : ∀ w, (∀ c ∈ w, p c = false) → motive w)
    (step : ∀ w c t, (∀ c ∈ w, p c = false) → p c → motive t → motive (w ++ c :: t)) (t : Text) :
    motive t := by
  -- The run in front of `t` has been read already; it is part of the text that `motive` is about.
  have key : ∀ t w, (∀ c ∈ w, p c = false) → motive (w ++ t) := by
    intro t
    induction t with
    | nil => intro w hw; simpa using last w hw
    | cons c t ih =>
      intro w hw
      cases hc : p c with
      | true => exact step w c t hw hc (ih [] (by simp))
      | false =>
        have hwc : ∀ d ∈ w ++ [c], p d = false := by
          intro d hd
          rcases List.mem_append.1 hd with hd | hd
          · exact hw d hd
          · rwa [List.mem_singleton.1 hd]
        simpa using ih (w ++ [c]) hwc
  exact key t [] (by simp)

theorem lines_eq_singleton (h : '\n' ∉ t) : lines t = [t] := List.splitOn_eq_singleton h

/-- A line feed ends the line before it. -/
theorem lines_append_cons (a b : Text) : lines (a ++ '\n' :: b) = lines a ++ lines b :=
  List.splitOn_append_cons_self ..

theorem lines_append_newline (h : '\n' ∉ a) (b : Text) : lines (a ++ '\n' :: b) = a :: lines b :=
  List.splitOn_append_cons_self_of_not_mem h b

/-- A text is its only line, or it is a first line, a line feed and a shorter text. -/
theorem line_induction {motive : Text → Prop} (last : ∀ a, '\n' ∉ a → motive a)
    (step : ∀ a t, '\n' ∉ a → motive t → motive (a ++ '\n' :: t)) (t : Text) : motive t := by
  refine run_induction (p := (· == '\n')) (fun a ha => last a ?_) (fun a c t ha hc ht => ?_) t
  · intro hm
    simpa using ha _ hm
  · obtain rfl : c = '\n' := by simpa using hc
    exact step a t (fun hm => by simpa using ha _ hm) ht

theorem length_lines (t : Text) : (lines t).length = t.count '\n' + 1 := by
  induction t using line_induction with
  | last a ha => simp [lines_eq_singleton ha, List.count_eq_zero.2 ha]
  | step a t ha ih => simp [lines_append_newline ha, List.count_eq_zero.2 ha, ih]

theorem lines_ne_nil (t : Text) : lines t ≠ [] := by
  intro h
  simpa [h] using length_lines t

theorem mem_of_mem_lines (h : a ∈ lines t) (hc : c ∈ a) : c ∈ t := by
  induction t using line_induction with
  | last b hb =>
    rw [lines_eq_singleton hb, List.mem_singleton] at h
    rwa [← h]
  | step b t hb ih =>
    rw [lines_append_newline hb, List.mem_cons] at h
    rcases h with rfl | h
    · simp [hc]
    · simp [ih h]

/-- What stands before the first line feed. -/
def firstLine (t : Text) : Text := t.takeWhile (· ≠ '\n')

theorem firstLine_append (h : '\n' ∉ a) (b : Text) : firstLine (a ++ b) = a ++ firstLine b :=
  List.takeWhile_append_of_pos fun c hc => by
    have hne : c ≠ '\n' := fun heq => h (heq ▸ hc)
    simpa using hne

theorem firstLine_eq_self (h : '\n' ∉ t) : firstLine t = t := by
  simpa [firstLine] using firstLine_append h []

/-- A text that begins on the line of another one makes the first line of it longer. -/
theorem lines_append (h : '\n' ∉ a) (b : Text) :
    lines (a ++ b) = (a ++ firstLine b) :: (lines b).tail := by
  induction b using line_induction with
  | last x hx =>
    have hax : '\n' ∉ a ++ x := by simp [h, hx]
    rw [lines_eq_singleton hax, lines_eq_singleton hx, firstLine_eq_self hx]
    rfl
  | step x t hx _ =>
    have hax : '\n' ∉ a ++ x := by simp [h, hx]
    rw [← List.append_assoc, lines_append_newline hax, lines_append_newline hx,
      firstLine_append hx]
    simp [firstLine]

theorem lines_eq_cons (t : Text) : lines t = firstLine t :: (lines t).tail := by
  simpa using lines_append (a := []) (by simp) t

/-- What stands behind the last line feed. -/
def lastLine (t : Text) : Text := (lines t).getLast (lines_ne_nil t)

theorem dropLast_concat_lastLine (t : Text) : (lines t).dropLast ++ [lastLine t] = lines t :=
  List.dropLast_concat_getLast (lines_ne_nil t)

/-- The last line of a text goes on with the first line of the text behind it. -/
theorem lines_append_lines (a b : Text) :
    lines (a ++ b) = (lines a).dropLast ++ (lastLine a ++ firstLine b) :: (lines b).tail := by
  induction a using line_induction with
  | last a ha => simp [lastLine, lines_append ha, lines_eq_singleton ha]
  | step a t ha ih =>
    have hlast : lastLine (a ++ '\n' :: t) = lastLine t := by
      simp [lastLine, lines_append_newline ha, List.getLast_cons (lines_ne_nil t)]
    rw [hlast, List.append_assoc, List.cons_append, lines_append_newline ha, ih,
      lines_append_newline ha, List.dropLast_cons_of_ne_nil (lines_ne_nil t), List.cons_append]

theorem mem_of_mem_head?_firstLine (h : c ∈ (firstLine t).head?) : c ∈ t.head? := by
  cases t with
  | nil => exact h
  | cons d t =>
    rw [firstLine, List.takeWhile_cons] at h
    split at h
    · exact h
    · simp at h

end Text

end PascalTokens
