import PascalTokens.Proofs.Text.Cut
import PascalTokens.Text.Blank

/-!
# The words of a text

Everything about words follows from two equations: a blank ends the word before it, and a text
without blanks is one word or none.

## Main statements

* `Text.words_append_blank`: the words of a text are those before a blank and those after it.
* `Text.blank_induction`: a text is built from its end by putting a run without blanks and then a
  blank in front.
-/

namespace PascalTokens

namespace Text

/-- No character of the text is a blank. -/
def Solid (t : Text) : Prop := ∀ c ∈ t, isBlank c = false

/-- The text is one word. -/
structure IsWord (w : Text) : Prop where
  ne_nil : w ≠ []
  solid : Solid w

/-- The text without its blanks. -/
def dropBlanks (t : Text) : Text := t.filter (!isBlank ·)

/-- The text without its spaces. -/
def dropSpaces (t : Text) : Text := t.filter (· ≠ ' ')

section Solid

variable {a b t : Text} {c : Char}

@[simp] theorem solid_nil : Solid [] := by simp [Solid]

@[simp] theorem solid_cons : Solid (c :: t) ↔ isBlank c = false ∧ Solid t := by simp [Solid]

@[simp] theorem solid_append : Solid (a ++ b) ↔ Solid a ∧ Solid b := by
  simp only [Solid, List.forall_mem_append]

theorem Solid.newline_notMem (h : Solid t) : '\n' ∉ t := by
  intro hm
  simpa [isBlank] using h _ hm

@[simp] theorem dropBlanks_nil : dropBlanks [] = [] := rfl

@[simp] theorem dropBlanks_append : dropBlanks (a ++ b) = dropBlanks a ++ dropBlanks b :=
  List.filter_append ..

theorem dropBlanks_cons_blank (hc : isBlank c) : dropBlanks (c :: t) = dropBlanks t := by
  simp [dropBlanks, hc]

theorem Solid.dropBlanks_eq (h : Solid t) : dropBlanks t = t :=
  List.filter_eq_self.2 fun c hc => by simp [h c hc]

@[simp] theorem dropSpaces_append : dropSpaces (a ++ b) = dropSpaces a ++ dropSpaces b :=
  List.filter_append ..

@[simp] theorem dropSpaces_cons_space : dropSpaces (' ' :: t) = dropSpaces t := rfl

theorem Solid.dropSpaces_eq (h : Solid t) : dropSpaces t = t :=
  List.filter_eq_self.2 fun c hc => by
    have hne : c ≠ ' ' := by
      rintro rfl
      simpa [isBlank] using h _ hc
    simp [hne]

end Solid

section Words

variable {w t : Text} {c : Char}

@[simp] theorem words_nil : words [] = [] := by simp [words]

/-- A blank ends the word before it, and begins none. -/
theorem words_append_blank (a b : Text) (hc : isBlank c) :
    words (a ++ c :: b) = words a ++ words b := by
  simp only [words, List.splitOnP_append_cons a b hc, List.filter_append]

theorem words_cons_blank (t : Text) (hc : isBlank c) : words (c :: t) = words t := by
  simpa using words_append_blank [] t hc

theorem words_concat_blank (t : Text) (hc : isBlank c) : words (t ++ [c]) = words t := by
  simpa using words_append_blank t [] hc

theorem Solid.words_eq (h : Solid t) : words t = if t = [] then [] else [t] := by
  rw [words, List.splitOnP_eq_singleton h]
  split <;> simp_all

theorem IsWord.words_eq (h : IsWord w) : words w = [w] := by
  rw [h.solid.words_eq, if_neg h.ne_nil]

/-- A text is free of blanks, or it is a run without blanks, a blank, and a shorter text. -/
theorem blank_induction {motive : Text → Prop} (solid : ∀ w, Solid w → motive w)
    (step : ∀ w c t, Solid w → isBlank c → motive t → motive (w ++ c :: t)) (t : Text) :
    motive t :=
  run_induction solid step t

theorem isWord_of_mem_words (h : w ∈ words t) : IsWord w := by
  induction t using blank_induction with
  | solid a ha =>
    rw [ha.words_eq] at h
    split at h
    · simp at h
    · next hne =>
      obtain rfl : w = a := by simpa using h
      exact ⟨hne, ha⟩
  | step a c t ha hc ih =>
    rw [words_append_blank a t hc, List.mem_append, ha.words_eq] at h
    rcases h with h | h
    · split at h
      · simp at h
      · next hne =>
        obtain rfl : w = a := by simpa using h
        exact ⟨hne, ha⟩
    · exact ih h

theorem mem_of_mem_words (h : w ∈ words t) (hc : c ∈ w) : c ∈ t := by
  induction t using blank_induction with
  | solid a ha =>
    rw [ha.words_eq] at h
    split at h <;> simp_all
  | step a d t ha hd ih =>
    rw [words_append_blank a t hd, List.mem_append, ha.words_eq] at h
    rcases h with h | h
    · split at h <;> simp_all
    · simp [ih h]

theorem infix_of_mem_words (h : w ∈ words t) : w <:+: t := by
  induction t using blank_induction with
  | solid a ha =>
    rw [ha.words_eq] at h
    split at h <;> simp_all
  | step a d t ha hd ih =>
    rw [words_append_blank a t hd, List.mem_append, ha.words_eq] at h
    rcases h with h | h
    · have hwa : w = a := by
        split at h <;> simp_all
      rw [hwa]
      exact (List.prefix_append _ _).isInfix
    · exact (ih h).trans ((List.suffix_cons d t).trans (List.suffix_append a _)).isInfix

/-- A text leaves a last word that what follows may go on with, unless it ends with a blank. -/
theorem exists_words_append (t : Text) :
    ∃ done last, Solid last ∧ (last = [] ↔ ∀ c ∈ t.getLast?, isBlank c) ∧
      ∀ u, words (t ++ u) = done ++ words (last ++ u) := by
  induction t using blank_induction with
  | solid w hw =>
    refine ⟨[], w, hw, ⟨?_, ?_⟩, fun _ => rfl⟩
    · rintro rfl
      simp
    · intro h
      refine List.getLast?_eq_none_iff.1 (Option.eq_none_iff_forall_not_mem.2 fun c hc => ?_)
      have hblank := hw c (List.mem_of_getLast? hc)
      simp [h c hc] at hblank
  | step w c t hw hc ih =>
    obtain ⟨done, last, hlast, hend, heq⟩ := ih
    refine ⟨words w ++ done, last, hlast, ?_, fun u => ?_⟩
    · rw [hend, List.getLast?_append, List.getLast?_cons]
      cases t.getLast? <;> simp [hc]
    · rw [List.append_assoc, List.cons_append, words_append_blank w _ hc, heq, List.append_assoc]

end Words

end Text

end PascalTokens
