import Mathlib.Data.List.DropRight
import PascalTokens.Proofs.Text.Join

/-!
# Texts that stay on their line

A line feed is not the only character that ends a line. All of those that do are blanks, so a text
in which no blank stands but the space is never broken, wherever lines are split. The spaces that
pad a text to a column are dropped again from its end, together with those it had there itself.

## Main definitions

* `Text.splitLines` splits a text at all line boundaries.
* `Text.Flat` says that the only blank in a text is the space.
* `Text.Trimmed` says that a text does not end with a blank.

## Main statements

* `Text.splitLines_flatMap`: flat lines that are each ended by a line feed are found again.
* `Text.trimSpaces_padEnd`: padding does not matter to what is left without spaces at the end.
-/

namespace PascalTokens

namespace Text

variable {a b t rest : Text} {c : Char} {p : Char → Bool} {width : Nat}

/-! ## Line boundaries -/

/-- The characters that end a line: line feed, vertical tab, form feed, carriage return, the
separators of files, groups and records, and the line boundaries beyond ASCII. -/
def isLineBreak (c : Char) : Bool :=
  let n := c.toNat
  (10 ≤ n && n ≤ 13) || (28 ≤ n && n ≤ 30) || n == 0x85 || n == 0x2028 || n == 0x2029

/-- The lines of a text, without what ends them. A carriage return and the line feed behind it end
one line, and nothing is a line that stands behind the last end and is empty. -/
def splitLines : Text → List Text
  | [] => []
  | '\r' :: '\n' :: rest => [] :: splitLines rest
  | c :: rest =>
    if isLineBreak c then [] :: splitLines rest
    else
      match splitLines rest with
      | [] => [[c]]
      | line :: lines => (c :: line) :: lines

example : splitLines "a\r\n\n\x0Bb\r".toList = ["a".toList, [], [], "b".toList] := by decide

/-- The only blank in the text is the space. -/
def Flat (t : Text) : Prop := ∀ c ∈ t, isBlank c → c = ' '

instance (t : Text) : Decidable (Solid t) :=
  decidable_of_iff (t.all (!isBlank ·)) (by simp [Solid])

instance (t : Text) : Decidable (Flat t) :=
  decidable_of_iff (t.all fun c => !isBlank c || c == ' ') (by simp [Flat, or_iff_not_imp_left])

theorem isBlank_of_isLineBreak (h : isLineBreak c) : isBlank c := by
  simp only [isLineBreak, isBlank, Bool.or_eq_true, Bool.and_eq_true, decide_eq_true_eq,
    beq_iff_eq] at h ⊢
  omega

theorem Flat.isLineBreak (h : Flat t) (hc : c ∈ t) : isLineBreak c = false := by
  by_contra hbreak
  rw [Bool.not_eq_false] at hbreak
  obtain rfl := h c hc (isBlank_of_isLineBreak hbreak)
  exact absurd hbreak (by decide)

theorem Solid.flat (h : Solid t) : Flat t := by
  intro c hc hblank
  simp [h c hc] at hblank

@[simp] theorem flat_append : Flat (a ++ b) ↔ Flat a ∧ Flat b := by
  simp only [Flat, List.forall_mem_append]

@[simp] theorem flat_cons : Flat (c :: t) ↔ (isBlank c → c = ' ') ∧ Flat t := by
  simp [Flat]

theorem splitLines_cons (hc : isLineBreak c = false) :
    splitLines (c :: t) = (c :: (splitLines t).headD []) :: (splitLines t).tail := by
  have hreturn : c ≠ '\r' := by
    rintro rfl
    exact absurd hc (by decide)
  rw [splitLines, hc]
  · cases splitLines t <;> rfl
  · exact fun _ h _ => hreturn h

theorem splitLines_newline (t : Text) : splitLines ('\n' :: t) = [] :: splitLines t := by
  rw [splitLines]
  · rfl
  · simp

theorem Flat.splitLines_append (h : Flat t) (rest : Text) :
    splitLines (t ++ '\n' :: rest) = t :: splitLines rest := by
  induction t with
  | nil => exact splitLines_newline rest
  | cons c t ih =>
    have hc := h.isLineBreak List.mem_cons_self
    rw [List.cons_append, splitLines_cons hc, ih (flat_cons.1 h).2]
    rfl

/-- Lines with no blank but the space, each ended by a line feed, split back. -/
theorem splitLines_flatMap {lines : List Text} (h : ∀ t ∈ lines, Flat t) :
    splitLines (lines.flatMap (· ++ ['\n'])) = lines := by
  induction lines with
  | nil => rfl
  | cons t lines ih =>
    obtain ⟨ht, h⟩ := List.forall_mem_cons.1 h
    rw [List.flatMap_cons, List.append_assoc, List.singleton_append, ht.splitLines_append, ih h]

/-! ## Padding -/

/-- The text without the spaces at its end. -/
def trimSpaces (t : Text) : Text := dropEndWhile (· = ' ') t

/-- The text does not end with a blank. -/
def Trimmed (t : Text) : Prop := ∀ c ∈ t.getLast?, isBlank c = false

theorem dropEndWhile_append_of_forall (h : ∀ c ∈ b, p c) :
    dropEndWhile p (a ++ b) = dropEndWhile p a := by
  rw [dropEndWhile, List.reverse_append, List.dropWhile_append_of_pos, dropEndWhile]
  simpa using h

theorem Trimmed.dropEndWhile_eq (h : Trimmed t) (hp : ∀ c, p c → isBlank c) :
    dropEndWhile p t = t := by
  refine List.rdropWhile_eq_self_iff.2 fun hne hlast => ?_
  have hblank := h _ (List.getLast?_eq_getLast_of_ne_nil hne)
  simp [hp _ hlast] at hblank

theorem Trimmed.trimSpaces_eq (h : Trimmed t) : trimSpaces t = t :=
  h.dropEndWhile_eq fun c hc => by
    obtain rfl : c = ' ' := by simpa using hc
    decide

/-- A text that ends with a word does not end with a blank. -/
theorem IsWord.trimmed_append (h : IsWord b) (a : Text) : Trimmed (a ++ b) := by
  intro c hc
  rw [List.getLast?_append_of_ne_nil a h.ne_nil] at hc
  exact h.solid c (List.mem_of_getLast? hc)

theorem IsWord.trimmed (h : IsWord t) : Trimmed t := h.trimmed_append []

theorem trimmed_join {ws : List Text} (hne : ws ≠ []) (h : ∀ w ∈ ws, IsWord w) :
    Trimmed (join [' '] ws) := by
  obtain ⟨before, w, rfl⟩ := (List.eq_nil_or_concat ws).resolve_left hne
  have hsplit := join_concat_append ' ' before [] w
  rw [List.concat_eq_append, ← List.nil_append w, hsplit]
  exact (h w (by simp)).trimmed_append _

/-- Of a text with at most one blank at its end, and that a space, only this one is dropped. -/
theorem Trimmed.trimSpaces_eq_dropFinal (h : Trimmed a) (ht : t = a ∨ t = a ++ [' ']) :
    trimSpaces t = dropFinal ' ' t := by
  have htrim : trimSpaces t = a := by
    rcases ht with rfl | rfl
    · exact h.trimSpaces_eq
    · rw [trimSpaces, dropEndWhile_append_of_forall (by simp)]
      exact h.trimSpaces_eq
  rw [htrim, dropFinal]
  rcases ht with rfl | rfl
  · rw [if_neg]
    intro hlast
    exact absurd (h ' ' hlast) (by decide)
  · rw [if_pos (List.getLast?_concat ..), List.dropLast_concat]

theorem padEnd_eq (width : Nat) (t : Text) :
    padEnd width t = t ++ List.replicate (width - t.length) ' ' :=
  rfl

theorem padEnd_eq_self (h : width ≤ t.length) : padEnd width t = t := by
  rw [padEnd_eq, Nat.sub_eq_zero_of_le h, List.replicate_zero, List.append_nil]

theorem length_padEnd (h : t.length ≤ width) : (padEnd width t).length = width := by
  rw [padEnd_eq, List.length_append, List.length_replicate]
  omega

theorem Flat.padEnd (h : Flat t) (width : Nat) : Flat (padEnd width t) := by
  rw [padEnd_eq, flat_append]
  refine ⟨h, fun c hc _ => ?_⟩
  exact List.eq_of_mem_replicate hc

theorem trimSpaces_padEnd (width : Nat) (t : Text) : trimSpaces (padEnd width t) = trimSpaces t :=
  dropEndWhile_append_of_forall fun c hc => by simp [List.eq_of_mem_replicate hc]

end Text

end PascalTokens
