import PascalTokens.Proofs.Scan.Progress
import PascalTokens.Proofs.Spacing.Words

/-!
# A line is read through its words

Of a line only the words before its line comment count, and not the blanks around them. This is
so between constructs, in a string literal, and in a block comment that may close within a word.

## Main definitions

* `lineWords` gives the words of a line before its line comment.
* `State.Uncommented` lists what can be left of a line without its comments.
* `State.beginWords` begins a line that is given by these words.

## Main statements

* `State.beginLine_eq_beginWords`: beginning a line is beginning its words.
* `drain_eq_lines`: the carriage returns at line ends need not be dropped.
-/

namespace PascalTokens

namespace Scan

/-- The words of a line before its line comment. -/
def lineWords (line : Text) : List Text := Text.words (Text.before Symbol.lineComment line)

/-- The words that are left after the first closing mark of a block comment. -/
def afterClosing? : List Text → Option (List Text)
  | [] => none
  | w :: rest =>
    match Text.after? Symbol.commentClosing w with
    | some t => some (Text.words t ++ rest)
    | none => afterClosing? rest

theorem afterClosing?_words (t : Text) :
    afterClosing? (Text.words t) = (Text.after? Symbol.commentClosing t).map Text.words := by
  induction t using Text.blank_induction with
  | solid w hw =>
    rw [hw.words_eq]
    split
    · next h => simp [h, afterClosing?]
    · cases h : Text.after? Symbol.commentClosing w <;> simp [afterClosing?, h]
  | step w c t hw hc ih =>
    have hmark : c ∉ Symbol.commentClosing := by
      intro h
      apply Symbol.notMem_punctuation_of_isBlank hc
      exact Symbol.mem_punctuation_of_mem_all (by decide) h
    rw [Text.words_append_blank w t hc, Text.after?_append_cons (by decide) hmark, hw.words_eq]
    split
    · next h => simp [h, ih]
    · cases h : Text.after? Symbol.commentClosing w with
      | none => simp [afterClosing?, h, ih]
      | some r => simp [afterClosing?, h, Text.words_append_blank r t hc]

namespace State

/-- What can be left of a line without its comments: what stands before the line comment, or, if a
block comment is open, what follows its closing mark there. -/
inductive Uncommented (s : State) (line : Text) : State × Option Text → Prop where
  | kept (hmode : s.mode ≠ .comment) :
      Uncommented s line (s, some (Text.before Symbol.lineComment line))
  | resumed (rest : Text) (hmode : s.mode = .comment)
      (hafter :
        Text.after? Symbol.commentClosing (Text.before Symbol.lineComment line) = some rest) :
      Uncommented s line ({ s with mode := .normal }, some rest)
  | skipped (hmode : s.mode = .comment)
      (hafter : Text.after? Symbol.commentClosing (Text.before Symbol.lineComment line) = none) :
      Uncommented s line (s, none)

theorem uncomment_of_ne {s : State} (hmode : s.mode ≠ .comment) (line : Text) :
    s.uncomment line = (s, some (Text.before Symbol.lineComment line)) := by
  simp [uncomment, hmode]

theorem uncomment_of_after? {s : State} {line rest : Text} (hmode : s.mode = .comment)
    (hafter : Text.after? Symbol.commentClosing (Text.before Symbol.lineComment line) = some rest) :
    s.uncomment line = ({ s with mode := .normal }, some rest) := by
  simp [uncomment, hmode, hafter]

theorem uncommented (s : State) (line : Text) : Uncommented s line (s.uncomment line) := by
  by_cases hmode : s.mode = .comment
  · cases hafter : Text.after? Symbol.commentClosing (Text.before Symbol.lineComment line) with
    | some rest =>
      rw [uncomment_of_after? hmode hafter]
      exact .resumed rest hmode hafter
    | none =>
      have hnone : s.uncomment line = (s, none) := by simp [uncomment, hmode, hafter]
      rw [hnone]
      exact .skipped hmode hafter
  · rw [uncomment_of_ne hmode]
    exact .kept hmode

/-- Begin line number `number`, of which the words before its line comment are given. -/
def beginWords (s : State) (number : Int) (ws : List Text) : State × List Text :=
  let s := { s with line := number }
  if s.mode = .comment then
    match afterClosing? ws with
    | some ws => ({ s with mode := .normal }, Spacing.respace (Quotes.atStart false) ws)
    | none => (s, [])
  else (s, Spacing.respace (Quotes.atStart (s.mode = .string)) ws)

theorem beginLine_eq_beginWords (s : State) (number : Int) (line : Text) :
    s.beginLine number line = s.beginWords number (lineWords line) := by
  by_cases hs : s.mode = .comment
  · simp only [beginLine, beginWords, uncomment, lineWords, afterClosing?_words, hs, if_true]
    cases h : Text.after? Symbol.commentClosing (Text.before Symbol.lineComment line) <;>
      simp [wordsOf, Spacing.words_pad_eq_respace]
  · simp [beginLine, beginWords, uncomment, lineWords, hs, wordsOf, Spacing.words_pad_eq_respace]

end State

theorem lineWords_dropFinal (line : Text) :
    lineWords (Text.dropFinal '\r' line) = lineWords line := by
  unfold Text.dropFinal
  split
  · next h =>
    obtain ⟨a, rfl⟩ := List.getLast?_eq_some_iff.1 h
    rw [List.dropLast_concat, lineWords, lineWords]
    by_cases ha : Symbol.lineComment <:+: a
    · rw [Text.before_append_cons_of_infix (by decide) (by decide) ha]
    · rw [Text.before_append_cons (by decide) ha, Text.before_eq_self ha, Text.before_nil,
        Text.words_concat_blank a (by decide)]
  · rfl

/-- Lines may be scanned with the carriage returns at their ends. -/
theorem scanLines_dropFinal (setting : Setting) (s : State) (n : Int) (lines : List Text) :
    s.scanLines setting n (lines.map (Text.dropFinal '\r')) = s.scanLines setting n lines := by
  induction lines generalizing s n with
  | nil => rfl
  | cons line rest ih =>
    simp only [List.map_cons, State.scanLines_cons, State.beginLine_eq_beginWords,
      lineWords_dropFinal, ih]

theorem drain_eq_lines (setting : Setting) (source : Text) :
    drain setting source =
      (State.initial.scanLines setting 1 (Text.lines source)).drain setting := by
  rw [drain_eq_scanLines, sourceLines, scanLines_dropFinal]

end Scan

end PascalTokens
