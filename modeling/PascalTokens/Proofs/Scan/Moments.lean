import PascalTokens.Proofs.Scan.Opening

/-!
# The moments of a scan

A scan goes from moment to moment: it begins a line, or it dispatches one word. At every moment the
mode says whether text is being collected, and what is open was opened by a word that was
dispatched earlier, since when the scan has given no token.

## Main definitions

* `Moment` is a scan under way: what it has come to, and what is left to read.
* `Moment.next?` makes one step, and `momentAfter` makes several from the beginning of a source.
* `Moment.Opened` says which word opened what is open, and what was dispatched since.
* `Moment.Consistent` says how the state, the words and the tokens of a moment belong together.

## Main statements

* `Moment.Consistent.next`: a step keeps a moment consistent.
* `drain_eq_completed`: a drain goes through the moments of its source.
* `momentAfter_consistent`: what holds at every moment.
-/

namespace PascalTokens

namespace Scan

/-- A scan under way: what it has come to, the words it has dispatched, the words that are left of
its line, and the lines after it with the number of the first. -/
structure Moment where
  done : Progress
  read : List Text
  words : List Text
  number : Int
  lines : List Text
  deriving DecidableEq

namespace Moment

/-- Before the first line. -/
def start (source : Text) : Moment := ⟨⟨.initial, [], none⟩, [], [], 1, sourceLines source⟩

def state (m : Moment) : State := m.done.state

def tokens (m : Moment) : List Token := m.done.tokens

/-- Dispatch the next word, or begin the next line if no word is left. There is no next moment after
a failure and behind the last line. -/
def next? (setting : Setting) (m : Moment) : Option Moment :=
  match m.done.failure, m.words, m.lines with
  | some _, _, _ => none
  | none, w :: ws, lines =>
    some ⟨m.done.andThen fun s => .ofStep (s.scanWord setting w), m.read ++ [w], ws, m.number,
      lines⟩
  | none, [], line :: lines =>
    let (s, ws) := m.state.beginLine m.number line
    some ⟨⟨s, m.tokens, none⟩, m.read, ws, m.number + 1, lines⟩
  | none, [], [] => none

/-- What the scan comes to when it goes on to the end of the lines. -/
def completed (setting : Setting) (m : Moment) : Progress :=
  m.done.andThen fun s => (s.scanWords setting m.words).andThen fun s =>
    s.scanLines setting m.number m.lines

/-- The two ways to the next moment. -/
inductive Step (setting : Setting) : Moment → Moment → Prop where
  | line (s : State) (ts : List Token) (read : List Text) (n : Int) (line : Text)
      (lines : List Text) :
      Step setting ⟨⟨s, ts, none⟩, read, [], n, line :: lines⟩
        ⟨⟨(s.beginLine n line).1, ts, none⟩, read, (s.beginLine n line).2, n + 1, lines⟩
  | word (s : State) (ts : List Token) (read : List Text) (w : Text) (ws : List Text) (n : Int)
      (lines : List Text) :
      Step setting ⟨⟨s, ts, none⟩, read, w :: ws, n, lines⟩
        ⟨(Progress.ofStep (s.scanWord setting w)).prepend ts, read ++ [w], ws, n, lines⟩

variable {setting : Setting} {source : Text} {m m' earlier : Moment}

theorem step_of_next? (h : m.next? setting = some m') : Step setting m m' := by
  obtain ⟨⟨s, ts, failure⟩, read, words, n, lines⟩ := m
  cases failure with
  | some e => cases h
  | none =>
    cases words with
    | cons w ws =>
      cases h
      exact .word s ts read w ws n lines
    | nil =>
      cases lines with
      | nil => cases h
      | cons line lines =>
        cases h
        exact .line s ts read n line lines

/-- A step leads nowhere else than the scan does. -/
theorem Step.completed_eq (h : Step setting m m') : m'.completed setting = m.completed setting := by
  cases h with
  | line s ts read n line lines =>
    simp only [completed, Progress.andThen_ok, State.scanWords_nil, Progress.prepend_nil,
      State.scanLines_cons]
  | word s ts read w ws n lines =>
    simp only [completed, Progress.andThen_ok, Progress.andThen_prepend, State.scanWords_cons,
      Progress.andThen_assoc]

end Moment

/-- The moment after `k` steps, if the scan goes on as far. -/
def momentAfter (setting : Setting) (source : Text) : Nat → Option Moment
  | 0 => some (.start source)
  | k + 1 => (momentAfter setting source k).bind (Moment.next? setting)

variable {setting : Setting} {source : Text} {m m' earlier : Moment} {k : Nat}

/-- What every step keeps holds at every moment. -/
theorem momentAfter_induction {P : Nat → Moment → Prop} (start : P 0 (.start source))
    (next : ∀ {k m m'}, momentAfter setting source k = some m → m.Step setting m' → P k m →
      P (k + 1) m')
    (h : momentAfter setting source k = some m) : P k m := by
  induction k generalizing m with
  | zero =>
    cases h
    exact start
  | succ k ih =>
    obtain ⟨r, hr, hnext⟩ := Option.bind_eq_some_iff.1 h
    exact next hr (Moment.step_of_next? hnext) (ih hr)

/-- A drain goes through the moments of its source. -/
theorem drain_eq_completed (h : momentAfter setting source k = some m) :
    drain setting source = (m.completed setting).drain setting := by
  have hcompleted : m.completed setting = (Moment.start source).completed setting :=
    momentAfter_induction (P := fun _ m => m.completed setting = _) rfl
      (fun _ hstep ih => hstep.completed_eq.trans ih) h
  rw [hcompleted]
  exact drain_eq_scanLines setting source

namespace Moment

/-! ## Lines -/

/-- The scan is on the line before the next one, and it has words only on a line. -/
structure Numbered (m : Moment) : Prop where
  number_eq : m.number = m.state.line + 1
  line_nonneg : 0 ≤ m.state.line
  one_le_line : m.words ≠ [] → 1 ≤ m.state.line

theorem numbered_start (source : Text) : (start source).Numbered :=
  ⟨rfl, Int.le_refl 0, fun h => absurd rfl h⟩

theorem Step.numbered (hstep : Step setting m m') (h : m.Numbered) : m'.Numbered := by
  have hline := h.line_nonneg
  have hnumber := h.number_eq
  cases hstep with
  | line s ts read n line lines =>
    have hn := s.line_beginLine n line
    simp only [state] at hline hnumber
    refine ⟨?_, ?_, fun _ => ?_⟩ <;> simp only [state, hn] <;> omega
  | word s ts read w ws n lines =>
    have hone := h.one_le_line (by simp)
    have hsame := (s.lines_scanWord setting w).1
    simp only [state] at hone hnumber
    refine ⟨?_, ?_, fun _ => ?_⟩ <;>
      simp only [state, Progress.prepend, Progress.state_ofStep, hsame] <;> omega

/-! ## What is open -/

/-- The construct that is open was opened by the word `w`, which came next at the moment `earlier`
between constructs. The words `since` have been dispatched after it, and no token has come. -/
structure Opened (setting : Setting) (source : Text) (construct : Construct) (k : Nat)
    (m earlier : Moment) (w : Text) (since : List Text) : Prop where
  reached : ∃ j < k, momentAfter setting source j = some earlier
  mode_eq : earlier.state.mode = .normal
  head_eq : earlier.words.head? = some w
  read_eq : m.read = earlier.read ++ w :: since
  tokens_eq : m.tokens = earlier.tokens
  start_eq : m.state.start construct = earlier.state.line
  one_le : 1 ≤ earlier.state.line
  le_line : earlier.state.line ≤ m.state.line

variable {construct : Construct} {w : Text} {since more : List Text}

/-- What was open stays open when words are dispatched, but neither a token comes nor a construct of
its kind is opened. -/
theorem Opened.next (h : Opened setting source construct k m earlier w since)
    (hread : m'.read = m.read ++ more) (htokens : m'.tokens = m.tokens)
    (hstart : m'.state.start construct = m.state.start construct)
    (hline : m.state.line ≤ m'.state.line) :
    Opened setting source construct (k + 1) m' earlier w (since ++ more) where
  reached := by
    obtain ⟨j, hj, hreached⟩ := h.reached
    exact ⟨j, by omega, hreached⟩
  mode_eq := h.mode_eq
  head_eq := h.head_eq
  read_eq := by rw [hread, h.read_eq, List.append_assoc, List.cons_append]
  tokens_eq := htokens.trans h.tokens_eq
  start_eq := hstart.trans h.start_eq
  one_le := h.one_le
  le_line := Int.le_trans h.le_line hline

/-- A word opens a construct. -/
theorem opened_word (hreached : momentAfter setting source k = some m) (hnumbered : m.Numbered)
    (hmode : m.state.mode = .normal) (hwords : m.words.head? = some w)
    (hread : m'.read = m.read ++ [w]) (htokens : m'.tokens = m.tokens)
    (hstart : m'.state.start construct = m.state.line) (hline : m'.state.line = m.state.line) :
    Opened setting source construct (k + 1) m' m w [] where
  reached := ⟨k, by omega, hreached⟩
  mode_eq := hmode
  head_eq := hwords
  read_eq := hread
  tokens_eq := htokens
  start_eq := hstart
  one_le := hnumbered.one_le_line (by rintro hnil; simp [hnil] at hwords)
  le_line := Int.le_of_eq hline.symm

/-- The text that words add to an open literal. -/
def collected (ws : List Text) : Text := ws.flatMap (' ' :: ·)

/-- Text is there if and only if a literal is open, and it is what the words have given since the
literal was opened; an open comment was opened by a word as well. -/
structure Consistent (setting : Setting) (source : Text) (k : Nat) (m : Moment) : Prop where
  text_iff : m.state.mode = .string ↔ m.state.buffer.text ≠ []
  string : m.state.mode = .string → ∃ earlier w seed since,
    Opened setting source .stringLiteral k m earlier w since ∧ Word.stringSeed? w = some seed ∧
      m.state.buffer.text = seed ++ collected since
  comment : m.state.mode = .comment → ∃ earlier w since,
    Opened setting source .blockComment k m earlier w since ∧ Word.commentLeftOpen? w = some true

theorem ne_nil_of_stringSeed? {seed : Text} (h : Word.stringSeed? w = some seed) : seed ≠ [] := by
  rintro rfl
  obtain rfl := State.eq_of_stringSeed? h
  simp [Word.stringSeed?, Word.opensString] at h

theorem consistent_of_normal (hmode : m.state.mode = .normal) (htext : m.state.buffer.text = []) :
    Consistent setting source k m :=
  ⟨by simp [hmode, htext], by simp [hmode], by simp [hmode]⟩

theorem consistent_start (source : Text) : Consistent setting source 0 (start source) :=
  consistent_of_normal rfl rfl

variable {s : State} {ts : List Token} {read ws lines : List Text} {line : Text} {n : Int}

theorem Consistent.text_eq_nil (h : Consistent setting source k m)
    (hmode : m.state.mode ≠ .string) : m.state.buffer.text = [] := by
  by_contra hne
  exact hmode (h.text_iff.2 hne)

/-- To begin a line opens nothing. -/
theorem Opened.beginLine
    (h : Opened setting source construct k ⟨⟨s, ts, none⟩, read, [], n, line :: lines⟩ earlier w
      since) (hline : s.line ≤ n) :
    Opened setting source construct (k + 1)
      ⟨⟨{ s with line := n }, ts, none⟩, read, ws, n + 1, lines⟩ earlier w since := by
  have hnext : Opened setting source construct (k + 1)
      ⟨⟨{ s with line := n }, ts, none⟩, read, ws, n + 1, lines⟩ earlier w (since ++ []) :=
    h.next (List.append_nil read).symm rfl (by cases construct <;> rfl) hline
  rwa [List.append_nil] at hnext

theorem Consistent.beginLine
    (h : Consistent setting source k ⟨⟨s, ts, none⟩, read, [], n, line :: lines⟩)
    (hline : s.line ≤ n) :
    Consistent setting source (k + 1)
      ⟨⟨(s.beginLine n line).1, ts, none⟩, read, (s.beginLine n line).2, n + 1, lines⟩ := by
  have hleft := State.uncommented { s with line := n } line
  rw [State.beginLine]
  generalize State.uncomment { s with line := n } line = out at hleft ⊢
  cases hleft with
  | kept =>
    refine ⟨h.text_iff, fun hmode => ?_, fun hmode => ?_⟩
    · obtain ⟨earlier, w, seed, since, hopened, hseed, htext⟩ := h.string hmode
      exact ⟨earlier, w, seed, since, hopened.beginLine hline, hseed, htext⟩
    · obtain ⟨earlier, w, since, hopened, hw⟩ := h.comment hmode
      exact ⟨earlier, w, since, hopened.beginLine hline, hw⟩
  | resumed rest hmode =>
    exact consistent_of_normal rfl (h.text_eq_nil (by simp_all [state]))
  | skipped hmode =>
    refine ⟨h.text_iff, by simp_all [state], fun _ => ?_⟩
    obtain ⟨earlier, w, since, hopened, hw⟩ := h.comment hmode
    exact ⟨earlier, w, since, hopened.beginLine hline, hw⟩

theorem Consistent.scanWord
    (h : Consistent setting source k ⟨⟨s, ts, none⟩, read, w :: ws, n, lines⟩)
    (hreached : momentAfter setting source k = some ⟨⟨s, ts, none⟩, read, w :: ws, n, lines⟩)
    (hnumbered : Numbered ⟨⟨s, ts, none⟩, read, w :: ws, n, lines⟩) :
    Consistent setting source (k + 1)
      ⟨(Progress.ofStep (s.scanWord setting w)).prepend ts, read ++ [w], ws, n, lines⟩ := by
  have hstep := State.wordStep setting s w
  generalize s.scanWord setting w = out at hstep ⊢
  cases hstep with
  | normal hmode hstep =>
    have htext : s.buffer.text = [] := h.text_eq_nil (by simp [state, hmode])
    cases hstep with
    | token => exact consistent_of_normal hmode htext
    | opensString seed hclass hseed =>
      have hopened : Opened setting source .stringLiteral (k + 1)
          ⟨(Progress.ofStep (s.openString seed, .nothing)).prepend ts, read ++ [w], ws, n, lines⟩
          ⟨⟨s, ts, none⟩, read, w :: ws, n, lines⟩ w [] :=
        opened_word hreached hnumbered hmode rfl rfl (List.append_nil ts) rfl rfl
      have hbuffer : (s.openString seed).buffer.text = seed := by simp [State.openString, htext]
      have hstring : Mode.string ≠ .comment := by decide
      refine ⟨iff_of_true rfl fun hnil => ?_, fun _ => ⟨_, w, seed, [], hopened, hseed, ?_⟩,
        fun hcomment => absurd hcomment hstring⟩
      · exact ne_nil_of_stringSeed? hseed (hbuffer.symm.trans hnil)
      · exact hbuffer.trans (List.append_nil seed).symm
    | opensComment hclass hleftOpen =>
      have hopened : Opened setting source .blockComment (k + 1)
          ⟨(Progress.ofStep (s.openComment, .nothing)).prepend ts, read ++ [w], ws, n, lines⟩
          ⟨⟨s, ts, none⟩, read, w :: ws, n, lines⟩ w [] :=
        opened_word hreached hnumbered hmode rfl rfl (List.append_nil ts) rfl rfl
      have hcomment : Mode.comment ≠ .string := by decide
      exact ⟨iff_of_false hcomment (· htext), fun hstring => absurd hstring hcomment,
        fun _ => ⟨_, w, [], hopened, hleftOpen⟩⟩
    | passed => exact consistent_of_normal hmode htext
    | rejected => exact consistent_of_normal hmode htext
  | string hmode hstep =>
    cases hstep with
    | closes => exact consistent_of_normal rfl rfl
    | collects =>
      obtain ⟨earlier, v, seed, since, hopened, hseed, htext⟩ := h.string hmode
      refine ⟨iff_of_true hmode ?_, fun _ => ⟨earlier, v, seed, since ++ [w], ?_, hseed, ?_⟩, ?_⟩
      · simp [state, Progress.ofStep, Progress.prepend]
      · exact hopened.next rfl (List.append_nil ts) rfl (Int.le_refl _)
      · simp_all [state, Progress.ofStep, Progress.prepend, collected]
      · simp [state, Progress.ofStep, Progress.prepend, hmode]
  | closesComment hmode =>
    exact consistent_of_normal rfl (h.text_eq_nil (by simp [state, hmode]))
  | skipped hmode =>
    refine ⟨h.text_iff, by simp [state, Progress.ofStep, Progress.prepend, hmode], fun _ => ?_⟩
    obtain ⟨earlier, v, since, hopened, hv⟩ := h.comment hmode
    exact ⟨earlier, v, since ++ [w], hopened.next rfl (List.append_nil ts) rfl (Int.le_refl _), hv⟩

/-- A step keeps a moment consistent. -/
theorem Consistent.next (h : Consistent setting source k m)
    (hreached : momentAfter setting source k = some m) (hnumbered : m.Numbered)
    (hstep : Step setting m m') : Consistent setting source (k + 1) m' := by
  cases hstep with
  | line s ts read n line lines =>
    have hnumber := hnumbered.number_eq
    simp only [state] at hnumber
    exact h.beginLine (by omega)
  | word s ts read w ws n lines => exact h.scanWord hreached hnumbered

end Moment

theorem numbered_momentAfter (h : momentAfter setting source k = some m) : m.Numbered :=
  momentAfter_induction (P := fun _ m => m.Numbered) (Moment.numbered_start source)
    (fun _ hstep ih => hstep.numbered ih) h

theorem consistent_momentAfter (h : momentAfter setting source k = some m) :
    m.Consistent setting source k :=
  momentAfter_induction (P := fun k m => m.Consistent setting source k)
    (Moment.consistent_start source)
    (fun hreached hstep ih => ih.next hreached (numbered_momentAfter hreached) hstep) h

/-- At every moment of a scan, a literal is open if and only if there is text, and if and only if
there are fragments of it. The text is the seed of the word that opened the literal and a space and
the word for each one since; what is open was opened on the line that is remembered for it, between
the first line and the current one, and no token has come since then. The drain of the source goes
through this moment. -/
theorem momentAfter_consistent (setting : Setting) (source : Text) (k : Nat) (m : Moment)
    (h : momentAfter setting source k = some m) :
    let s := m.state
    (s.mode = .string ↔ s.buffer.text ≠ []) ∧ (s.mode = .string ↔ s.buffer.isEmpty = false) ∧
    (s.mode = .string → (1 ≤ s.stringStart ∧ s.stringStart ≤ s.line) ∧
      ∃ earlier w seed since, m.Opened setting source .stringLiteral k earlier w since ∧
        Word.stringSeed? w = some seed ∧ s.buffer.text = seed ++ since.flatMap (' ' :: ·)) ∧
    (s.mode = .comment → (1 ≤ s.commentStart ∧ s.commentStart ≤ s.line) ∧
      ∃ earlier w since, m.Opened setting source .blockComment k earlier w since ∧
        Word.commentLeftOpen? w = some true) ∧
    s.line < m.number ∧ drain setting source = (m.completed setting).drain setting := by
  intro s
  have hconsistent := consistent_momentAfter h
  have hnumber := (numbered_momentAfter h).number_eq
  have hlast : m.state.line < m.number := by omega
  refine ⟨hconsistent.text_iff, ?_, fun hmode => ?_, fun hmode => ?_, hlast, drain_eq_completed h⟩
  · rw [hconsistent.text_iff, ne_eq, ← Fragments.isEmpty_iff, Bool.not_eq_true]
  · obtain ⟨earlier, w, seed, since, hopened, hseed, htext⟩ := hconsistent.string hmode
    have hstart : s.stringStart = earlier.state.line := hopened.start_eq
    refine ⟨?_, earlier, w, seed, since, hopened, hseed, htext⟩
    exact hstart ▸ ⟨hopened.one_le, hopened.le_line⟩
  · obtain ⟨earlier, w, since, hopened, hw⟩ := hconsistent.comment hmode
    have hstart : s.commentStart = earlier.state.line := hopened.start_eq
    refine ⟨?_, earlier, w, since, hopened, hw⟩
    exact hstart ▸ ⟨hopened.one_le, hopened.le_line⟩

/-- A literal that was opened behind a comment of the line before, and goes on over a line without
words. -/
theorem momentAfter_consistent_literal :
    let source := "x /* a\n*/ 'it\n\nis so' y".toList
    let buffer := ((Fragments.empty.append "it".toList).append [' ']).append "is".toList
    let m : Moment := ⟨⟨⟨.string, 4, buffer, 2, 1⟩, [⟨['x'], .identifier, 1⟩], none⟩,
      [['x'], ['/', '*'], ['a'], "'it".toList, "is".toList], ["so'".toList, ['y']], 5, []⟩
    momentAfter {} source 9 = some m ∧
      (1 ≤ m.state.stringStart ∧ m.state.stringStart ≤ m.state.line) ∧
      ∃ earlier w seed since, m.Opened {} source .stringLiteral 9 earlier w since ∧
        Word.stringSeed? w = some seed ∧
        m.state.buffer.text = seed ++ since.flatMap (' ' :: ·) := by
  intro source buffer m
  have hm : momentAfter {} source 9 = some m := by decide
  obtain ⟨-, -, hstring, -⟩ := momentAfter_consistent {} source 9 m hm
  exact ⟨hm, hstring rfl⟩

end Scan

end PascalTokens
