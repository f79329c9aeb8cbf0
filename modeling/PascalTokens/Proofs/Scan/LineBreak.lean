import PascalTokens.Proofs.Scan.Append
import PascalTokens.Proofs.Scan.Layout

/-!
# A line break in place of a space

The quotes are counted anew on every line: from none, or from an open single quote if a literal is
open. Where the count has come to just that at the end of a line, the next line may as well stand
on the same line, behind a space. So a literal that goes on over a line break is read like one on
a single line, and so is what follows its closing quote.

## Main definitions

* `quotesAtEnd` are the quotes that the spacing has open at the end of a source.
* `EndsInStep` says that these are the ones with which a further line would begin.
* `Drain.unnumbered` forgets the line numbers of a drain.

## Main statements

* `State.scanLine_append_blank`: a line that goes on behind a blank, one part after the other.
* `drain_lineBreak`: a line break and a space give the same.
-/

namespace PascalTokens

namespace Scan

/-! ## Without line numbers -/

/-- The drain with all line numbers forgotten. -/
def Drain.unnumbered (d : Drain) : Drain := d.renumber fun _ => 0

theorem Drain.lexemes_unnumbered (d : Drain) :
    d.unnumbered.tokens.map (fun t => (t.lexeme, t.tokenClass)) =
      d.tokens.map fun t => (t.lexeme, t.tokenClass) := by
  rw [unnumbered, renumber, List.map_map]
  rfl

theorem Drain.fault_unnumbered (d : Drain) :
    d.unnumbered.failure?.map (·.fault) = d.failure?.map (·.fault) := by
  obtain ⟨ts, _ | _ | e⟩ := d <;> rfl

/-- The states differ in line numbers only. -/
def State.SameButLines (s t : State) : Prop :=
  s.renumber (fun _ => 0) = t.renumber fun _ => 0

section Unnumbered

variable {setting : Setting} {s t : State}

theorem State.sameButLines_onLine (s : State) (n : Int) :
    ({ s with line := n } : State).SameButLines s := rfl

theorem contentFrom_unnumbered (m n : Int) (lines : List Text) :
    (contentFrom m lines).map (fun line => ((0 : Int), line.2)) =
      (contentFrom n lines).map fun line => (0, line.2) := by
  induction lines generalizing m n with
  | nil => rfl
  | cons line lines ih =>
    rw [contentFrom, contentFrom]
    split
    · exact ih (m + 1) (n + 1)
    · rw [List.map_cons, List.map_cons, ih (m + 1) (n + 1)]

/-- It does not show in what lines give which numbers they have. -/
theorem State.SameButLines.scanLines (h : s.SameButLines t) (m n : Int) (lines : List Text) :
    ((s.scanLines setting m lines).drain setting).unnumbered =
      ((t.scanLines setting n lines).drain setting).unnumbered := by
  have hcontent (s : State) (m : Int) : ((s.scanLines setting m lines).drain setting).unnumbered =
      ((s.renumber fun _ => 0).scanContent setting
        ((contentFrom m lines).map fun line => (0, line.2))).drain setting := by
    rw [drain_scanLines, Drain.unnumbered, ← Progress.renumber_drain, ← State.scanContent_renumber]
  rw [hcontent, hcontent, h, contentFrom_unnumbered m n]

theorem State.SameButLines.scanWords (h : s.SameButLines t) (ws : List Text) :
    (s.scanWords setting ws).renumber (fun _ => 0) =
      (t.scanWords setting ws).renumber fun _ => 0 := by
  rw [← State.scanWords_renumber, h, State.scanWords_renumber]

theorem Progress.unnumbered_prepend {p q : Progress} {ts us : List Token}
    (htokens : ts.map (·.renumber fun _ => 0) = us.map (·.renumber fun _ => 0))
    (h : (p.drain setting).unnumbered = (q.drain setting).unnumbered) :
    ((p.prepend ts).drain setting).unnumbered = ((q.prepend us).drain setting).unnumbered := by
  simp only [Drain.unnumbered, Drain.renumber, Drain.mk.injEq, drain_prepend, List.map_append,
    htokens] at h ⊢
  exact ⟨congrArg _ h.1, h.2⟩

/-- Parts that differ in line numbers only may be followed by parts that do. -/
theorem Progress.unnumbered_andThen {p q : Progress} {f g : State → Progress}
    (h : p.renumber (fun _ => 0) = q.renumber fun _ => 0)
    (next : ∀ {s t : State}, s.SameButLines t →
      ((f s).drain setting).unnumbered = ((g t).drain setting).unnumbered) :
    ((p.andThen f).drain setting).unnumbered = ((q.andThen g).drain setting).unnumbered := by
  obtain ⟨s, ts, e⟩ := p
  obtain ⟨t, us, e'⟩ := q
  simp only [Progress.renumber, Progress.mk.injEq] at h
  obtain ⟨hstate, htokens, hfailure⟩ := h
  cases e with
  | some e =>
    cases e' with
    | none => simp at hfailure
    | some e' =>
      simpa [drain, Drain.unnumbered, Drain.renumber, Ending.renumber, htokens] using hfailure
  | none =>
    cases e' with
    | some e' => simp at hfailure
    | none => exact unnumbered_prepend htokens (next hstate)

end Unnumbered

/-! ## Lines that go on -/

namespace State

variable {setting : Setting} {s r : State} {line text : Text} {c : Char}

/-- The quotes that the spacing has open at the end of a line that is begun in this state. A line
inside a block comment is not spaced. -/
def quotesAfter (s : State) (line : Text) : Quotes :=
  match s.uncomment line with
  | (r, some text) => (Quotes.atStart (r.mode = .string)).after text
  | (_, none) => .atStart false

theorem uncomment_onLine (s : State) (n : Int) (line : Text) :
    ({ s with line := n } : State).uncomment line =
      ({ (s.uncomment line).1 with line := n }, (s.uncomment line).2) := by
  obtain ⟨_ | _ | _, m, b, i, j⟩ := s
  · rfl
  · rfl
  · simp only [uncomment, if_true]
    cases Text.after? Symbol.commentClosing (Text.before Symbol.lineComment line) <;> rfl

/-- A line of which nothing is left lies in a block comment. -/
theorem mode_eq_of_uncomment_eq_none (h : s.uncomment line = (r, none)) : r.mode = .comment := by
  have hleft := s.uncommented line
  rw [h] at hleft
  cases hleft with
  | skipped hmode => exact hmode

/-- What is left of a line goes on as the line does, behind a blank. -/
theorem uncomment_append_blank (hc : Text.isBlank c) (hline : ¬ Symbol.lineComment <:+: line)
    (h : s.uncomment line = (r, some text)) (l : Text) :
    s.uncomment (line ++ c :: l) = (r, some (text ++ c :: Text.before Symbol.lineComment l)) := by
  have hnot {mark : Text} (hmark : mark ⊆ Symbol.punctuation) : c ∉ mark :=
    fun hm => Symbol.notMem_punctuation_of_isBlank hc (hmark hm)
  have hbefore : Text.before Symbol.lineComment (line ++ c :: l) =
      line ++ c :: Text.before Symbol.lineComment l :=
    Text.before_append_cons (hnot (by decide)) hline l
  have hself : Text.before Symbol.lineComment line = line := Text.before_eq_self hline
  have hleft := s.uncommented line
  rw [h] at hleft
  cases hleft with
  | kept hmode => rw [uncomment_of_ne hmode, hbefore, hself]
  | resumed rest hmode hafter =>
    rw [hself] at hafter
    refine uncomment_of_after? hmode ?_
    rw [hbefore, Text.after?_append_cons (by decide) (hnot (by decide)), hafter]

theorem wordsOf_append_blank (hc : Text.isBlank c) (s : State) (text l : Text) :
    s.wordsOf (text ++ c :: l) = s.wordsOf text ++
      Piece.wordsFrom [] (Piece.cut ((Quotes.atStart (s.mode = .string)).after text) l) := by
  rw [wordsOf, wordsOf, Spacing.words_pad, Spacing.words_pad, Piece.cut_append_blank _ _ _ hc,
    Piece.wordsFrom_append_blank _ _ _ hc]

/-- Behind a blank, a line goes on as a further line would, if this one began with the quotes that
are open there. -/
theorem scanLine_append_blank (hc : Text.isBlank c) (hline : ¬ Symbol.lineComment <:+: line)
    {n : Int} {ts : List Token} (hscan : s.scanLine setting n line = ⟨r, ts, none⟩)
    (hmode : r.mode ≠ .comment) (hquotes : s.quotesAfter line = .atStart (r.mode = .string))
    (l : Text) :
    s.scanLine setting n (line ++ c :: l) =
      (r.scanWords setting (r.wordsOf (Text.before Symbol.lineComment l))).prepend ts := by
  unfold scanLine beginLine at hscan ⊢
  rw [uncomment_onLine] at hscan ⊢
  rcases hleft : s.uncomment line with ⟨u, _ | text⟩
  · obtain rfl : ({ u with line := n } : State) = r := by
      simpa [hleft] using congrArg Progress.state hscan
    exact absurd (mode_eq_of_uncomment_eq_none hleft) hmode
  · have hrest : Piece.wordsFrom [] (Piece.cut ((Quotes.atStart (u.mode = .string)).after text)
        (Text.before Symbol.lineComment l)) = r.wordsOf (Text.before Symbol.lineComment l) := by
      have hopen : (Quotes.atStart (u.mode = .string)).after text =
          .atStart (r.mode = .string) := by simpa [quotesAfter, hleft] using hquotes
      rw [hopen, wordsOf, Spacing.words_pad]
    rw [hleft] at hscan
    rw [uncomment_append_blank hc hline hleft]
    dsimp only at hscan ⊢
    rw [wordsOf_append_blank hc, scanWords_append, hscan, Progress.andThen_ok, hrest]

/-- A line that is not begun in a block comment gives its words up to the line comment. -/
theorem scanLine_of_mode_ne (hmode : s.mode ≠ .comment) (n : Int) (line : Text) :
    s.scanLine setting n line = ({ s with line := n } : State).scanWords setting
      (s.wordsOf (Text.before Symbol.lineComment line)) := by
  simp only [scanLine, beginLine, uncomment, hmode, if_false]
  rfl

/-- What follows a line on a line of its own, or on the same line behind a blank. -/
theorem unnumbered_append_blank (hc : Text.isBlank c) (hline : ¬ Symbol.lineComment <:+: line)
    {n : Int} {ts : List Token} (hscan : s.scanLine setting n line = ⟨r, ts, none⟩)
    (hmode : r.mode ≠ .comment) (hquotes : s.quotesAfter line = .atStart (r.mode = .string))
    (l : Text) (rest : List Text) (i j : Int) :
    (((r.scanLines setting i (l :: rest)).prepend ts).drain setting).unnumbered =
      (((s.scanLine setting n (line ++ c :: l)).andThen fun s =>
        s.scanLines setting j rest).drain setting).unnumbered := by
  have hfurther : r.scanLines setting i (l :: rest) =
      (({ r with line := i } : State).scanWords setting
        (r.wordsOf (Text.before Symbol.lineComment l))).andThen fun s =>
          s.scanLines setting (i + 1) rest := by
    rw [scanLines_cons, ← scanLine_of_mode_ne hmode]
    rfl
  rw [hfurther, scanLine_append_blank hc hline hscan hmode hquotes, Progress.andThen_prepend]
  refine Progress.unnumbered_prepend rfl (Progress.unnumbered_andThen ?_ ?_)
  · exact (sameButLines_onLine r i).scanWords _
  · exact fun hsame => hsame.scanLines (i + 1) j rest

end State

/-! ## Sources that go on -/

section LineBreak

variable {setting : Setting} {p q : Text}

/-- The quotes that the spacing has open at the end of a source. -/
def quotesAtEnd (setting : Setting) (p : Text) : Quotes :=
  (State.initial.scanLines setting 1 (Text.lines p).dropLast).state.quotesAfter (Text.lastLine p)

/-- The last line of the source has no line comment, no word of the source is rejected, and at its
end the spacing and the scan agree on what is open: nothing, or a literal and its quote. -/
structure EndsInStep (setting : Setting) (p : Text) : Prop where
  no_lineComment : ¬ Symbol.lineComment <:+: Text.lastLine p
  failure_eq : (scanSource setting p).failure = none
  agree : (scanSource setting p).state.mode = .normal ∧ quotesAtEnd setting p = ⟨false, false⟩ ∨
    (scanSource setting p).state.mode = .string ∧ quotesAtEnd setting p = ⟨true, false⟩

theorem EndsInStep.mode_ne (h : EndsInStep setting p) :
    (scanSource setting p).state.mode ≠ .comment := by
  rcases h.agree with ⟨hmode, -⟩ | ⟨hmode, -⟩ <;> simp [hmode]

theorem EndsInStep.quotes_eq (h : EndsInStep setting p) :
    quotesAtEnd setting p = .atStart ((scanSource setting p).state.mode = .string) := by
  rcases h.agree with ⟨hmode, hquotes⟩ | ⟨hmode, hquotes⟩ <;> rw [hquotes, hmode] <;> rfl

/-- The scan of a source is that of its last line behind the others. -/
theorem scanSource_eq (setting : Setting) (p : Text) :
    scanSource setting p =
      (State.initial.scanLines setting 1 (Text.lines p).dropLast).andThen fun s =>
        s.scanLine setting (1 + (Text.lines p).dropLast.length) (Text.lastLine p) := by
  rw [scanSource, ← Text.dropLast_concat_lastLine, State.scanLines_append]
  simp only [State.scanLines_singleton, List.dropLast_concat]

/-- A source that goes on behind a space makes its last line longer. -/
theorem drain_append_space_eq (setting : Setting) (p q : Text) :
    drain setting (p ++ ' ' :: q) =
      ((State.initial.scanLines setting 1 (Text.lines p).dropLast).andThen fun s =>
        (s.scanLine setting (1 + (Text.lines p).dropLast.length)
          (Text.lastLine p ++ ' ' :: Text.firstLine q)).andThen fun s =>
            s.scanLines setting (1 + (Text.lines p).dropLast.length + 1)
              (Text.lines q).tail).drain setting := by
  have hspace : '\n' ∉ [' '] := by decide
  have hfirst : Text.firstLine (' ' :: q) = ' ' :: Text.firstLine q :=
    Text.firstLine_append hspace q
  have htail : (Text.lines (' ' :: q)).tail = (Text.lines q).tail := by
    have hlines := Text.lines_append hspace q
    rw [List.singleton_append] at hlines
    rw [hlines, List.tail_cons]
  rw [drain_eq_lines, Text.lines_append_lines, hfirst, htail, State.scanLines_append]
  rfl

theorem unnumbered_drain_lineBreak (h : EndsInStep setting p) (q : Text) :
    (drain setting (p ++ '\n' :: q)).unnumbered = (drain setting (p ++ ' ' :: q)).unnumbered := by
  obtain ⟨r, ts, hscan⟩ : ∃ r ts, scanSource setting p = ⟨r, ts, none⟩ :=
    ⟨_, _, by rw [← h.failure_eq]⟩
  have hmode : r.mode ≠ .comment := by simpa [hscan] using h.mode_ne
  have hquotes : quotesAtEnd setting p = .atStart (r.mode = .string) := by
    simpa [hscan] using h.quotes_eq
  -- The last line goes on from the state that the lines before it have left.
  obtain ⟨s, us, vs, hfront, hlast, rfl⟩ :=
    Progress.exists_of_andThen_eq _ _ ((scanSource_eq setting p).symm.trans hscan)
  rw [quotesAtEnd, hfront] at hquotes
  rw [drain_append_newline_eq, hscan, drain_append_space_eq, hfront, Text.lines_eq_cons q,
    List.tail_cons, Progress.andThen_ok, Progress.andThen_ok, ← Progress.prepend_prepend]
  exact Progress.unnumbered_prepend rfl
    (State.unnumbered_append_blank (by decide) h.no_lineComment hlast hmode hquotes _ _ _ _)

/-- Where the spacing and the scan agree on what is open, it makes no difference to lexemes, classes
and failures whether a source goes on behind a line break or behind a space. -/
theorem drain_lineBreak (setting : Setting) (p q : Text) (h : EndsInStep setting p) :
    let broken := drain setting (p ++ '\n' :: q)
    let joined := drain setting (p ++ ' ' :: q)
    broken.tokens.map (fun t => (t.lexeme, t.tokenClass)) =
        joined.tokens.map (fun t => (t.lexeme, t.tokenClass)) ∧
      broken.failure?.map (·.fault.message) = joined.failure?.map (·.fault.message) := by
  intro broken joined
  have hsame : broken.unnumbered = joined.unnumbered := unnumbered_drain_lineBreak h q
  have hfault : broken.failure?.map (·.fault) = joined.failure?.map (·.fault) := by
    rw [← Drain.fault_unnumbered, hsame, Drain.fault_unnumbered]
  refine ⟨?_, ?_⟩
  · rw [← Drain.lexemes_unnumbered, hsame, Drain.lexemes_unnumbered]
  · have hmessage := congrArg (Option.map LexicalFault.message) hfault
    rwa [Option.map_map, Option.map_map] at hmessage

/-- A literal that goes on over a line break, with a symbol behind its closing quote, and a word
that is rejected on the line after a comment. -/
theorem drain_lineBreak_literal :
    let setting : Setting := ⟨.ofFlags true true, none⟩
    let p := "/* '\n\x22 */ s = 'a".toList
    let q := "b;c'; x // '\n$".toList
    EndsInStep setting p ∧
      drain setting (p ++ '\n' :: q) =
        ⟨[⟨['s'], .identifier, 2⟩, ⟨['='], .relationalOperator, 2⟩,
          ⟨"a b;c".toList, .stringLiteral, 3⟩, ⟨['x'], .identifier, 3⟩],
          .failed ⟨.unrecognized ['$'], 4, none⟩⟩ ∧
      (drain setting (p ++ ' ' :: q)).tokens.map (fun t => (t.lexeme, t.tokenClass)) =
        [(['s'], .identifier), (['='], .relationalOperator), ("a b;c".toList, .stringLiteral),
          (['x'], .identifier)] ∧
      (drain setting (p ++ ' ' :: q)).failure?.map (·.fault.message) =
        some (LexicalFault.unrecognized ['$']).message := by
  intro setting p q
  have hends : EndsInStep setting p := ⟨by decide +kernel, by decide, .inr (by decide)⟩
  have hbroken : drain setting (p ++ '\n' :: q) =
      ⟨[⟨['s'], .identifier, 2⟩, ⟨['='], .relationalOperator, 2⟩,
        ⟨"a b;c".toList, .stringLiteral, 3⟩, ⟨['x'], .identifier, 3⟩],
        .failed ⟨.unrecognized ['$'], 4, none⟩⟩ := by decide
  obtain ⟨htokens, hmessage⟩ := drain_lineBreak setting p q hends
  rw [hbroken] at htokens hmessage
  exact ⟨hends, hbroken, htokens.symm, hmessage.symm⟩

end LineBreak

end Scan

end PascalTokens
