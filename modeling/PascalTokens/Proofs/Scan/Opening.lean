import PascalTokens.Proofs.Scan.Append
import PascalTokens.Proofs.Scan.Order
import PascalTokens.Proofs.Scan.Places
import PascalTokens.Proofs.Spacing.Cutoff

/-!
# Where a construct was opened

The construct that the end of the input leaves open was opened by a word that begins with its mark.
Cut off right before this word, the source gives the same tokens, and nothing is left open in it. So
the line that is remembered belongs to the construct that is really open, however many have been
opened and closed before it.

## Main definitions

* `Construct.opening` is the mark with which a construct begins.
* `State.OpenSince` says that a construct is open, and the line that is remembered for it.

## Main statements

* `State.openSince_scanWords`, `State.openSince_scanLine` and `State.openSince_scanLines`: what is
  open after a part of a scan was open before it, or the part can be cut off before its mark.
* `drain_failure_place`: the places of failures, and the order of lines.
-/

namespace PascalTokens

/-- The mark with which a construct begins. -/
def Construct.opening : Construct → Text
  | stringLiteral => [Symbol.stringQuote]
  | blockComment => Symbol.commentOpening

namespace Scan

namespace State

/-- The construct is open, and line `n` is remembered as the one where it was opened. -/
structure OpenSince (s : State) (construct : Construct) (n : Int) : Prop where
  construct_eq : s.mode.construct? = some construct
  start_eq : s.start construct = n

section OpenSince

variable {setting : Setting} {s r : State} {construct : Construct} {n m : Int} {w line : Text}
  {ws : List Text} {ts : List Token}

theorem OpenSince.mode_ne (h : s.OpenSince construct n) : s.mode ≠ .normal := by
  intro hmode
  simpa [hmode, Mode.construct?] using h.construct_eq

/-- A construct that is open after a word was open before it, or the word begins with its mark. -/
theorem openSince_scanWord (hscan : Progress.ofStep (s.scanWord setting w) = ⟨r, ts, none⟩)
    (h : r.OpenSince construct n) :
    ts = [] ∧ (s.OpenSince construct n ∨
      s.mode = .normal ∧ construct.opening <+: w ∧ s.line = n) := by
  have hstep := wordStep setting s w
  generalize s.scanWord setting w = out at hscan hstep
  cases hstep with
  | normal hmode hstep =>
    cases hstep with
    | opensString seed hclass hseed =>
      obtain ⟨rfl, rfl, -⟩ := Progress.mk.inj hscan
      obtain rfl : Construct.stringLiteral = construct := Option.some.inj h.construct_eq
      obtain rfl := eq_of_stringSeed? hseed
      exact ⟨rfl, .inr ⟨hmode, List.prefix_append [_] seed, h.start_eq⟩⟩
    | opensComment hclass hopen =>
      obtain ⟨rfl, rfl, -⟩ := Progress.mk.inj hscan
      obtain rfl : Construct.blockComment = construct := Option.some.inj h.construct_eq
      have hmark : Word.opensComment w := by
        by_contra hnot
        simp [Word.commentLeftOpen?, hnot] at hopen
      exact ⟨rfl, .inr ⟨hmode, List.isPrefixOf_iff_prefix.1 hmark, h.start_eq⟩⟩
    | passed =>
      obtain ⟨rfl, -, -⟩ := Progress.mk.inj hscan
      exact absurd hmode h.mode_ne
    | token =>
      obtain ⟨rfl, -, -⟩ := Progress.mk.inj hscan
      exact absurd hmode h.mode_ne
    | rejected => simp [Progress.ofStep] at hscan
  | string hmode hstep =>
    cases hstep with
    | closes =>
      obtain ⟨rfl, -, -⟩ := Progress.mk.inj hscan
      exact absurd rfl h.mode_ne
    | collects =>
      obtain ⟨rfl, rfl, -⟩ := Progress.mk.inj hscan
      exact ⟨rfl, .inl ⟨h.construct_eq, h.start_eq⟩⟩
  | closesComment =>
    obtain ⟨rfl, -, -⟩ := Progress.mk.inj hscan
    exact absurd rfl h.mode_ne
  | skipped =>
    obtain ⟨rfl, rfl, -⟩ := Progress.mk.inj hscan
    exact ⟨rfl, .inl h⟩

/-- A construct that is open after some words was open before them, or the words before one that
begins with its mark give the same tokens and leave nothing open. -/
theorem openSince_scanWords (hscan : s.scanWords setting ws = ⟨r, ts, none⟩)
    (h : r.OpenSince construct n) :
    s.OpenSince construct n ∧ ts = [] ∨
      ∃ before w after, ws = before ++ w :: after ∧ construct.opening <+: w ∧ s.line = n ∧
        ∃ u : State, u.mode = .normal ∧ s.scanWords setting before = ⟨u, ts, none⟩ := by
  induction ws generalizing s ts with
  | nil =>
    obtain ⟨rfl, rfl, -⟩ := Progress.mk.inj hscan
    exact .inl ⟨h, rfl⟩
  | cons w ws ih =>
    rw [scanWords_cons] at hscan
    obtain ⟨t, us, vs, hword, hrest, rfl⟩ := Progress.exists_of_andThen_eq _ _ hscan
    rcases ih hrest with ⟨hopen, rfl⟩ | ⟨before, v, after, rfl, hmark, hline, u, hu, hbefore⟩
    · rcases openSince_scanWord hword hopen with ⟨rfl, hs | ⟨hmode, hmark, hline⟩⟩
      · exact .inl ⟨hs, rfl⟩
      · exact .inr ⟨[], w, ws, rfl, hmark, hline, s, hmode, rfl⟩
    · have hsame : t.line = s.line := by
        rw [← (s.lines_scanWord setting w).1, ← Progress.state_ofStep, hword]
      refine .inr ⟨w :: before, v, after, rfl, hmark, hsame ▸ hline, u, hu, ?_⟩
      rw [scanWords_cons, hword, Progress.andThen_ok, hbefore]
      rfl

/-- What is left of a line without its comments is left of it as well when it is cut off later. -/
theorem exists_uncomment_eq {a b : Text} (h : s.uncomment line = (r, some (a ++ b))) :
    ∃ pre rest, line = pre ++ (b ++ rest) ∧ s.uncomment pre = (r, some a) := by
  obtain ⟨rest, hrest⟩ := Text.before_prefix Symbol.lineComment line
  have hself {pre : Text} (hpre : Text.before Symbol.lineComment line = pre ++ b) :
      Text.before Symbol.lineComment pre = pre := by
    refine Text.before_eq_self_of_append (t := b ++ rest) (b := b) ?_
    rw [← List.append_assoc, ← hpre, hrest]
  have hleft := s.uncommented line
  rw [h] at hleft
  generalize htext : a ++ b = text at hleft
  cases hleft with
  | kept hmode =>
    refine ⟨a, rest, by rw [← hrest, ← htext, List.append_assoc], ?_⟩
    rw [uncomment_of_ne hmode, hself htext.symm]
  | resumed _ hmode hafter =>
    obtain ⟨x, hx⟩ := Text.eq_of_after?_eq_some hafter
    have hsplit : Text.before Symbol.lineComment line =
        x ++ Symbol.commentClosing ++ a ++ b := by
      rw [hx, ← htext, List.append_assoc _ a b]
    refine ⟨x ++ Symbol.commentClosing ++ a, rest, ?_, uncomment_of_after? hmode ?_⟩
    · rw [← hrest, hsplit, List.append_assoc _ b rest]
    · rw [hself hsplit]
      rw [hsplit, ← htext] at hafter
      exact Text.after?_of_append (by decide) hafter

/-- The beginning of a line opens nothing. -/
theorem OpenSince.of_uncomment {text? : Option Text}
    (h : ({ s with line := m } : State).uncomment line = (r, text?))
    (hr : r.OpenSince construct n) : s.OpenSince construct n := by
  have hleft := uncommented { s with line := m } line
  rw [h] at hleft
  cases hleft with
  | kept => exact ⟨hr.construct_eq, hr.start_eq⟩
  | resumed => exact absurd rfl hr.mode_ne
  | skipped => exact ⟨hr.construct_eq, hr.start_eq⟩

/-- A construct that is open after a line was open before it, or the line can be cut off before a
mark of it, and gives the same tokens then and leaves nothing open. -/
theorem openSince_scanLine (hscan : s.scanLine setting m line = ⟨r, ts, none⟩)
    (h : r.OpenSince construct n) :
    s.OpenSince construct n ∧ ts = [] ∨
      ∃ pre rest, line = pre ++ rest ∧ construct.opening <+: rest ∧ m = n ∧
        ∃ u : State, u.mode = .normal ∧ s.scanLine setting m pre = ⟨u, ts, none⟩ := by
  unfold scanLine at hscan ⊢
  have hline : (s.beginLine m line).1.line = m := line_beginLine s m line
  unfold beginLine at hscan hline ⊢
  rcases hleft : ({ s with line := m } : State).uncomment line with ⟨t, _ | text⟩
  · rw [hleft] at hscan
    obtain ⟨rfl, rfl, -⟩ := Progress.mk.inj hscan
    exact .inl ⟨h.of_uncomment hleft, rfl⟩
  · rw [hleft] at hscan hline
    dsimp only at hscan hline
    rcases openSince_scanWords hscan h with
      ⟨hopen, rfl⟩ | ⟨before, w, after, hwords, hmark, hsame, u, hu, hbefore⟩
    · exact .inl ⟨hopen.of_uncomment hleft, rfl⟩
    · obtain ⟨a, b, rfl, rfl, hw⟩ := Spacing.exists_append_of_words_eq hwords
      obtain ⟨pre, rest, rfl, hpre⟩ := exists_uncomment_eq hleft
      refine .inr ⟨pre, b ++ rest, rfl, ?_, hline ▸ hsame, u, hu, ?_⟩
      · exact (hmark.trans hw).trans (List.prefix_append _ _)
      · rw [hpre]
        exact hbefore

/-- A construct that is open after the lines of a text was open before them, or the text can be cut
off before a mark of it, and gives the same tokens then and leaves nothing open. -/
theorem openSince_scanLines {text : Text}
    (hscan : s.scanLines setting m (Text.lines text) = ⟨r, ts, none⟩)
    (h : r.OpenSince construct n) :
    s.OpenSince construct n ∧ ts = [] ∨
      ∃ pre rest, text = pre ++ rest ∧ construct.opening <+: rest ∧ m + pre.count '\n' = n ∧
        ∃ u : State, u.mode = .normal ∧
          s.scanLines setting m (Text.lines pre) = ⟨u, ts, none⟩ := by
  induction text using Text.line_induction generalizing s m ts with
  | last line hnotMem =>
    rw [Text.lines_eq_singleton hnotMem, scanLines_singleton] at hscan
    rcases openSince_scanLine hscan h with hopen | ⟨pre, rest, rfl, hmark, rfl, u, hu, hpre⟩
    · exact .inl hopen
    · rw [List.mem_append, not_or] at hnotMem
      refine .inr ⟨pre, rest, rfl, hmark, by simp [List.count_eq_zero.2 hnotMem.1], u, hu, ?_⟩
      rw [Text.lines_eq_singleton hnotMem.1, scanLines_singleton, hpre]
  | step line text hnotMem ih =>
    rw [Text.lines_append_newline hnotMem, scanLines_cons] at hscan
    obtain ⟨t, us, vs, hline, hrest, rfl⟩ := Progress.exists_of_andThen_eq _ _ hscan
    rcases ih hrest with ⟨hopen, rfl⟩ | ⟨pre, rest, rfl, hmark, hcount, u, hu, hpre⟩
    · rcases openSince_scanLine hline hopen with
        ⟨hs, rfl⟩ | ⟨pre, rest, rfl, hmark, rfl, u, hu, hpre⟩
      · exact .inl ⟨hs, rfl⟩
      · rw [List.mem_append, not_or] at hnotMem
        refine .inr ⟨pre, rest ++ '\n' :: text, by simp, hmark.trans (List.prefix_append _ _),
          by simp [List.count_eq_zero.2 hnotMem.1], u, hu, ?_⟩
        rw [Text.lines_eq_singleton hnotMem.1, scanLines_singleton, hpre, List.append_nil]
    · refine .inr ⟨line ++ '\n' :: pre, rest, by simp, hmark, ?_, u, hu, ?_⟩
      · rw [← hcount, List.count_append, List.count_eq_zero.2 hnotMem, List.count_cons_self]
        push_cast
        omega
      · rw [Text.lines_append_newline hnotMem, scanLines_cons, hline, Progress.andThen_ok, hpre]
        rfl

end OpenSince

end State

section Drain

variable {setting : Setting} {source : Text} {e : LexicalError}

theorem drain_eq_of_scanSource {u : State} {ts : List Token}
    (h : scanSource setting source = ⟨u, ts, none⟩) (hu : u.mode = .normal) :
    drain setting source = ⟨ts, .clean⟩ := by
  rw [drain_eq_lines, ← scanSource, h, Progress.drain, State.finish_snd, hu]
  rfl

theorem ordered_scanSource (setting : Setting) (source : Text) :
    (scanSource setting source).Ordered 1 :=
  State.ordered_scanLines setting .initial 1 (Text.lines_ne_nil source)

theorem line_scanSource_le (setting : Setting) (source : Text) :
    (scanSource setting source).state.line ≤ (Text.lines source).length := by
  have hlines : 0 < (Text.lines source).length :=
    List.length_pos_iff.2 (Text.lines_ne_nil source)
  have hlt : (scanSource setting source).state.line < 1 + (Text.lines source).length := by
    refine State.line_scanLines_lt setting .initial ?_ (Int.le_refl _)
    change (0 : Int) < _
    omega
  omega

/-- The mark of the construct that a drain fails with, on the line of the failure. Before it, the
source gives the same tokens and leaves nothing open. -/
theorem exists_opening_of_failure {construct : Construct}
    (he : (drain setting source).failure? = some e) (hfault : e.fault = .unterminated construct) :
    ∃ pre rest, source = pre ++ rest ∧ construct.opening <+: rest ∧
      1 + (pre.count '\n' : Int) = e.line ∧
        drain setting pre = ⟨(drain setting source).tokens, .clean⟩ := by
  rcases failure_drain_cases he with ⟨-, w, hw⟩ | ⟨hfailure, construct', hfault', hopen, hline⟩
  · simp [hw] at hfault
  · obtain rfl : construct' = construct := by simpa [hfault'] using hfault
    have hscan : scanSource setting source = ⟨(scanSource setting source).state,
        (drain setting source).tokens, none⟩ := by
      rw [tokens_drain_eq, ← hfailure]
    rcases State.openSince_scanLines hscan ⟨hopen, hline⟩ with
      ⟨hinitial, -⟩ | ⟨pre, rest, hsource, hmark, hline, u, hu, hpre⟩
    · exact absurd rfl hinitial.mode_ne
    · exact ⟨pre, rest, hsource, hmark, hline, drain_eq_of_scanSource hpre hu⟩

/-- The failure of a drain lies on a line of the source, and not before any of its tokens. -/
theorem failure_line_bounds (he : (drain setting source).failure? = some e) :
    1 ≤ e.line ∧ e.line ≤ (Text.lines source).length ∧
      ∀ t ∈ (drain setting source).tokens, t.line ≤ e.line := by
  rcases failure_drain_cases he with ⟨hfailure, -⟩ | ⟨-, construct, hfault, -⟩
  · have hordered := ordered_scanSource setting source
    rw [tokens_drain_eq, hordered.failure_eq e hfailure]
    exact ⟨hordered.le_line, line_scanSource_le setting source, fun t ht =>
      (hordered.le_of_mem t ht).2⟩
  · obtain ⟨pre, rest, rfl, -, hline, hpre⟩ := exists_opening_of_failure he hfault
    -- The tokens are those of the part before the mark, which ends on the line of the failure.
    have hlast : (((Text.lines pre).length : Nat) : Int) = e.line := by
      rw [Text.length_lines, ← hline]
      push_cast
      omega
    refine ⟨by omega, ?_, fun t ht => ?_⟩
    · rw [← hline, Text.length_lines, List.count_append]
      push_cast
      omega
    · have hmem : t ∈ (scanSource setting pre).tokens := by
        rw [← tokens_drain_eq, hpre]
        exact ht
      rw [← hlast]
      exact Int.le_trans ((ordered_scanSource setting pre).le_of_mem t hmem).2
        (line_scanSource_le setting pre)

/-- A failure that names an open construct names the line of its opening mark, right before which
the source may end without a failure and with the same tokens. Every failure lies on a line of the
source and not before the tokens, and the lines of tokens never decrease. -/
theorem drain_failure_place (setting : Setting) (source : Text) :
    let d := drain setting source
    (∀ e construct, d.failure? = some e → e.fault = .unterminated construct →
      ∃ i, lineAt source i = e.line ∧ construct.opening <+: source.drop i ∧
        drain setting (source.take i) = ⟨d.tokens, .clean⟩) ∧
    (∀ e, d.failure? = some e →
      1 ≤ e.line ∧ e.line ≤ (sourceLines source).length ∧ ∀ t ∈ d.tokens, t.line ≤ e.line) ∧
    d.tokens.Pairwise fun t u => t.line ≤ u.line := by
  intro d
  refine ⟨fun e construct he hfault => ?_, fun e he => ?_, ?_⟩
  · obtain ⟨pre, rest, rfl, hmark, hline, hpre⟩ := exists_opening_of_failure he hfault
    refine ⟨pre.length, ?_, by rwa [List.drop_left], by rwa [List.take_left]⟩
    rw [lineAt, List.take_left, ← hline, Int.add_comm]
  · simpa [sourceLines] using failure_line_bounds he
  · have htokens : d.tokens = (scanSource setting source).tokens := tokens_drain_eq setting source
    rw [htokens]
    exact (ordered_scanSource setting source).pairwise

/-- Of the constructs that are opened on the last line, the one that is left open is the comment
behind the symbol. -/
theorem drain_failure_place_comment :
    let setting : Setting := ⟨.ofFlags true true, none⟩
    let source := "/* 'a */ 'b\nc' x /* ' */ ; /* y '".toList
    let tokens : List Token := [⟨"b c".toList, .stringLiteral, 2⟩, ⟨['x'], .identifier, 2⟩]
    drain setting source = ⟨tokens, .failed ⟨.unterminated .blockComment, 2, none⟩⟩ ∧
      ∃ i, lineAt source i = 2 ∧ Symbol.commentOpening <+: source.drop i ∧
        drain setting (source.take i) = ⟨tokens, .clean⟩ := by
  intro setting source tokens
  have hdrain : drain setting source =
      ⟨tokens, .failed ⟨.unterminated .blockComment, 2, none⟩⟩ := by decide
  have hplace := (drain_failure_place setting source).1
    ⟨.unterminated .blockComment, 2, none⟩ .blockComment (by rw [hdrain]; rfl) rfl
  rw [hdrain] at hplace
  exact ⟨hdrain, hplace⟩

end Drain

end Scan

end PascalTokens
