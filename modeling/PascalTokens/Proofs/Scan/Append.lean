import PascalTokens.Proofs.Scan.Options
import PascalTokens.Proofs.Scan.Resume

/-!
# A source behind another one

A source that is put behind another, on a line of its own, changes nothing in what was read before
it. A word that was rejected stays rejected. Otherwise the tokens of the first source come first,
and if nothing is left open in it, the second source is read as by itself, with its lines moved.

## Main statements

* `drain_append_newline`: the drain of two sources, one behind the other.
-/

namespace PascalTokens

namespace Scan

/-- The scan fails because of a word, and not because of what is open at the end. -/
def Drain.FailsAtWord (d : Drain) : Prop :=
  ∃ e, d.failure? = some e ∧ ∃ w, e.fault = .unrecognized w

/-- At the end of the input only an open construct can be a failure, and only under strict
checking. It names the line where the construct was opened. -/
theorem State.exists_construct_of_failure_finish {setting : Setting} {s : State} {e : LexicalError}
    (h : (s.finish setting).2.failure? = some e) :
    ∃ construct, e.fault = .unterminated construct ∧ s.mode.construct? = some construct ∧
      s.start construct = e.line := by
  rw [finish_snd] at h
  cases hopen : s.mode.construct? with
  | none => simp [hopen, Ending.failure?] at h
  | some construct =>
    cases hstrict : setting.config.isStrict with
    | false => simp [hopen, hstrict, Ending.failure?] at h
    | true =>
      have he : fail setting (.unterminated construct) (s.start construct) = e := by
        simpa [hopen, hstrict, Ending.failure?] using h
      exact ⟨construct, by rw [← he]; rfl, rfl, by rw [← he]; rfl⟩

theorem State.mode_eq_of_failure?_finish {setting : Setting} {s : State}
    (hstrict : setting.config.isStrict) (h : (s.finish setting).2.failure? = none) :
    s.mode = .normal := by
  rw [finish_snd] at h
  cases hmode : s.mode with
  | normal => rfl
  | string => simp [hmode, Mode.construct?, hstrict, Ending.failure?] at h
  | comment => simp [hmode, Mode.construct?, hstrict, Ending.failure?] at h

section Append

variable {setting : Setting} {s : Text}

/-- The scan of the lines of a source, without its end. -/
def scanSource (setting : Setting) (s : Text) : Progress :=
  State.initial.scanLines setting 1 (Text.lines s)

theorem tokens_drain_eq (setting : Setting) (s : Text) :
    (drain setting s).tokens = (scanSource setting s).tokens := by
  rw [drain_eq_lines, ← scanSource, Progress.tokens_drain]

/-- A drain fails in its scan, because of a word, or at its end, because of what is open there. -/
theorem failure_drain_cases {e : LexicalError} (h : (drain setting s).failure? = some e) :
    (scanSource setting s).failure = some e ∧ (∃ w, e.fault = .unrecognized w) ∨
      (scanSource setting s).failure = none ∧ ∃ construct,
        e.fault = .unterminated construct ∧
          (scanSource setting s).state.mode.construct? = some construct ∧
            (scanSource setting s).state.start construct = e.line := by
  rw [drain_eq_lines, ← scanSource, Progress.drain] at h
  cases hfailure : (scanSource setting s).failure with
  | some e' =>
    rw [hfailure] at h
    obtain rfl : e' = e := Option.some.inj h
    exact .inl ⟨rfl, State.exists_unrecognized_of_failure hfailure⟩
  | none =>
    rw [hfailure] at h
    exact .inr ⟨rfl, State.exists_construct_of_failure_finish h⟩

theorem failsAtWord_iff :
    (drain setting s).FailsAtWord ↔ ∃ e, (scanSource setting s).failure = some e := by
  constructor
  · rintro ⟨e, he, w, hw⟩
    rcases failure_drain_cases he with ⟨hfailure, -⟩ | ⟨-, construct, hconstruct, -⟩
    · exact ⟨e, hfailure⟩
    · simp [hw] at hconstruct
  · rintro ⟨e, hfailure⟩
    obtain ⟨w, hw⟩ := State.exists_unrecognized_of_failure hfailure
    refine ⟨e, ?_, w, hw⟩
    rw [drain_eq_lines, ← scanSource, Progress.drain, hfailure]
    rfl

/-- The second source is read from the state that the first one leaves. -/
theorem drain_append_newline_eq (setting : Setting) (s t : Text) :
    drain setting (s ++ '\n' :: t) =
      ((scanSource setting s).andThen fun r =>
        r.scanLines setting (1 + (s.count '\n' + 1)) (Text.lines t)).drain setting := by
  have hlength : (((Text.lines s).length : Nat) : Int) = s.count '\n' + 1 := by
    simp [Text.length_lines]
  rw [drain_eq_lines, Text.lines_append_cons, State.scanLines_append, hlength, scanSource]

/-- A source that leaves nothing open leaves a scan as it was before any source. -/
theorem atRest_scanSource {strict : Setting} (hfailure : (scanSource setting s).failure = none)
    (hstrict : strict.config.isStrict) (h : (drain strict s).failure? = none) :
    (scanSource setting s).state.AtRest := by
  rw [drain_eq_lines, ← scanSource] at h
  have hfailure' : (scanSource strict s).failure = none := by
    cases he : (scanSource strict s).failure with
    | none => rfl
    | some e => simp [Progress.drain, he, Drain.failure?, Ending.failure?] at h
  have hmode : (scanSource strict s).state.mode = .normal := by
    rw [Progress.drain, hfailure'] at h
    exact State.mode_eq_of_failure?_finish hstrict h
  -- Neither setting has had a say in the scan, so both have left it in the same state.
  have hsame : scanSource setting s = scanSource strict s :=
    (State.scanLines_eq_permissive hfailure).trans (State.scanLines_eq_permissive hfailure').symm
  have htidy : (scanSource strict s).state.Tidy := State.tidy_initial.scanLines 1 (Text.lines s)
  rw [hsame]
  exact ⟨hmode, htidy (by simp [hmode])⟩

/-- From a scan at rest, a source is read as by itself, with its lines moved by those before it. -/
theorem drain_scanLines_of_atRest {r : State} (hr : r.AtRest) (k : Int) (t : Text) :
    (r.scanLines setting (1 + k) (Text.lines t)).drain setting =
      (drain setting t).renumber (· + k) := by
  have halike : ({ r with line := 1 + k } : State).Alike
      { State.initial.renumber (· + k) with line := 1 + k } :=
    State.alike_of_normal hr.mode_eq rfl rfl hr.buffer_eq
  rw [State.drain_scanLines_congr halike, State.scanLines_renumber, Progress.renumber_drain,
    ← drain_eq_lines]

end Append

/-- Where a source ends, another may begin. If a word makes the first fail, there is nothing else.
Otherwise its tokens are the first ones, and if nothing is left open in it, the drain of the second
source follows, with its lines moved by the number of lines before it. -/
theorem drain_append_newline (setting : Setting) (s t : Text) :
    let whole := drain setting (s ++ '\n' :: t)
    let moved := (drain setting t).renumber (· + ((s.count '\n' : Int) + 1))
    ((drain setting s).FailsAtWord → whole = drain setting s) ∧
      (¬ (drain setting s).FailsAtWord →
        (drain setting s).tokens <+: whole.tokens ∧
          ∀ strict : Setting, strict.config.isStrict → (drain strict s).failure? = none →
            whole = ⟨(drain setting s).tokens ++ moved.tokens, moved.ending⟩) := by
  intro whole moved
  have hwhole : whole = _ := drain_append_newline_eq setting s t
  have hs : drain setting s = (scanSource setting s).drain setting := drain_eq_lines setting s
  cases hfailure : (scanSource setting s).failure with
  | some e =>
    have hword : (drain setting s).FailsAtWord := failsAtWord_iff.2 ⟨e, hfailure⟩
    have hstop : whole = drain setting s := by
      rw [hwhole, hs, Progress.andThen, hfailure]
    exact ⟨fun _ => hstop, fun hnot => absurd hword hnot⟩
  | none =>
    have hword : ¬ (drain setting s).FailsAtWord := by simp [failsAtWord_iff, hfailure]
    rw [Progress.andThen, hfailure, Progress.drain_prepend] at hwhole
    refine ⟨fun h => absurd h hword, fun _ => ⟨?_, fun strict hstrict hclosed => ?_⟩⟩
    · rw [hwhole, hs, Progress.tokens_drain]
      exact List.prefix_append _ _
    · have hrest := atRest_scanSource hfailure hstrict hclosed
      rw [hwhole, drain_scanLines_of_atRest hrest, hs, Progress.tokens_drain]

/-- A literal that is left open in the second source fails on the line it has in the whole, and a
word that is rejected in the first source hides the second. -/
theorem drain_append_newline_moved :
    let setting : Setting := ⟨.ofFlags true true, none⟩
    drain setting "/* c\n*/ x\r\ny 'a".toList =
        ⟨[⟨['x'], .identifier, 2⟩, ⟨['y'], .identifier, 3⟩],
          .failed ⟨.unterminated .stringLiteral, 3, none⟩⟩ ∧
      drain setting "x $\n/*".toList =
        ⟨[⟨['x'], .identifier, 1⟩], .failed ⟨.unrecognized ['$'], 1, none⟩⟩ := by
  intro setting
  constructor
  · have hfirst : drain setting "/* c\n*/ x\r".toList = ⟨[⟨['x'], .identifier, 2⟩], .clean⟩ := by
      decide
    have hsecond : drain setting "y 'a".toList =
        ⟨[⟨['y'], .identifier, 1⟩], .failed ⟨.unterminated .stringLiteral, 1, none⟩⟩ := by decide
    have hword : ¬ (drain setting "/* c\n*/ x\r".toList).FailsAtWord := by
      rintro ⟨e, he, -⟩
      rw [hfirst] at he
      cases he
    have hwhole := ((drain_append_newline setting "/* c\n*/ x\r".toList "y 'a".toList).2 hword).2
      setting rfl (by rw [hfirst]; rfl)
    rw [hfirst, hsecond] at hwhole
    exact hwhole
  · have hfirst : drain setting "x $".toList =
        ⟨[⟨['x'], .identifier, 1⟩], .failed ⟨.unrecognized ['$'], 1, none⟩⟩ := by decide
    have hwhole := (drain_append_newline setting "x $".toList "/*".toList).1
      (by rw [hfirst]; exact ⟨_, rfl, ['$'], rfl⟩)
    exact hwhole.trans hfirst

end Scan

end PascalTokens
