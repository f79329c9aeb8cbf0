import PascalTokens.Proofs.Scan.Resume
import PascalTokens.Scan.Reader

/-!
# A reader gives out the drain of its source

A reader is asked for the next token, for all that is left, or to begin again, in any order. What
it answers depends only on how many answers its stream has given: the stream hands out the drain of
the source from the front. Nothing of an abandoned stream reaches the next one, because a scan is
at rest whenever a stream pauses, stops or fails.

## Main definitions

* `Drain.pull` is the answer number `i` of a stream that hands out a drain.
* `Drain.serve` answers requests from a drain and a position in it.
* `Reader.trace` gives the answers of a reader, each with the scan state after it.

## Main statements

* `Stream.handsOut_next`: the next token of a stream is the first of its drain.
* `Reader.trace_eq_serve`: a reader answers as its drain does, and is at rest after every answer.
-/

namespace PascalTokens

namespace Scan

/-! ## Requests and answers -/

inductive Request where
  | next
  | drain
  | restart
  deriving DecidableEq, Repr

inductive Answer where
  | pulled (pull : Pull)
  | drained (d : Drain)
  | restarted
  deriving DecidableEq, Repr

namespace Drain

/-- The answer number `i` of a stream: the tokens in order, then the ending, then only that there
is nothing more. -/
def pull (d : Drain) (i : Nat) : Pull :=
  match d.tokens[i]? with
  | some t => .token t
  | none => .stop (if i = d.tokens.length then d.ending else .clean)

/-- What a stream has left after `i` answers. -/
def after (d : Drain) (i : Nat) : Drain :=
  ⟨d.tokens.drop i, if i ≤ d.tokens.length then d.ending else .clean⟩

/-- The answer of a stream that has given `i` answers, and how many it has given then. -/
def reply (d : Drain) (i : Nat) : Request → Nat × Answer
  | .next => (i + 1, .pulled (d.pull i))
  | .drain => (d.tokens.length + 1, .drained (d.after i))
  | .restart => (0, .restarted)

/-- The answers to requests, from a stream that has given `i` answers. -/
def serve (d : Drain) (i : Nat) : List Request → List Answer
  | [] => []
  | q :: rest => (d.reply i q).2 :: d.serve (d.reply i q).1 rest

@[simp] theorem after_zero (d : Drain) : d.after 0 = d := by simp [after]

@[simp] theorem after_length_succ (d : Drain) : d.after (d.tokens.length + 1) = ⟨[], .clean⟩ := by
  rw [after, if_neg (Nat.not_succ_le_self _), List.drop_eq_nil_of_le (Nat.le_succ _)]

theorem after_one_cons (t : Token) (ts : List Token) (ending : Ending) :
    after ⟨t :: ts, ending⟩ 1 = ⟨ts, ending⟩ := by simp [after]

theorem pull_after (d : Drain) (i : Nat) : (d.after i).pull 0 = d.pull i := by
  unfold pull after
  rcases Nat.lt_trichotomy i d.tokens.length with h | h | h
  · have hget : d.tokens[i]? = some d.tokens[i] := List.getElem?_eq_getElem h
    simp [hget]
  · simp [h]
  · have hlong : d.tokens.length ≤ i := by omega
    have hne : i ≠ d.tokens.length := by omega
    simp [hlong, hne, Nat.not_le.2 h]

theorem after_after_one (d : Drain) (i : Nat) : (d.after i).after 1 = d.after (i + 1) := by
  unfold after
  by_cases h : i + 1 ≤ d.tokens.length
  · have hi : i ≤ d.tokens.length := by omega
    have hone : 1 ≤ d.tokens.length - i := by omega
    simp [h, hi, hone]
  · have hone : ¬ 1 ≤ d.tokens.length - i := by omega
    simp [h, hone]

end Drain

namespace Reader

/-- Answer a request. -/
def answer (r : Reader) : Request → Reader × Answer
  | .next => (r.next.1, .pulled r.next.2)
  | .drain => (r.drain.1, .drained r.drain.2)
  | .restart => (r.restart, .restarted)

/-- The answers to requests, each with the scan state after it. -/
def trace (r : Reader) : List Request → List (Answer × State)
  | [] => []
  | q :: rest => ((r.answer q).2, (r.answer q).1.state) :: (r.answer q).1.trace rest

end Reader

/-! ## Where a scan can pause -/

variable {setting : Setting} {s : State}

namespace State

theorem AtRest.tidy (h : s.AtRest) : s.Tidy := fun _ => h.buffer_eq

theorem Tidy.atRest (h : s.Tidy) (hmode : s.mode = .normal) : s.AtRest :=
  ⟨hmode, h (by simp [hmode])⟩

/-- What a word makes of a tidy scan: only between constructs is there a token, on the line of the
scan, or a failure. -/
inductive TidyStep : State × Emission → Prop where
  | nothing (t : State) (ht : t.Tidy) : TidyStep (t, .nothing)
  | token (t : State) (tok : Token) (ht : t.AtRest) (hline : tok.line = t.line) :
      TidyStep (t, .token tok)
  | failure (t : State) (e : LexicalError) (ht : t.AtRest) : TidyStep (t, .failure e)

theorem Tidy.tidyStep (h : s.Tidy) (w : Text) : TidyStep (s.scanWord setting w) := by
  have htidy : (s.scanWord setting w).1.Tidy := h.scanWord w
  have hstep := wordStep setting s w
  generalize s.scanWord setting w = out at hstep htidy ⊢
  cases hstep with
  | normal hmode hstep =>
    cases hstep with
    | token => exact .token s _ (h.atRest hmode) rfl
    | rejected => exact .failure s _ (h.atRest hmode)
    | opensString => exact .nothing _ htidy
    | opensComment => exact .nothing _ htidy
    | passed => exact .nothing s h
  | string hmode hstep =>
    cases hstep with
    | closes => exact .token _ _ ⟨rfl, rfl⟩ rfl
    | collects => exact .nothing _ htidy
  | closesComment => exact .nothing _ htidy
  | skipped => exact .nothing _ htidy

theorem Tidy.atRest_finish (h : s.Tidy) : (s.finish setting).1.AtRest := by
  unfold finish
  cases hmode : s.mode with
  | normal => exact h.atRest hmode
  | string => cases setting.config.isStrict <;> exact ⟨rfl, rfl⟩
  | comment => cases setting.config.isStrict <;> exact ⟨rfl, rfl⟩

end State

/-- The scan is tidy, and at rest if it has failed. -/
structure Progress.Settled (p : Progress) : Prop where
  tidy : p.state.Tidy
  atRest : p.failure.isSome → p.state.AtRest

theorem Progress.Settled.andThen {p : Progress} {f : State → Progress} (hp : p.Settled)
    (next : ∀ s : State, s.Tidy → (f s).Settled) : (p.andThen f).Settled := by
  obtain ⟨s, ts, _ | e⟩ := p
  · obtain ⟨htidy, hrest⟩ := next s hp.tidy
    exact ⟨htidy, hrest⟩
  · exact hp

namespace State

theorem Tidy.settled_scanWords (h : s.Tidy) (ws : List Text) :
    (s.scanWords setting ws).Settled := by
  induction ws generalizing s with
  | nil => exact ⟨h, by simp⟩
  | cons w ws ih =>
    rw [scanWords_cons]
    refine Progress.Settled.andThen ?_ fun _ => ih
    have hstep : State.TidyStep (s.scanWord setting w) := h.tidyStep w
    generalize s.scanWord setting w = out at hstep ⊢
    cases hstep with
    | nothing t ht => exact ⟨ht, nofun⟩
    | token t tok ht => exact ⟨ht.tidy, nofun⟩
    | failure t e ht => exact ⟨ht.tidy, fun _ => ht⟩

theorem Tidy.settled_scanLines (h : s.Tidy) (n : Int) (lines : List Text) :
    (s.scanLines setting n lines).Settled := by
  induction lines generalizing s n with
  | nil => exact ⟨h, by simp⟩
  | cons line lines ih =>
    rw [scanLines_cons]
    exact ((h.beginLine n line).settled_scanWords _).andThen fun _ hs => ih hs (n + 1)

/-- The state that is left when a source has been read to its end, or to its failure. -/
theorem scanRest_fst (s : State) (ws : List Text) (n : Int) (lines : List Text) :
    (s.scanRest setting ws n lines).1 =
      let p := (s.scanWords setting ws).andThen fun s => s.scanLines setting n lines
      if p.failure.isSome then p.state else (p.state.finish setting).1 := by
  unfold scanRest
  obtain ⟨s, us, _ | e⟩ := s.scanWords setting ws
  · dsimp only [Progress.andThen_ok]
    obtain ⟨t, vs, _ | e⟩ := s.scanLines setting n lines <;> rfl
  · rfl

theorem Tidy.atRest_scanRest (h : s.Tidy) (ws : List Text) (n : Int) (lines : List Text) :
    (s.scanRest setting ws n lines).1.AtRest := by
  have hsettled : ((s.scanWords setting ws).andThen
      fun s => s.scanLines setting n lines).Settled :=
    (h.settled_scanWords ws).andThen fun _ hs => hs.settled_scanLines n lines
  rw [scanRest_fst]
  dsimp only
  split
  · next hfailure => exact hsettled.atRest hfailure
  · exact hsettled.tidy.atRest_finish

end State

/-! ## The next token of a stream -/

namespace Stream

/-- What a stream gives next when `d` is all that it has left: the first part of `d`. The scan is
then at rest, on the line of the token if it was one, and the stream has the rest of `d` left. -/
structure HandsOut (setting : Setting) (d : Drain) (out : State × Stream × Pull) : Prop where
  atRest : out.1.AtRest
  pull_eq : out.2.2 = d.pull 0
  line_eq : ∀ t, out.2.2 = .token t → out.1.line = t.line
  drain_eq : (out.2.1.drain setting out.1).2 = d.after 1

/-- Words are read up to the first emission. -/
inductive PullStep (setting : Setting) (s : State) (ws : List Text) :
    State × Option (Emission × List Text) → Prop where
  | nothing (t : State) (ht : t.Tidy) (hscan : s.scanWords setting ws = ⟨t, [], none⟩) :
      PullStep setting s ws (t, none)
  | token (t : State) (tok : Token) (rest : List Text) (ht : t.AtRest) (hline : tok.line = t.line)
      (hscan : s.scanWords setting ws = (t.scanWords setting rest).prepend [tok]) :
      PullStep setting s ws (t, some (.token tok, rest))
  | failure (t : State) (e : LexicalError) (rest : List Text) (ht : t.AtRest)
      (hscan : s.scanWords setting ws = ⟨t, [], some e⟩) :
      PullStep setting s ws (t, some (.failure e, rest))

theorem pullStep (setting : Setting) (h : s.Tidy) (ws : List Text) :
    PullStep setting s ws (pullWord setting s ws) := by
  induction ws generalizing s with
  | nil => exact .nothing s h rfl
  | cons w ws ih =>
    have hscan := State.scanWords_cons setting s w ws
    have hstep : State.TidyStep (s.scanWord setting w) := h.tidyStep w
    unfold pullWord
    generalize s.scanWord setting w = out at hstep hscan ⊢
    cases hstep with
    | nothing t ht =>
      have hnext : s.scanWords setting (w :: ws) = t.scanWords setting ws := hscan
      have hpull := ih ht
      dsimp only
      generalize pullWord setting t ws = found at hpull ⊢
      cases hpull with
      | nothing u hu hrest => exact .nothing u hu (hnext.trans hrest)
      | token u tok rest hu hline hrest => exact .token u tok rest hu hline (hnext.trans hrest)
      | failure u e rest hu hrest => exact .failure u e rest hu (hnext.trans hrest)
    | token t tok ht hline => exact .token t tok ws ht hline hscan
    | failure t e ht => exact .failure t e ws ht hscan

section HandsOut

variable {ws rest : List Text} {n : Int} {lines : List Text} {t : State}

theorem handsOut_token {tok : Token} (ht : t.AtRest) (hline : tok.line = t.line)
    (hscan : s.scanWords setting ws = (t.scanWords setting rest).prepend [tok]) :
    HandsOut setting
      (((s.scanWords setting ws).andThen fun s => s.scanLines setting n lines).drain setting)
      (t, reading rest n lines, .token tok) := by
  rw [hscan, Progress.andThen_prepend, Progress.drain_prepend]
  refine ⟨ht, rfl, ?_, ?_⟩
  · rintro _ ⟨rfl⟩
    exact hline.symm
  · exact (State.scanRest_eq setting t rest n lines).trans (Drain.after_one_cons _ _ _).symm

theorem handsOut_failure {e : LexicalError} (ht : t.AtRest)
    (hscan : s.scanWords setting ws = ⟨t, [], some e⟩) :
    HandsOut setting
      (((s.scanWords setting ws).andThen fun s => s.scanLines setting n lines).drain setting)
      (t, exhausted, .stop (.failed e)) := by
  rw [hscan]
  exact ⟨ht, rfl, nofun, rfl⟩

end HandsOut

theorem handsOut_pullLines (h : s.Tidy) (n : Int) (lines : List Text) :
    HandsOut setting ((s.scanLines setting n lines).drain setting)
      (pullLines setting s n lines) := by
  induction lines generalizing s n with
  | nil => exact ⟨h.atRest_finish, rfl, nofun, rfl⟩
  | cons line lines ih =>
    have hpull := pullStep setting (h.beginLine n line) (s.beginLine n line).2
    rw [State.scanLines_cons]
    unfold pullLines
    dsimp only
    generalize pullWord setting (s.beginLine n line).1 (s.beginLine n line).2 = found at hpull ⊢
    cases hpull with
    | nothing t ht hscan =>
      rw [hscan]
      exact ih ht (n + 1)
    | token t tok rest ht hline hscan => exact handsOut_token ht hline hscan
    | failure t e rest ht hscan => exact handsOut_failure ht hscan

/-- The next token of a stream is the first of its drain. -/
theorem handsOut_next (setting : Setting) (h : s.AtRest) (stream : Stream) :
    HandsOut setting (stream.drain setting s).2 (stream.next setting s) := by
  cases stream with
  | exhausted => exact ⟨h, rfl, nofun, rfl⟩
  | reading ws n lines =>
    have hpull := pullStep setting h.tidy ws
    unfold drain next
    rw [State.scanRest_eq]
    dsimp only
    generalize pullWord setting s ws = found at hpull ⊢
    cases hpull with
    | nothing t ht hscan =>
      rw [hscan]
      exact handsOut_pullLines ht n lines
    | token t tok rest ht hline hscan => exact handsOut_token ht hline hscan
    | failure t e rest ht hscan => exact handsOut_failure ht hscan

theorem atRest_drain (h : s.AtRest) (stream : Stream) : (stream.drain setting s).1.AtRest := by
  cases stream with
  | exhausted => exact h
  | reading ws n lines => exact h.tidy.atRest_scanRest ws n lines

/-- From a scan at rest, a source is read as by a new scan. -/
theorem drain_ofSource (h : s.AtRest) (source : Text) :
    ((ofSource source).drain setting s).2 = Scan.drain setting source := by
  have halike : ({ s with line := 1 } : State).Alike { State.initial with line := 1 } :=
    State.alike_of_normal h.mode_eq rfl rfl h.buffer_eq
  rw [drain_eq_scanLines, ← State.drain_scanLines_congr halike]
  exact State.scanRest_eq setting s [] 1 (sourceLines source)

end Stream

/-! ## Readers -/

namespace Reader

variable {r : Reader}

/-- The reader of a source is at rest, and its stream has given `i` answers. -/
structure HasGiven (setting : Setting) (source : Text) (i : Nat) (r : Reader) : Prop where
  setting_eq : r.setting = setting
  source_eq : r.source = source
  atRest : r.state.AtRest
  drain_eq : (r.stream.drain setting r.state).2 = (Scan.drain setting source).after i

theorem hasGiven_ofSource (setting : Setting) (source : Text) :
    HasGiven setting source 0 (ofSource setting source) := by
  have hrest : State.initial.AtRest := ⟨rfl, rfl⟩
  refine ⟨rfl, rfl, hrest, ?_⟩
  rw [Drain.after_zero]
  exact Stream.drain_ofSource hrest source

/-- One request: the reader answers as its drain does, and is at rest. -/
theorem HasGiven.answer {setting : Setting} {source : Text} {i : Nat}
    (h : HasGiven setting source i r) (q : Request) :
    (r.answer q).2 = ((Scan.drain setting source).reply i q).2 ∧
      HasGiven setting source ((Scan.drain setting source).reply i q).1 (r.answer q).1 ∧
      ∀ t, (r.answer q).2 = .pulled (.token t) → (r.answer q).1.state.line = t.line := by
  obtain ⟨rfl, rfl, hrest, hdrain⟩ := h
  cases q with
  | next =>
    have hnext := Stream.handsOut_next r.setting hrest r.stream
    rw [hdrain] at hnext
    have hpull : (r.answer .next).2 = .pulled ((Scan.drain r.setting r.source).pull i) :=
      congrArg Answer.pulled (hnext.pull_eq.trans (Drain.pull_after _ i))
    refine ⟨hpull, ⟨rfl, rfl, hnext.atRest, ?_⟩, ?_⟩
    · exact hnext.drain_eq.trans (Drain.after_after_one _ i)
    · intro t ht
      exact hnext.line_eq t (Answer.pulled.inj ht)
  | drain =>
    refine ⟨congrArg Answer.drained hdrain, ⟨rfl, rfl, ?_, ?_⟩, nofun⟩
    · exact Stream.atRest_drain hrest r.stream
    · exact (Drain.after_length_succ _).symm
  | restart =>
    refine ⟨rfl, ⟨rfl, rfl, hrest, ?_⟩, nofun⟩
    exact (Stream.drain_ofSource hrest r.source).trans (Drain.after_zero _).symm

theorem HasGiven.trace {setting : Setting} {source : Text} {i : Nat}
    (h : HasGiven setting source i r) (requests : List Request) :
    (r.trace requests).map (·.1) = (Scan.drain setting source).serve i requests ∧
      ∀ a ∈ r.trace requests, a.2.AtRest ∧
        ∀ t, a.1 = .pulled (.token t) → a.2.line = t.line := by
  induction requests generalizing r i with
  | nil => exact ⟨rfl, fun a ha => absurd ha List.not_mem_nil⟩
  | cons q rest ih =>
    obtain ⟨hanswer, hgiven, hline⟩ := h.answer q
    obtain ⟨hanswers, hstates⟩ := ih hgiven
    refine ⟨List.cons_eq_cons.2 ⟨hanswer, hanswers⟩, ?_⟩
    intro a ha
    rcases List.mem_cons.1 ha with rfl | ha
    · exact ⟨hgiven.atRest, hline⟩
    · exact hstates a ha

/-- Whatever a reader is asked, every stream of it gives the drain of the source from its start on,
and then nothing more. After each answer the scan is at rest, and on the line of the token if the
answer is one. -/
theorem trace_eq_serve (setting : Setting) (source : Text) (requests : List Request) :
    let trace := (ofSource setting source).trace requests
    trace.map (·.1) = (Scan.drain setting source).serve 0 requests ∧
      (ofSource setting source).state.AtRest ∧
      ∀ a ∈ trace, a.2.AtRest ∧ ∀ t, a.1 = .pulled (.token t) → a.2.line = t.line := by
  have hgiven := hasGiven_ofSource setting source
  obtain ⟨hanswers, hstates⟩ := hgiven.trace requests
  exact ⟨hanswers, hgiven.atRest, hstates⟩

/-- A stream that is dropped before a literal, and one that fails at a word behind it. -/
theorem trace_eq_serve_restart :
    let setting : Setting := ⟨.ofFlags false true, none⟩
    let source := "x 'a\nb' $ y".toList
    let x : Token := ⟨['x'], .identifier, 1⟩
    let ab : Token := ⟨"a b".toList, .stringLiteral, 2⟩
    let trace := (ofSource setting source).trace [.next, .restart, .next, .next, .next, .drain]
    trace.map (·.1) = [.pulled (.token x), .restarted, .pulled (.token x), .pulled (.token ab),
        .pulled (.stop (.failed ⟨.unrecognized ['$'], 2, none⟩)), .drained ⟨[], .clean⟩] ∧
      ∀ a ∈ trace, a.2.AtRest := by
  intro setting source x ab trace
  have hdrain : Scan.drain setting source =
      ⟨[x, ab], .failed ⟨.unrecognized ['$'], 2, none⟩⟩ := by decide
  obtain ⟨hanswers, -, hstates⟩ :=
    trace_eq_serve setting source [.next, .restart, .next, .next, .next, .drain]
  refine ⟨hanswers.trans ?_, fun a ha => (hstates a ha).1⟩
  rw [hdrain]
  decide

end Reader

end Scan

end PascalTokens
