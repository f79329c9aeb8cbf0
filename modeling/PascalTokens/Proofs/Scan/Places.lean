import Mathlib.Data.List.Forall2
import PascalTokens.Proofs.Scan.Line

/-!
# The places of tokens

Every token has a place of its own in the source. A word stands there as it is, on its line. A
string literal reaches from its opening quote to its closing quote, on whose line it is found; what
stands between them is its text, but for blanks and line comments.

The scan keeps no positions. They are found again by reading the source along with it: what has
been read since the last token is a prefix of the source, and of an open literal it is known from
its quote on.

## Main definitions

* `Span` is a part of a text, and `Span.Holds` says that a token stands there.
* `Placed` reads a text and finds tokens in it, one behind the other.
* `Pending` is what has been read of the construct that is open.

## Main statements

* `placed_scanLines`: the tokens of a scan are found in the lines that it has read.
* `drain_exists_spans`: they stand in parts of the source that do not overlap, in the same order.
-/

namespace PascalTokens

namespace Scan

/-- The part of a text from position `start` on and before position `stop`. -/
structure Span where
  start : Nat
  stop : Nat
  deriving DecidableEq, Repr

/-- The number of the line on which position `i` lies. -/
def lineAt (source : Text) (i : Nat) : Int := (source.take i).count '\n' + 1

/-- A text without the line comments of its lines, and without blanks. -/
def visible (t : Text) : Text :=
  Text.dropBlanks ((Text.lines t).flatMap (Text.before Symbol.lineComment))

namespace Span

variable (source : Text) (p : Span) (t : Token)

def text : Text := (source.take p.stop).drop p.start

/-- What is between the first and the last character. -/
def inner : Span := ⟨p.start + 1, p.stop - 1⟩

/-- The lexeme stands here, on the line of the token. -/
structure HoldsWord : Prop where
  text_eq : p.text source = t.lexeme
  line_eq : ∀ i, p.start ≤ i → i < p.stop → lineAt source i = t.line

/-- The literal stands here with its quotes, and the closing quote is on the line of the token. -/
structure HoldsLiteral : Prop where
  opening : source[p.start]? = some Symbol.stringQuote
  closing : source[p.stop - 1]? = some Symbol.stringQuote
  distinct : p.start < p.stop - 1
  line_eq : lineAt source (p.stop - 1) = t.line
  inner_eq : visible (p.inner.text source) = Text.dropSpaces t.lexeme

/-- The token stands here. -/
structure Holds : Prop where
  nonempty : p.start < p.stop
  inside : p.stop ≤ source.length
  word : t.tokenClass ≠ .stringLiteral → p.HoldsWord source t
  literal : t.tokenClass = .stringLiteral → p.HoldsLiteral source t

end Span

/-! ## Finding tokens in a text -/

/-- Tokens are found in a text that begins on line number `n`: a word as it is, a literal between
its quotes. Between them any character may be skipped. -/
inductive Placed : Int → Text → List Token → Prop where
  | done {n : Int} {text : Text} : Placed n text []
  | skip {n : Int} {c : Char} {text : Text} {ts : List Token}
      (rest : Placed (n + [c].count '\n') text ts) : Placed n (c :: text) ts
  | word {t : Token} {text : Text} {ts : List Token} (hclass : t.tokenClass ≠ .stringLiteral)
      (hword : Text.IsWord t.lexeme) (rest : Placed t.line text ts) :
      Placed t.line (t.lexeme ++ text) (t :: ts)
  | literal {n : Int} {t : Token} {inner text : Text} {ts : List Token}
      (hclass : t.tokenClass = .stringLiteral) (hline : n + inner.count '\n' = t.line)
      (hinner : visible inner = Text.dropSpaces t.lexeme) (rest : Placed t.line text ts) :
      Placed n (Symbol.stringQuote :: inner ++ Symbol.stringQuote :: text) (t :: ts)

theorem Placed.skip_all {n : Int} {a text : Text} {ts : List Token} (ha : '\n' ∉ a)
    (h : Placed n text ts) : Placed n (a ++ text) ts := by
  induction a with
  | nil => exact h
  | cons c a ih =>
    rw [List.mem_cons, not_or] at ha
    have hc : [c].count '\n' = 0 := by simp [Ne.symm ha.1]
    exact .skip (by simpa [hc] using ih ha.2)

theorem lineAt_append (pre t : Text) (j : Nat) :
    lineAt (pre ++ t) (pre.length + j) = pre.count '\n' + (t.take j).count '\n' + 1 := by
  simp [lineAt, List.take_length_add_append]

theorem Span.text_append (pre a t : Text) :
    (Span.mk pre.length (pre.length + a.length)).text (pre ++ (a ++ t)) = a := by
  simp [Span.text, List.take_length_add_append]

theorem Span.holdsWord_append {t : Token} (pre text : Text) (ht : '\n' ∉ t.lexeme)
    (hline : t.line = pre.count '\n' + 1) :
    (Span.mk pre.length (pre.length + t.lexeme.length)).HoldsWord (pre ++ (t.lexeme ++ text)) t where
  text_eq := Span.text_append pre t.lexeme text
  line_eq i hi hstop := by
    obtain ⟨j, rfl⟩ := Nat.exists_eq_add_of_le hi
    have hj : j ≤ t.lexeme.length := by dsimp only at hstop; omega
    have hzero : (t.lexeme.take j).count '\n' = 0 :=
      List.count_eq_zero.2 fun hm => ht (List.mem_of_mem_take hm)
    rw [lineAt_append, List.take_append_of_le_length hj, hzero, hline]
    simp

theorem Span.holdsLiteral_append {t : Token} (pre inner text : Text)
    (hline : t.line = pre.count '\n' + 1 + inner.count '\n')
    (hinner : visible inner = Text.dropSpaces t.lexeme) :
    (Span.mk pre.length (pre.length + (inner.length + 2))).HoldsLiteral
      (pre ++ (Symbol.stringQuote :: inner ++ Symbol.stringQuote :: text)) t where
  opening := by simp
  closing := by simp
  distinct := by simp
  line_eq := by
    have hquote : (Symbol.stringQuote == '\n') = false := by decide
    have hstop : pre.length + (inner.length + 2) - 1 = pre.length + (inner.length + 1) := by omega
    simp only [hstop, lineAt_append]
    simp [List.count_cons, hquote, hline]
    omega
  inner_eq := by
    have h := Span.text_append (pre ++ [Symbol.stringQuote]) inner (Symbol.stringQuote :: text)
    rw [← hinner]
    refine congrArg visible (Eq.trans ?_ h)
    simp [Span.inner, Nat.add_comm, Nat.add_left_comm]

/-- Where tokens are found in the rest of a source, they stand in parts of the source. -/
theorem Placed.exists_spans {n : Int} {text : Text} {ts : List Token} (h : Placed n text ts)
    (pre : Text) (hn : n = pre.count '\n' + 1) :
    ∃ spans : List Span, List.Forall₂ (Span.Holds (pre ++ text)) spans ts ∧
      spans.Pairwise (fun p q => p.stop ≤ q.start) ∧ ∀ p ∈ spans, pre.length ≤ p.start := by
  -- What is skipped or found goes over to `pre`, so the positions found later lie behind it.
  induction h generalizing pre with
  | done => exact ⟨[], .nil, .nil, by simp⟩
  | @skip n c text ts _ ih =>
    obtain ⟨spans, hholds, hsorted, hstart⟩ := ih (pre ++ [c]) (by simp [hn]; omega)
    refine ⟨spans, by simpa using hholds, hsorted, fun p hp => ?_⟩
    have := hstart p hp
    simp at this
    omega
  | @word t text ts hclass hword _ ih =>
    have hnewline := hword.solid.newline_notMem
    have hpos := List.length_pos_iff.2 hword.ne_nil
    obtain ⟨spans, hholds, hsorted, hstart⟩ :=
      ih (pre ++ t.lexeme) (by simp [hn, List.count_eq_zero.2 hnewline])
    simp only [List.length_append, List.append_assoc] at hholds hstart
    refine ⟨⟨pre.length, pre.length + t.lexeme.length⟩ :: spans, .cons ?_ hholds,
      List.pairwise_cons.2 ⟨hstart, hsorted⟩, ?_⟩
    · exact ⟨Nat.lt_add_of_pos_right hpos, by simp,
        fun _ => Span.holdsWord_append pre text hnewline hn, fun h => absurd h hclass⟩
    · intro p hp
      rcases List.mem_cons.1 hp with rfl | hp
      · exact Nat.le_refl _
      · exact Nat.le_trans (Nat.le_add_right ..) (hstart p hp)
  | @literal n t inner text ts hclass hline hinner _ ih =>
    have hquote : (Symbol.stringQuote == '\n') = false := by decide
    obtain ⟨spans, hholds, hsorted, hstart⟩ :=
      ih (pre ++ (Symbol.stringQuote :: inner ++ [Symbol.stringQuote]))
        (by simp [List.count_cons, hquote, ← hline, hn]; omega)
    have hlength : (pre ++ (Symbol.stringQuote :: inner ++ [Symbol.stringQuote])).length =
        pre.length + (inner.length + 2) := by simp
    have hsource : pre ++ (Symbol.stringQuote :: inner ++ [Symbol.stringQuote]) ++ text =
        pre ++ (Symbol.stringQuote :: inner ++ Symbol.stringQuote :: text) := by simp
    rw [hsource] at hholds
    rw [hlength] at hstart
    refine ⟨⟨pre.length, pre.length + (inner.length + 2)⟩ :: spans, .cons ?_ hholds,
      List.pairwise_cons.2 ⟨hstart, hsorted⟩, ?_⟩
    · refine ⟨by simp, by simp, fun h => absurd hclass h, fun _ => ?_⟩
      exact Span.holdsLiteral_append pre inner text (by rw [← hline, hn]) hinner
    · intro p hp
      rcases List.mem_cons.1 hp with rfl | hp
      · exact Nat.le_refl _
      · exact Nat.le_trans (Nat.le_add_right ..) (hstart p hp)

/-! ## Reading the source along with the scan -/

theorem visible_append_newline (a b : Text) :
    visible (a ++ '\n' :: b) = visible a ++ visible b := by
  simp [visible, Text.lines, List.splitOn_append_cons_self]

theorem visible_of_notMem {t : Text} (h : '\n' ∉ t) :
    visible t = Text.dropBlanks (Text.before Symbol.lineComment t) := by
  simp [visible, Text.lines_eq_singleton h]

/-- The text ends where a line begins, so that what follows is read on its own. -/
def EndsLine (past : Text) : Prop := ∀ t, visible (past ++ t) = visible past ++ visible t

theorem endsLine_nil : EndsLine [] := fun _ => rfl

theorem endsLine_concat_newline (a : Text) : EndsLine (a ++ ['\n']) := by
  intro t
  have h := visible_append_newline a []
  rw [List.append_assoc, List.singleton_append, visible_append_newline, h]
  simp [visible, Text.lines]

/-- What has been read of the construct that is open in a state, from line number `n` on: nothing,
or a literal from its quote on. Of the latter, `here` is what has been read on the current line. -/
inductive Pending (s : State) : Int → Text → Text → Prop where
  | closed (hmode : s.mode ≠ .string) (hbuffer : s.buffer.text = []) : Pending s s.line [] []
  | literal {n : Int} {past here : Text} (hmode : s.mode = .string) (hpast : EndsLine past)
      (hline : n + past.count '\n' = s.line) (hhere : '\n' ∉ here)
      (hbuffer : visible past ++ Text.dropBlanks here = Text.dropSpaces s.buffer.text) :
      Pending s n (Symbol.stringQuote :: past ++ here) here

/-- The tokens that `next` gives are found in the rest of a source, whatever is pending. The rest
is what is left of line number `number`, first `t` and then the line comment `k`, and `more`. -/
def Reads (number : Int) (t k more : Text) (next : State → Progress) : Prop :=
  ∀ ⦃s : State⦄ ⦃n : Int⦄ ⦃pre here : Text⦄, s.line = number → Pending s n pre here →
    Text.before Symbol.lineComment (here ++ (t ++ k)) = here ++ t →
    Placed n (pre ++ (t ++ (k ++ more))) (next s).tokens

section Reads

variable {setting : Setting} {number : Int} {t k more w : Text} {c : Char}
  {next : State → Progress}

theorem Reads.blank (hc : c ≠ '\n') (hblank : Text.isBlank c)
    (h : Reads number t k more next) : Reads number (c :: t) k more next := by
  intro s n pre here hs hp hcut
  have hcut : Text.before Symbol.lineComment (here ++ [c] ++ (t ++ k)) = here ++ [c] ++ t := by
    simpa using hcut
  cases hp with
  | closed hmode hbuffer =>
    exact .skip_all (a := [c]) (by simpa using hc.symm)
      (h hs (.closed hmode hbuffer) (Text.before_eq_of_append (x := [c]) hcut))
  | @literal _ past _ hmode hpast hline hhere hbuffer =>
    have hp : Pending s n (Symbol.stringQuote :: past ++ (here ++ [c])) (here ++ [c]) :=
      .literal hmode hpast hline (by simp [hhere, hc.symm])
        (by simpa [Text.dropBlanks_cons_blank hblank] using hbuffer)
    simpa using h hs hp hcut

/-- A word between constructs is found as a token, it begins a literal, or it is skipped. -/
theorem Reads.normal (hw : Text.IsWord w) (h : Reads number t k more next) {s : State}
    (hs : s.line = number) (hmode : s.mode = .normal) (hbuffer : s.buffer.text = [])
    (hcut : Text.before Symbol.lineComment (w ++ (t ++ k)) = w ++ t) :
    Placed number (w ++ (t ++ (k ++ more)))
      ((Progress.ofStep (s.scanNormal setting w)).andThen next).tokens := by
  have hskip : ∀ {s : State}, s.line = number → s.mode ≠ .string → s.buffer.text = [] →
      Placed number (w ++ (t ++ (k ++ more))) (next s).tokens := by
    intro s hs hmode hbuffer
    obtain rfl := hs
    exact .skip_all hw.solid.newline_notMem
      (h rfl (.closed hmode hbuffer) (Text.before_eq_of_append hcut))
  have hnormal : s.mode ≠ .string := by simp [hmode]
  obtain rfl := hs
  have hstep := State.normalStep setting s w
  generalize s.scanNormal setting w = out at hstep ⊢
  cases hstep with
  | token tokenClass hclass =>
    have hrest := h rfl (.closed hnormal hbuffer) (Text.before_eq_of_append hcut)
    exact .word (t := ⟨w, tokenClass, s.line⟩) (Word.ne_stringLiteral_of_classify hclass) hw hrest
  | opensString seed hclass hseed =>
    obtain rfl := State.eq_of_stringSeed? hseed
    have hsolid : Text.Solid seed := (Text.solid_cons.1 hw.solid).2
    have hp : Pending (s.openString seed) s.line (Symbol.stringQuote :: [] ++ seed) seed := by
      refine .literal rfl endsLine_nil (by simp [State.openString]) hsolid.newline_notMem ?_
      simp [State.openString, hbuffer, hsolid.dropBlanks_eq, hsolid.dropSpaces_eq, visible,
        Text.lines]
    exact h (s := s.openString seed) rfl hp (Text.before_eq_of_append (x := [_]) hcut)
  | opensComment =>
    exact hskip (s := s.openComment) rfl (by simp [State.openComment]) hbuffer
  | passed => exact hskip rfl hnormal hbuffer
  | rejected => exact .done

/-- A word in a literal is part of its text, and perhaps its end. -/
theorem Reads.string (hw : Text.IsWord w) (h : Reads number t k more next) {s : State} {n : Int}
    {past here : Text} (hs : s.line = number) (hmode : s.mode = .string) (hpast : EndsLine past)
    (hline : n + past.count '\n' = s.line) (hhere : '\n' ∉ here)
    (hbuffer : visible past ++ Text.dropBlanks here = Text.dropSpaces s.buffer.text)
    (hcut : Text.before Symbol.lineComment (here ++ (w ++ (t ++ k))) = here ++ (w ++ t)) :
    Placed n (Symbol.stringQuote :: past ++ here ++ (w ++ (t ++ (k ++ more))))
      ((Progress.ofStep (s.scanString w)).andThen next).tokens := by
  obtain rfl := hs
  have hstep := State.stringStep s w
  generalize s.scanString w = out at hstep ⊢
  cases hstep with
  | closes body hbody =>
    subst hbody
    have hsolid : Text.Solid body := (Text.solid_append.1 hw.solid).1
    have hcut' : Text.before Symbol.lineComment
        (here ++ body ++ ([Symbol.stringQuote] ++ (t ++ k))) =
        here ++ body ++ ([Symbol.stringQuote] ++ t) := by simpa using hcut
    have hnotMem : '\n' ∉ here ++ body := by simp [hhere, hsolid.newline_notMem]
    have hvisible : visible (past ++ (here ++ body)) =
        Text.dropSpaces (s.buffer.text ++ ' ' :: body) := by
      rw [hpast, visible_of_notMem hnotMem, Text.before_eq_self_of_append hcut',
        Text.dropBlanks_append, ← List.append_assoc, hbuffer]
      simp [hsolid.dropBlanks_eq, hsolid.dropSpaces_eq]
    have hrest := h (s := { s with mode := .normal, buffer := .empty }) rfl
      (.closed (by simp) rfl) (Text.before_eq_of_append (x := here ++ (body ++ [_]))
        (by simpa using hcut))
    have hcount : n + (past ++ (here ++ body)).count '\n' = s.line := by
      simp [List.count_append, List.count_eq_zero.2 hhere,
        List.count_eq_zero.2 hsolid.newline_notMem, hline]
    have hplaced := Placed.literal (t := ⟨s.buffer.text ++ ' ' :: body, .stringLiteral, s.line⟩)
      rfl hcount hvisible hrest
    simpa [Progress.ofStep] using hplaced
  | collects =>
    have hp : Pending { s with buffer := (s.buffer.append [' ']).append w } n
        (Symbol.stringQuote :: past ++ (here ++ w)) (here ++ w) := by
      refine .literal hmode hpast hline (by simp [hhere, hw.solid.newline_notMem]) ?_
      rw [Text.dropBlanks_append, ← List.append_assoc, hbuffer]
      simp [hw.solid.dropBlanks_eq, hw.solid.dropSpaces_eq]
    have hrest := h (s := { s with buffer := (s.buffer.append [' ']).append w }) rfl hp
      (by simpa using hcut)
    simpa [Progress.ofStep] using hrest

/-- A word in a comment is skipped. -/
theorem Reads.comment (hw : Text.IsWord w) (h : Reads number t k more next) {s : State}
    (hs : s.line = number) (hmode : s.mode = .comment) (hbuffer : s.buffer.text = [])
    (hcut : Text.before Symbol.lineComment (w ++ (t ++ k)) = w ++ t) :
    Placed number (w ++ (t ++ (k ++ more))) (next (s.scanComment w)).tokens := by
  obtain rfl := hs
  have hcut : Text.before Symbol.lineComment ([] ++ (t ++ k)) = [] ++ t :=
    Text.before_eq_of_append hcut
  refine .skip_all hw.solid.newline_notMem ?_
  unfold State.scanComment
  split
  · exact h (s := { s with mode := .normal }) rfl (.closed (by simp) hbuffer) hcut
  · exact h rfl (.closed (by simp [hmode]) hbuffer) hcut

/-- One word, in whatever mode. -/
theorem Reads.word (hw : Text.IsWord w) (h : Reads number t k more next) :
    Reads number (w ++ t) k more
      fun s => (Progress.ofStep (s.scanWord setting w)).andThen next := by
  intro s n pre here hs hp hcut
  simp only [List.append_assoc] at hcut ⊢
  cases hp with
  | closed hmode hbuffer =>
    rw [hs]
    cases hm : s.mode with
    | normal =>
      rw [State.scanWord_of_normal hm]
      exact Reads.normal hw h hs hm hbuffer hcut
    | string => exact absurd hm hmode
    | comment =>
      rw [State.scanWord_of_comment hm]
      exact Reads.comment hw h hs hm hbuffer hcut
  | @literal _ past _ hmode hpast hline hhere hbuffer =>
    rw [State.scanWord_of_string hmode]
    exact Reads.string hw h hs hmode hpast hline hhere hbuffer hcut

/-- The words of a text, one after the other. -/
theorem Reads.words {ws : List Text} (h : Spacing.Laid ws t) (ht : '\n' ∉ t)
    (hnext : Reads number [] k more next) :
    Reads number t k more fun s => (s.scanWords setting ws).andThen next := by
  induction h with
  | nil => simpa using hnext
  | blank hc _ ih =>
    rw [List.mem_cons, not_or] at ht
    exact .blank (Ne.symm ht.1) hc (ih ht.2)
  | @word w ws t hw _ ih =>
    rw [List.mem_append, not_or] at ht
    have h : Reads number (w ++ t) k more fun s =>
        (Progress.ofStep (s.scanWord setting w)).andThen fun s =>
          (s.scanWords setting ws).andThen next := .word hw (ih ht.2)
    simpa only [State.scanWords_cons, Progress.andThen_assoc] using h

/-- A line, of which a block comment at its beginning and a line comment at its end are skipped. -/
theorem placed_line {s : State} {n : Int} {pre a : Text} (ha : '\n' ∉ a)
    (hp : Pending { s with line := number } n pre [])
    (hnext : ∀ k, '\n' ∉ k → Reads number [] k more next) :
    Placed n (pre ++ (a ++ more))
      (((s.beginLine number a).1.scanWords setting (s.beginLine number a).2).andThen next).tokens := by
  obtain ⟨code, hcut⟩ : ∃ code, Text.before Symbol.lineComment a = code := ⟨_, rfl⟩
  obtain ⟨k, rfl⟩ : code <+: a := hcut ▸ Text.before_prefix Symbol.lineComment a
  rw [List.mem_append, not_or] at ha
  have hread {s : State} {n : Int} {pre t : Text} (hs : s.line = number) (hp : Pending s n pre [])
      (ht : '\n' ∉ t) (hcut : Text.before Symbol.lineComment (t ++ k) = t) :
      Placed n (pre ++ (t ++ (k ++ more)))
        ((s.scanWords setting (s.wordsOf t)).andThen next).tokens :=
    Reads.words (Spacing.laid_words_pad (s.mode = .string) t) ht (hnext k ha.2) hs hp hcut
  by_cases hmode : s.mode = .comment
  · obtain ⟨_, hbuffer⟩ | ⟨hstring, _⟩ := hp
    · cases hafter : Text.after? Symbol.commentClosing code with
      | none =>
        have hbegin : s.beginLine number (code ++ k) = ({ s with line := number }, []) := by
          simp [State.beginLine, State.uncomment, hcut, hmode, hafter]
        have hnil : Text.before Symbol.lineComment ([] ++ k) = [] :=
          Text.before_eq_of_append (x := code) (by simpa using hcut)
        have hrest : Placed number (k ++ more) (next { s with line := number }).tokens :=
          hnext k ha.2 rfl (.closed (by simp [hmode]) hbuffer) hnil
        rw [hbegin, List.append_assoc, List.nil_append]
        exact .skip_all ha.1 hrest
      | some t =>
        have hbegin : s.beginLine number (code ++ k) =
            ({ s with line := number, mode := .normal },
              State.wordsOf { s with line := number, mode := .normal } t) := by
          simp [State.beginLine, State.uncomment, hcut, hmode, hafter]
        obtain ⟨x, rfl⟩ := Text.eq_of_after?_eq_some hafter
        rw [List.mem_append, not_or] at ha
        rw [List.append_assoc] at hcut
        have hrest := hread (s := { s with line := number, mode := .normal }) rfl
          (.closed (by simp) hbuffer) ha.1.2 (Text.before_eq_of_append hcut)
        rw [hbegin]
        simpa using Placed.skip_all ha.1.1 hrest
    · simp [hmode] at hstring
  · have hbegin : s.beginLine number (code ++ k) =
        ({ s with line := number }, State.wordsOf { s with line := number } code) := by
      simp [State.beginLine, State.uncomment, hcut, hmode]
    rw [hbegin, List.append_assoc]
    exact hread rfl hp ha.1 hcut

end Reads

/-- Going on to the next line, of a pending literal with the line comment `k` in it. -/
theorem Pending.nextLine {s : State} {n : Int} {pre here k rest : Text} {ts : List Token}
    (hp : Pending s n pre here) (hk : '\n' ∉ k)
    (hcut : Text.before Symbol.lineComment (here ++ k) = here)
    (h : ∀ {n pre}, Pending { s with line := s.line + 1 } n pre [] → Placed n (pre ++ rest) ts) :
    Placed n (pre ++ (k ++ '\n' :: rest)) ts := by
  cases hp with
  | closed hmode hbuffer =>
    have hrest : Placed (s.line + 1) rest ts :=
      h (.closed (s := { s with line := s.line + 1 }) hmode hbuffer)
    rw [List.nil_append]
    exact .skip_all hk (.skip hrest)
  | @literal _ past _ hmode hpast hline hhere hbuffer =>
    have hnotMem : '\n' ∉ here ++ k := by simp [hhere, hk]
    have hvisible : visible (past ++ (here ++ k ++ ['\n'])) = Text.dropSpaces s.buffer.text := by
      rw [hpast, visible_append_newline, visible_of_notMem hnotMem, hcut, ← hbuffer]
      simp [visible, Text.lines]
    have hcount : n + (past ++ (here ++ k ++ ['\n'])).count '\n' = s.line + 1 := by
      simp [List.count_eq_zero.2 hhere, List.count_eq_zero.2 hk, ← hline, Int.add_assoc]
    -- The line that ends here, its comment included, becomes a part of what is past.
    have hp : Pending { s with line := s.line + 1 } n
        (Symbol.stringQuote :: (past ++ (here ++ k ++ ['\n'])) ++ []) [] := by
      refine .literal hmode ?_ hcount (by simp) (by simpa using hvisible)
      simpa using endsLine_concat_newline (past ++ (here ++ k))
    simpa using h hp

/-- The tokens of a scan are found in the lines that it has read. -/
theorem placed_scanLines (setting : Setting) (source : Text) {s : State} {number n : Int}
    {pre : Text} (hstart : Pending { s with line := number } n pre []) :
    Placed n (pre ++ source) (s.scanLines setting number (Text.lines source)).tokens := by
  induction source using Text.line_induction generalizing s number n pre with
  | last a ha =>
    rw [Text.lines_eq_singleton ha, State.scanLines_cons]
    have h : Placed n (pre ++ (a ++ [])) (((s.beginLine number a).1.scanWords setting
        (s.beginLine number a).2).andThen fun s => s.scanLines setting (number + 1) []).tokens :=
      placed_line ha hstart fun _ _ _ _ _ _ _ _ _ => .done
    simpa using h
  | step a t ha ih =>
    rw [Text.lines_append_newline ha, State.scanLines_cons]
    refine placed_line ha hstart fun k hk s n pre here hs hp hcut => ?_
    obtain rfl := hs
    have hcut : Text.before Symbol.lineComment (here ++ k) = here := by simpa using hcut
    exact hp.nextLine hk hcut ih

/-- The tokens of a source stand in parts of it that do not overlap, in the same order. -/
theorem drain_exists_spans (setting : Setting) (source : Text) :
    ∃ spans : List Span, List.Forall₂ (Span.Holds source) spans (drain setting source).tokens ∧
      spans.Pairwise fun p q => p.stop ≤ q.start := by
  have hstart : Pending { State.initial with line := 1 } 1 [] [] :=
    .closed (by simp [State.initial]) rfl
  obtain ⟨spans, hholds, hsorted, _⟩ :=
    (placed_scanLines setting source hstart).exists_spans [] (by simp)
  rw [drain_eq_lines, Progress.tokens_drain]
  exact ⟨spans, hholds, hsorted⟩

end Scan

end PascalTokens
