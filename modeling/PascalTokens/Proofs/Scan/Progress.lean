import PascalTokens.Scan.Drain

/-!
# Parts of a scan, one after the other

A scan is a sequence of parts that goes on as long as no part has failed. Words, lines and whole
sources are put together in this one way, so a fact about a scan follows from the same fact about
one word and from its being kept when two parts are put together.

## Main definitions

* `Progress.andThen` puts a further part behind one.
* `Progress.drain` is the drain of a scan that ends here.
* `State.scanLine` is the part of a scan that one line makes.

## Main statements

* `State.wordStep`: what one word can do.
* `State.scanWords_cons`, `State.scanWords_append` and `State.scanLines_cons` take a scan apart.
* `drain_eq_scanLines`: draining a source is scanning its lines and ending there.
-/

namespace PascalTokens

namespace Scan

/-- The scan is between constructs and has collected no text. -/
structure State.AtRest (s : State) : Prop where
  mode_eq : s.mode = .normal
  buffer_eq : s.buffer = .empty

/-- The order of the tests is the same as for a word on its own. -/
theorem tokenClass?_eq_classify (w : Text) : tokenClass? w = Word.classify w := by
  unfold tokenClass? Word.classify Word.classifyBy Word.order
  cases h₁ : Word.isKeyword w <;> cases h₂ : Word.isRelational w <;>
    cases h₃ : Word.isArithmetic w <;> cases h₄ : Word.isIdentifier w <;>
    cases h₅ : Word.isNumber w <;> simp [List.find?, h₁, h₂, h₃, h₄, h₅]

/-! ## What one word can do -/

namespace State

variable {setting : Setting} {s : State} {w : Text}

theorem scanWord_of_normal (h : s.mode = .normal) :
    s.scanWord setting w = s.scanNormal setting w := by simp [scanWord, h]

theorem scanWord_of_string (h : s.mode = .string) : s.scanWord setting w = s.scanString w := by
  simp [scanWord, h]

theorem scanWord_of_comment (h : s.mode = .comment) :
    s.scanWord setting w = (s.scanComment w, .nothing) := by simp [scanWord, h]

/-- What a word between constructs can make of a scan: it is a token, it opens a construct, it is
passed over, or it is rejected. -/
inductive NormalStep (setting : Setting) (s : State) (w : Text) : State × Emission → Prop where
  | token (tokenClass : TokenClass) (hclass : Word.classify w = some tokenClass) :
      NormalStep setting s w (s, .token ⟨w, tokenClass, s.line⟩)
  | opensString (seed : Text) (hclass : Word.classify w = none)
      (hseed : Word.stringSeed? w = some seed) :
      NormalStep setting s w (s.openString seed, .nothing)
  | opensComment (hclass : Word.classify w = none) (hopen : Word.commentLeftOpen? w = some true) :
      NormalStep setting s w (s.openComment, .nothing)
  | passed (hclass : Word.classify w = none) (hseed : Word.stringSeed? w = none)
      (hopen : Word.commentLeftOpen? w ≠ some true) : NormalStep setting s w (s, .nothing)
  | rejected (hclass : Word.classify w = none) (hrejects : setting.config.rejects)
      (hword : Word.isPunctuation w = false) :
      NormalStep setting s w (s, .failure (fail setting (.unrecognized w) s.line))

theorem normalStep (setting : Setting) (s : State) (w : Text) :
    NormalStep setting s w (s.scanNormal setting w) := by
  unfold scanNormal
  rw [tokenClass?_eq_classify]
  cases hclass : Word.classify w with
  | some tokenClass => exact .token tokenClass hclass
  | none =>
    cases hseed : Word.stringSeed? w with
    | some seed => exact .opensString seed hclass hseed
    | none =>
      rcases hopen : Word.commentLeftOpen? w with _ | _ | _
      · dsimp only
        split
        · next h =>
          simp only [Bool.and_eq_true, Bool.not_eq_true'] at h
          exact .rejected hclass h.1 h.2
        · exact .passed hclass hseed (by simp [hopen])
      · exact .passed hclass hseed (by simp [hopen])
      · exact .opensComment hclass hopen

/-- A word that opens a literal is a quote and the beginning of the text. -/
theorem eq_of_stringSeed? {seed : Text} (h : Word.stringSeed? w = some seed) :
    w = Symbol.stringQuote :: seed := by
  unfold Word.stringSeed? at h
  split at h
  · next ho =>
    simp only [Word.opensString, Bool.and_eq_true, decide_eq_true_eq] at ho
    obtain ⟨t, rfl⟩ := List.head?_eq_some_iff.1 ho.1
    rw [← Option.some.inj h]
    rfl
  · simp at h

/-- What a word in a string literal can make of a scan: it closes the literal, or its text is
collected. -/
inductive StringStep (s : State) (w : Text) : State × Emission → Prop where
  | closes (body : Text) (hw : w = body ++ [Symbol.stringQuote]) :
      StringStep s w ({ s with mode := .normal, buffer := .empty },
        .token ⟨s.buffer.text ++ ' ' :: body, .stringLiteral, s.line⟩)
  | collects (hw : w.getLast? ≠ some Symbol.stringQuote) :
      StringStep s w ({ s with buffer := (s.buffer.append [' ']).append w }, .nothing)

theorem stringStep (s : State) (w : Text) : StringStep s w (s.scanString w) := by
  unfold scanString
  split
  · next h =>
    obtain ⟨body, rfl⟩ := List.getLast?_eq_some_iff.1 h
    simpa [emit] using StringStep.closes (s := s) body rfl
  · next h => exact .collects h

/-- What a word can make of a scan, by what is open: in a comment, it ends this comment or it is
skipped. -/
inductive WordStep (setting : Setting) (s : State) (w : Text) : State × Emission → Prop where
  | normal {out : State × Emission} (hmode : s.mode = .normal)
      (hstep : NormalStep setting s w out) : WordStep setting s w out
  | string {out : State × Emission} (hmode : s.mode = .string) (hstep : StringStep s w out) :
      WordStep setting s w out
  | closesComment (hmode : s.mode = .comment) (hcloses : Word.closesComment w) :
      WordStep setting s w ({ s with mode := .normal }, .nothing)
  | skipped (hmode : s.mode = .comment) (hcloses : ¬ Word.closesComment w) :
      WordStep setting s w (s, .nothing)

theorem wordStep (setting : Setting) (s : State) (w : Text) :
    WordStep setting s w (s.scanWord setting w) := by
  cases hmode : s.mode with
  | normal =>
    rw [scanWord_of_normal hmode]
    exact .normal hmode (normalStep setting s w)
  | string =>
    rw [scanWord_of_string hmode]
    exact .string hmode (stringStep s w)
  | comment =>
    rw [scanWord_of_comment hmode, scanComment]
    split
    · next hcloses => exact .closesComment hmode hcloses
    · next hcloses => exact .skipped hmode hcloses

end State

/-! ## Putting parts together -/

namespace Progress

variable (p : Progress) (f g : State → Progress) {ts : List Token} (setting : Setting)

/-- The part of a scan that one word makes. -/
def ofStep : State × Emission → Progress
  | (s, .nothing) => ⟨s, [], none⟩
  | (s, .token t) => ⟨s, [t], none⟩
  | (s, .failure e) => ⟨s, [], some e⟩

/-- Go on from the state that has been reached, unless the scan has failed. -/
def andThen (next : State → Progress) : Progress :=
  match p.failure with
  | some _ => p
  | none => (next p.state).prepend p.tokens

/-- Tokens and ending if the input ends here. -/
def drain : Drain :=
  match p.failure with
  | some e => ⟨p.tokens, .failed e⟩
  | none => ⟨p.tokens, (p.state.finish setting).2⟩

@[simp] theorem state_ofStep (out : State × Emission) : (ofStep out).state = out.1 := by
  obtain ⟨s, _ | _ | _⟩ := out <;> rfl

@[simp] theorem prepend_nil : p.prepend [] = p := rfl

@[simp] theorem tokens_prepend : (p.prepend ts).tokens = ts ++ p.tokens := rfl

@[simp] theorem tokens_drain : (p.drain setting).tokens = p.tokens := by
  obtain ⟨s, us, _ | e⟩ := p <;> rfl

theorem drain_prepend :
    (p.prepend ts).drain setting = ⟨ts ++ (p.drain setting).tokens, (p.drain setting).ending⟩ := by
  obtain ⟨s, us, _ | e⟩ := p <;> rfl

@[simp] theorem prepend_prepend (us : List Token) :
    (p.prepend us).prepend ts = p.prepend (ts ++ us) := by
  simp [prepend]

@[simp] theorem andThen_ok (s : State) (f : State → Progress) :
    andThen ⟨s, ts, none⟩ f = (f s).prepend ts := rfl

@[simp] theorem andThen_failed (s : State) (e : LexicalError) (f : State → Progress) :
    andThen ⟨s, ts, some e⟩ f = ⟨s, ts, some e⟩ := rfl

theorem andThen_prepend : (p.prepend ts).andThen f = (p.andThen f).prepend ts := by
  obtain ⟨s, us, _ | e⟩ := p
  · exact (prepend_prepend (f s) us).symm
  · rfl

theorem andThen_assoc : (p.andThen f).andThen g = p.andThen fun s => (f s).andThen g := by
  obtain ⟨s, us, _ | e⟩ := p
  · exact andThen_prepend (f s) g
  · rfl

/-- A scan that has not failed has gone through all its parts. -/
theorem exists_of_andThen_eq {r : State} (h : p.andThen f = ⟨r, ts, none⟩) :
    ∃ s us vs, p = ⟨s, us, none⟩ ∧ f s = ⟨r, vs, none⟩ ∧ us ++ vs = ts := by
  obtain ⟨s, us, _ | e⟩ := p
  · rw [andThen_ok] at h
    rcases hf : f s with ⟨t, vs, e⟩
    rw [hf] at h
    obtain ⟨rfl, hts, rfl⟩ := mk.inj h
    exact ⟨s, us, vs, rfl, hf, hts⟩
  · simp at h

/-- What a part of a scan and what follows it keep is kept by both. -/
theorem state_andThen {P : State → Prop} {p : Progress} {f : State → Progress}
    (hp : P p.state) (next : ∀ s, P s → P (f s).state) : P (p.andThen f).state := by
  obtain ⟨s, ts, _ | e⟩ := p
  · exact next s hp
  · exact hp

end Progress

namespace State

variable (setting : Setting) (s : State)

theorem finish_snd :
    (s.finish setting).2 =
      match s.mode.construct? with
      | none => .clean
      | some construct =>
        if setting.config.isStrict then
          .failed (fail setting (.unterminated construct) (s.start construct))
        else .dropped construct (s.start construct) := by
  unfold finish
  cases s.mode.construct? with
  | none => rfl
  | some construct => cases setting.config.isStrict <;> simp

@[simp] theorem scanWords_nil : s.scanWords setting [] = ⟨s, [], none⟩ := rfl

theorem scanWords_cons (w : Text) (ws : List Text) :
    s.scanWords setting (w :: ws) =
      (Progress.ofStep (s.scanWord setting w)).andThen fun s => s.scanWords setting ws := by
  rw [scanWords]
  split <;> simp [Progress.ofStep, *]

theorem scanWords_append (ws vs : List Text) :
    s.scanWords setting (ws ++ vs) =
      (s.scanWords setting ws).andThen fun s => s.scanWords setting vs := by
  induction ws generalizing s with
  | nil => rfl
  | cons w ws ih =>
    simp only [List.cons_append, scanWords_cons, ih, Progress.andThen_assoc]

@[simp] theorem scanLines_nil (n : Int) : s.scanLines setting n [] = ⟨s, [], none⟩ := rfl

theorem scanLines_cons (n : Int) (line : Text) (rest : List Text) :
    s.scanLines setting n (line :: rest) =
      ((s.beginLine n line).1.scanWords setting (s.beginLine n line).2).andThen
        fun s => s.scanLines setting (n + 1) rest := rfl

/-- The scan of one line. -/
def scanLine (n : Int) (line : Text) : Progress :=
  (s.beginLine n line).1.scanWords setting (s.beginLine n line).2

theorem scanLines_singleton (n : Int) (line : Text) :
    s.scanLines setting n [line] = s.scanLine setting n line := by
  rw [scanLines_cons, scanLine]
  generalize (s.beginLine n line).1.scanWords setting (s.beginLine n line).2 = whole
  obtain ⟨r, ts, _ | e⟩ := whole
  · simp [Progress.prepend]
  · rfl

theorem scanLines_append (n : Int) (lines others : List Text) :
    s.scanLines setting n (lines ++ others) =
      (s.scanLines setting n lines).andThen
        fun s => s.scanLines setting (n + lines.length) others := by
  induction lines generalizing s n with
  | nil => simp
  | cons line lines ih =>
    have hnumber : n + 1 + (lines.length : Int) = n + (line :: lines).length := by
      simp only [List.length_cons, Int.natCast_succ]
      omega
    simp only [List.cons_append, scanLines_cons, ih, Progress.andThen_assoc, hnumber]

theorem scanRest_eq (ws : List Text) (n : Int) (lines : List Text) :
    (s.scanRest setting ws n lines).2 =
      ((s.scanWords setting ws).andThen fun s => s.scanLines setting n lines).drain setting := by
  unfold scanRest
  obtain ⟨s, us, _ | e⟩ := s.scanWords setting ws
  · dsimp only [Progress.andThen_ok]
    obtain ⟨t, vs, _ | e⟩ := s.scanLines setting n lines <;> rfl
  · rfl

end State

theorem drain_eq_scanLines (setting : Setting) (source : Text) :
    drain setting source =
      (State.initial.scanLines setting 1 (sourceLines source)).drain setting :=
  State.scanRest_eq setting State.initial [] 1 (sourceLines source)

end Scan

end PascalTokens
