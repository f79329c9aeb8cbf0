import Mathlib.Data.List.Forall2
import PascalTokens.Proofs.Scan.Line

/-!
# What every word keeps

A scan begins lines and scans words, and does nothing else before the end of the input. So what
holds of its state at first, and is kept when a line is begun and when a word is scanned, holds of
its state at last; and what is so of the token of each word is so of all tokens. All words come
from lines whose line comments are cut off.

## Main definitions

* `LineWord` says what the words of lines have in common.
* `Progress.Keeps` says what holds of the state and of the tokens of a part of a scan.

## Main statements

* `State.lineWord_of_mem_beginLine`: the words of a line.
* `State.keeps_scanLines`: what every word keeps is kept by a scan of lines.
-/

namespace PascalTokens

namespace Scan

/-- A word as it is found in a line without its line comment. -/
structure LineWord (w : Text) : Prop extends Text.IsWord w where
  comment : ¬ Symbol.lineComment <:+: w

/-- The scan has come to a state that satisfies `P`, with tokens that satisfy `T`. -/
structure Progress.Keeps (P : State → Prop) (T : Token → Prop) (p : Progress) : Prop where
  state : P p.state
  tokens : ∀ t ∈ p.tokens, T t

section Keeps

variable {P : State → Prop} {T : Token → Prop} {setting : Setting} {s : State} {w : Text}

theorem Progress.keeps_nil (h : P s) : Keeps P T ⟨s, [], none⟩ := ⟨h, by simp⟩

theorem Progress.Keeps.andThen {p : Progress} {f : State → Progress} (hp : p.Keeps P T)
    (hf : ∀ s, P s → (f s).Keeps P T) : (p.andThen f).Keeps P T := by
  obtain ⟨s, ts, _ | e⟩ := p
  · obtain ⟨hstate, htokens⟩ := hf s hp.state
    refine ⟨hstate, fun t ht => ?_⟩
    rcases List.mem_append.1 ht with ht | ht
    · exact hp.tokens t ht
    · exact htokens t ht
  · exact hp

namespace State

/-- What is left of a line without its comments has no line comment in it. -/
theorem lineWord_of_mem_wordsOf {text : Text} (htext : ¬ Symbol.lineComment <:+: text)
    (h : w ∈ s.wordsOf text) : LineWord w where
  toIsWord := Text.isWord_of_mem_words h
  comment := fun hcomment =>
    htext (hcomment.trans ((Spacing.laid_words_pad _ text).infix_of_mem h))

theorem lineWord_of_mem_beginLine {n : Int} {line : Text} (h : w ∈ (s.beginLine n line).2) :
    LineWord w := by
  have hcode := Text.not_infix_before (p := Symbol.lineComment) (by decide) line
  have hleft := uncommented { s with line := n } line
  rw [beginLine] at h
  generalize State.uncomment { s with line := n } line = out at hleft h
  cases hleft with
  | kept => exact lineWord_of_mem_wordsOf hcode h
  | resumed rest hmode hafter =>
    obtain ⟨skipped, hskipped⟩ := Text.eq_of_after?_eq_some hafter
    refine lineWord_of_mem_wordsOf (fun hrest => hcode ?_) h
    rw [hskipped]
    exact hrest.trans (List.suffix_append _ _).isInfix
  | skipped => simp at h

theorem keeps_scanWords {ws : List Text}
    (step : ∀ s w, P s → LineWord w → (Progress.ofStep (s.scanWord setting w)).Keeps P T)
    (hs : P s) (hws : ∀ w ∈ ws, LineWord w) : (s.scanWords setting ws).Keeps P T := by
  induction ws generalizing s with
  | nil => exact Progress.keeps_nil hs
  | cons w ws ih =>
    obtain ⟨hw, hws⟩ := List.forall_mem_cons.1 hws
    rw [scanWords_cons]
    exact (step s w hs hw).andThen fun r hr => ih hr hws

/-- What is kept when a line is begun and when a word is scanned is kept by a scan of lines. -/
theorem keeps_scanLines (begins : ∀ s n line, P s → P (s.beginLine n line).1)
    (step : ∀ s w, P s → LineWord w → (Progress.ofStep (s.scanWord setting w)).Keeps P T)
    (hs : P s) (n : Int) (lines : List Text) : (s.scanLines setting n lines).Keeps P T := by
  induction lines generalizing s n with
  | nil => exact Progress.keeps_nil hs
  | cons line lines ih =>
    rw [scanLines_cons]
    have hwords : ((s.beginLine n line).1.scanWords setting (s.beginLine n line).2).Keeps P T :=
      keeps_scanWords step (begins s n line hs) fun _ => lineWord_of_mem_beginLine
    exact hwords.andThen fun r hr => ih hr (n + 1)

end State

end Keeps

/-! ## Two scans, side by side -/

/-- The states are related, the tokens are, one by one, and both scans have failed, with related
failures, or neither has. -/
structure Progress.Related (S : State → State → Prop) (T : Token → Token → Prop)
    (E : LexicalError → LexicalError → Prop) (p q : Progress) : Prop where
  state : S p.state q.state
  tokens : List.Forall₂ T p.tokens q.tokens
  failure : Option.Rel E p.failure q.failure

section Related

variable {S : State → State → Prop} {T : Token → Token → Prop}
  {E : LexicalError → LexicalError → Prop} {W : Text → Text → Prop} {setting : Setting}
  {s t : State}

theorem Progress.related_nil (h : S s t) : Related S T E ⟨s, [], none⟩ ⟨t, [], none⟩ :=
  ⟨h, .nil, .none⟩

theorem Progress.Related.andThen {p q : Progress} {f g : State → Progress}
    (h : p.Related S T E q) (next : ∀ s t, S s t → (f s).Related S T E (g t)) :
    (p.andThen f).Related S T E (q.andThen g) := by
  obtain ⟨s, ts, e⟩ := p
  obtain ⟨t, us, e'⟩ := q
  obtain ⟨hstate, htokens, hfailure⟩ := h
  cases hfailure with
  | some he => exact ⟨hstate, htokens, .some he⟩
  | none =>
    have hnext := next s t hstate
    exact ⟨hnext.state, List.rel_append htokens hnext.tokens, hnext.failure⟩

namespace State

theorem related_scanWords {ws vs : List Text}
    (step : ∀ s t w v, S s t → W w v →
      (Progress.ofStep (s.scanWord setting w)).Related S T E
        (Progress.ofStep (t.scanWord setting v)))
    (hs : S s t) (hws : List.Forall₂ W ws vs) :
    (s.scanWords setting ws).Related S T E (t.scanWords setting vs) := by
  induction hws generalizing s t with
  | nil => exact Progress.related_nil hs
  | cons hw _ ih =>
    rw [scanWords_cons, scanWords_cons]
    exact (step s t _ _ hs hw).andThen fun _ _ hnext => ih hnext

/-- What is kept when two lines are begun and when two words are scanned is kept by two scans of
lines. -/
theorem related_scanLines {L : Text → Text → Prop} {lines others : List Text}
    (begins : ∀ s t n line other, S s t → L line other →
      S (s.beginLine n line).1 (t.beginLine n other).1 ∧
        List.Forall₂ W (s.beginLine n line).2 (t.beginLine n other).2)
    (step : ∀ s t w v, S s t → W w v →
      (Progress.ofStep (s.scanWord setting w)).Related S T E
        (Progress.ofStep (t.scanWord setting v)))
    (hs : S s t) (n : Int) (hlines : List.Forall₂ L lines others) :
    (s.scanLines setting n lines).Related S T E (t.scanLines setting n others) := by
  induction hlines generalizing s t n with
  | nil => exact Progress.related_nil hs
  | cons hline _ ih =>
    obtain ⟨hbegin, hwords⟩ := begins s t n _ _ hs hline
    rw [scanLines_cons, scanLines_cons]
    exact (related_scanWords step hbegin hwords).andThen fun _ _ hnext => ih hnext (n + 1)

end State

end Related

end Scan

end PascalTokens
