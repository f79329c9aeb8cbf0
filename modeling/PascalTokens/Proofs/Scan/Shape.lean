import PascalTokens.Proofs.Scan.Invariant
import PascalTokens.Proofs.Scan.Opening
import PascalTokens.Proofs.Text.Join

/-!
# What tokens look like

A token is a word that has a class, or it is a literal of at least two pieces. The pieces are words
as they are found in lines, and one space stands between each two, on whichever lines they were: so
no other blank and no line comment comes into a lexeme. The last piece is what stands before the
closing quote, and may be empty.

## Main definitions

* `Collected` says what the words are that an open literal has collected.
* `State.Gathered` says that the text of an open literal is made of such words.
* `Shaped` lists the two kinds of tokens.

## Main statements

* `State.Gathered.scanWord`: a word keeps a state gathered, and its token is shaped.
* `drain_token_shape`: the tokens of every drain.
-/

namespace PascalTokens

namespace Scan

variable {pieces : List Text} {w seed last : Text} {t : Token}

/-! ## Open literals -/

/-- Words of an open literal, the first without its quote. None of them closes the literal. -/
structure Collected (pieces : List Text) : Prop where
  ne_nil : pieces ≠ []
  word : ∀ p ∈ pieces, LineWord p
  unclosed : ∀ p ∈ pieces, p.getLast? ≠ some Symbol.stringQuote

theorem Collected.concat (h : Collected pieces) (hw : LineWord w)
    (hlast : w.getLast? ≠ some Symbol.stringQuote) : Collected (pieces ++ [w]) where
  ne_nil := by simp
  word := by simpa [or_imp, forall_and] using ⟨h.word, hw⟩
  unclosed := by simpa [or_imp, forall_and] using ⟨h.unclosed, hlast⟩

/-- A quote alone opens no literal, so there is something behind the one that does. -/
theorem collected_of_stringSeed? (hw : LineWord w) (h : Word.stringSeed? w = some seed) :
    Collected [seed] := by
  obtain rfl := State.eq_of_stringSeed? h
  have hopens : (Symbol.stringQuote :: seed).getLast? ≠ some Symbol.stringQuote := by
    intro hlast
    simp [Word.stringSeed?, Word.opensString, hlast] at h
  cases seed with
  | nil => simp at hopens
  | cons c rest =>
    have hseed : LineWord (c :: rest) := by
      refine ⟨⟨by simp, (Text.solid_cons.1 hw.solid).2⟩, fun hcomment => hw.comment ?_⟩
      exact hcomment.trans (List.suffix_cons _ _).isInfix
    rw [List.getLast?_cons_cons] at hopens
    exact ⟨by simp, by simpa using hseed, by simpa using hopens⟩

/-- The text of an open literal is made of words that do not close it, with a space between each
two. No text is there while no literal is open. -/
structure State.Gathered (s : State) : Prop where
  tidy : s.Tidy
  text_eq : s.mode = .string → ∃ pieces, Collected pieces ∧ s.buffer.text = Text.join [' '] pieces

theorem State.Tidy.gathered {s : State} (h : s.Tidy) (hmode : s.mode ≠ .string) : s.Gathered :=
  ⟨h, fun hstring => absurd hstring hmode⟩

theorem State.gathered_initial : State.initial.Gathered := State.tidy_initial.gathered (by decide)

/-! ## Tokens -/

/-- A token is a word that has a class, or a literal: words that do not close it, and what stands
before the closing quote of the one that does. -/
inductive Shaped : Token → Prop where
  | word {w : Text} {tokenClass : TokenClass} {line : Int}
      (hclass : Word.classify w = some tokenClass) : Shaped ⟨w, tokenClass, line⟩
  | literal {pieces : List Text} {last : Text} {line : Int} (hpieces : Collected pieces)
      (hlast : Text.Solid last) (hcomment : ¬ Symbol.lineComment <:+: last) :
      Shaped ⟨Text.join [' '] (pieces ++ [last]), .stringLiteral, line⟩

namespace Shaped

variable (h : Shaped t)

include h

theorem classify_eq (hclass : t.tokenClass ≠ .stringLiteral) :
    Word.classify t.lexeme = some t.tokenClass := by
  cases h with
  | word h => exact h
  | literal => exact absurd rfl hclass

theorem exists_pieces (hclass : t.tokenClass = .stringLiteral) :
    ∃ pieces last, Collected pieces ∧ Text.Solid last ∧
      t.lexeme = Text.join [' '] (pieces ++ [last]) := by
  cases h with
  | word h => exact absurd hclass (Word.ne_stringLiteral_of_classify h)
  | literal hpieces hlast => exact ⟨_, _, hpieces, hlast, rfl⟩

theorem ne_nil : t.lexeme ≠ [] := by
  cases h with
  | word h => exact (Word.isWord_of_classify h).ne_nil
  | literal hpieces =>
    dsimp only
    rw [Text.join_concat ' ' hpieces.ne_nil]
    simp

theorem comment : ¬ Symbol.lineComment <:+: t.lexeme := by
  cases h with
  | word h => exact Word.not_lineComment_infix_of_classify h
  | literal hpieces hlast hcomment =>
    refine Text.not_infix_join (by decide) (by decide) fun p hp => ?_
    rcases List.mem_append.1 hp with hp | hp
    · exact (hpieces.word p hp).comment
    · rwa [List.mem_singleton.1 hp]

theorem eq_of_isBlank {c : Char} (hc : c ∈ t.lexeme) (hblank : Text.isBlank c) :
    t.tokenClass = .stringLiteral ∧ c = ' ' := by
  cases h with
  | word h => simp [(Word.isWord_of_classify h).solid c hc] at hblank
  | literal hpieces hlast =>
    refine ⟨rfl, ?_⟩
    by_contra hne
    refine Text.notMem_join hne (fun p hp hcp => ?_) hc
    have hsolid : Text.Solid p := by
      rcases List.mem_append.1 hp with hp | hp
      · exact (hpieces.word p hp).solid
      · rwa [List.mem_singleton.1 hp]
    simp [hsolid c hcp] at hblank

end Shaped

/-! ## Scanning -/

namespace State

variable {setting : Setting} {s : State}

/-- A word opens a literal, adds to one, or closes it, or it has nothing to do with literals. -/
theorem Gathered.scanWord (h : s.Gathered) (hw : LineWord w) :
    (Progress.ofStep (s.scanWord setting w)).Keeps Gathered Shaped := by
  have htidy : (s.scanWord setting w).1.Tidy := h.tidy.scanWord w
  have hstep := wordStep setting s w
  generalize s.scanWord setting w = out at htidy hstep ⊢
  cases hstep with
  | normal hmode hstep =>
    cases hstep with
    | token tokenClass hclass => exact ⟨h, by simpa [Progress.ofStep] using .word hclass⟩
    | opensString seed hclass hseed =>
      have hbuffer : s.buffer = .empty := h.tidy (by simp [hmode])
      refine Progress.keeps_nil ⟨htidy, fun _ => ⟨[seed], collected_of_stringSeed? hw hseed, ?_⟩⟩
      simp [openString, hbuffer]
    | opensComment => exact Progress.keeps_nil (htidy.gathered (by simp [openComment]))
    | passed => exact Progress.keeps_nil h
    | rejected => exact ⟨h, by simp [Progress.ofStep]⟩
  | string hmode hstep =>
    obtain ⟨pieces, hpieces, htext⟩ := h.text_eq hmode
    cases hstep with
    | closes body hbody =>
      subst hbody
      have hlexeme : s.buffer.text ++ ' ' :: body = Text.join [' '] (pieces ++ [body]) := by
        rw [htext, Text.join_concat ' ' hpieces.ne_nil]
      have hcomment : ¬ Symbol.lineComment <:+: body := fun hbody =>
        hw.comment (hbody.trans (List.prefix_append _ _).isInfix)
      refine ⟨htidy.gathered (by simp), ?_⟩
      rw [hlexeme]
      simpa [Progress.ofStep] using
        Shaped.literal hpieces (Text.solid_append.1 hw.solid).1 hcomment
    | collects hlast =>
      refine Progress.keeps_nil ⟨htidy, fun _ => ⟨pieces ++ [w], hpieces.concat hw hlast, ?_⟩⟩
      simp [htext, Text.join_concat ' ' hpieces.ne_nil]
  | closesComment => exact Progress.keeps_nil (htidy.gathered (by simp))
  | skipped => exact Progress.keeps_nil h

theorem Gathered.beginLine (h : s.Gathered) (n : Int) (line : Text) :
    (s.beginLine n line).1.Gathered := by
  have htidy := h.tidy.beginLine n line
  have hleft := uncommented { s with line := n } line
  rw [State.beginLine] at htidy ⊢
  generalize State.uncomment { s with line := n } line = out at htidy hleft ⊢
  cases hleft with
  | kept => exact ⟨htidy, h.text_eq⟩
  | resumed => exact htidy.gathered (by simp)
  | skipped => exact ⟨htidy, h.text_eq⟩

end State

theorem shaped_of_mem_drain {setting : Setting} {source : Text}
    (h : t ∈ (drain setting source).tokens) : Shaped t := by
  have hkeeps : (scanSource setting source).Keeps State.Gathered Shaped :=
    State.keeps_scanLines (fun _ n line hs => hs.beginLine n line) (fun _ _ hs hw => hs.scanWord hw)
      State.gathered_initial 1 _
  rw [tokens_drain_eq] at h
  exact hkeeps.tokens t h

theorem line_bounds_of_mem_drain {setting : Setting} {source : Text}
    (h : t ∈ (drain setting source).tokens) :
    1 ≤ t.line ∧ t.line ≤ (Text.lines source).length := by
  rw [tokens_drain_eq] at h
  obtain ⟨hfirst, hlast⟩ := (ordered_scanSource setting source).le_of_mem t h
  exact ⟨hfirst, Int.le_trans hlast (line_scanSource_le setting source)⟩

/-- A token stands on a line of the source. It has the class of its lexeme, or it is a literal: at
least two pieces without blanks, with a space between each two, of which only the last may be empty
and only the last may end with a quote. No lexeme is empty or has a line comment in it, and a blank
in it is one of these spaces. -/
theorem drain_token_shape (setting : Setting) (source : Text) :
    ∀ t ∈ (drain setting source).tokens,
      (1 ≤ t.line ∧ t.line ≤ (sourceLines source).length) ∧
      (t.tokenClass ≠ .stringLiteral → Word.classify t.lexeme = some t.tokenClass) ∧
      (t.tokenClass = .stringLiteral → ∃ pieces last,
        t.lexeme = Text.join [' '] (pieces ++ [last]) ∧ pieces ≠ [] ∧
          (∀ p ∈ pieces, p ≠ [] ∧ p.getLast? ≠ some Symbol.stringQuote) ∧
          ∀ p ∈ pieces ++ [last], Text.Solid p) ∧
      t.lexeme ≠ [] ∧ ¬ Symbol.lineComment <:+: t.lexeme ∧
      ∀ c ∈ t.lexeme, Text.isBlank c → t.tokenClass = .stringLiteral ∧ c = ' ' := by
  intro t ht
  have hshape := shaped_of_mem_drain ht
  have hline : 1 ≤ t.line ∧ t.line ≤ (sourceLines source).length := by
    simpa [sourceLines] using line_bounds_of_mem_drain ht
  refine ⟨hline, hshape.classify_eq, fun hclass => ?_, hshape.ne_nil, hshape.comment,
    fun _ => hshape.eq_of_isBlank⟩
  obtain ⟨pieces, last, hpieces, hlast, hlexeme⟩ := hshape.exists_pieces hclass
  refine ⟨pieces, last, hlexeme, hpieces.ne_nil, fun p hp => ?_, fun p hp => ?_⟩
  · exact ⟨(hpieces.word p hp).ne_nil, hpieces.unclosed p hp⟩
  · rcases List.mem_append.1 hp with hp | hp
    · exact (hpieces.word p hp).solid
    · rwa [List.mem_singleton.1 hp]

/-- A literal that goes on over a line with a comment and a line without words, with quotes in its
pieces and nothing before its closing quote. -/
theorem drain_token_shape_lines :
    let source := "/*\n*/ 'it's // '\n\r\n\ta''b ' x".toList
    let t : Token := ⟨"it's a''b ".toList, .stringLiteral, 4⟩
    t ∈ (drain {} source).tokens ∧ (1 ≤ t.line ∧ t.line ≤ (sourceLines source).length) ∧
      ∃ pieces last, t.lexeme = Text.join [' '] (pieces ++ [last]) ∧ pieces ≠ [] ∧
        (∀ p ∈ pieces, p ≠ [] ∧ p.getLast? ≠ some Symbol.stringQuote) ∧
        ∀ p ∈ pieces ++ [last], Text.Solid p := by
  intro source t
  have hmem : t ∈ (drain {} source).tokens := by decide
  obtain ⟨hline, -, hliteral, -⟩ := drain_token_shape {} source t hmem
  exact ⟨hmem, hline, hliteral rfl⟩

end Scan

end PascalTokens
