import PascalTokens.Proofs.Scan.Line

/-!
# Direct reading of sources without quotes

Where a source holds no quotes, it can be read in one pass over the characters of each line, with
no blanks inserted and no words passed between modes. Segments end at blanks and at symbols, and
all that is remembered from line to line is whether a comment is open, and since which line.

A comment has two ways to end. On the line that opened it, it ends with the next closing mark that
is a symbol, so `/*/` does not close itself. On a later line, it ends with the first closing mark
in the text, wherever it stands.

## Main definitions

* `Direct.readText` reads a text character by character.
* `Direct.drain` reads a whole source.

## Main statements

* `drain_eq_direct`: on sources without quotes the scan is the direct reading.
-/

namespace PascalTokens

namespace Scan

namespace Direct

/-- What a part of a direct reading gives: the line that opened the comment which is open after
it, if one is; the tokens; and the failure. -/
structure Reading where
  comment : Option Int
  tokens : List Token
  failure : Option LexicalError
  deriving DecidableEq, Repr

/-- Read on, unless there has been a failure. -/
def Reading.andThen (r : Reading) (next : Option Int → Reading) : Reading :=
  match r.failure with
  | some _ => r
  | none => { next r.comment with tokens := r.tokens ++ (next r.comment).tokens }

/-- Read a segment of line number `line`. In a comment only the closing mark counts. -/
def readSegment (setting : Setting) (line : Int) (comment : Option Int) (segment : Text) :
    Reading :=
  match comment with
  | some opened => ⟨if segment = Symbol.commentClosing then none else some opened, [], none⟩
  | none =>
    if segment = Symbol.commentOpening then ⟨some line, [], none⟩
    else
      match Word.classify segment with
      | some tokenClass => ⟨none, [⟨segment, tokenClass, line⟩], none⟩
      | none =>
        if setting.config.rejects && !Word.isPunctuation segment then
          ⟨none, [], some ⟨.unrecognized segment, line, setting.file⟩⟩
        else ⟨none, [], none⟩

/-- Read segments in turn; an empty one is none. -/
def readSegments (setting : Setting) (line : Int) (comment : Option Int) : List Text → Reading
  | [] => ⟨comment, [], none⟩
  | [] :: rest => readSegments setting line comment rest
  | segment :: rest =>
    (readSegment setting line comment segment).andThen fun comment =>
      readSegments setting line comment rest

/-- Read a text character by character, behind the beginning of a segment. A symbol of two
characters comes before one of a single character. -/
def readText (setting : Setting) (line : Int) (comment : Option Int) (segment : Text) :
    Text → Reading
  | [] => readSegments setting line comment [segment]
  | [c] =>
    if Text.isBlank c then readSegments setting line comment [segment]
    else if c ∈ Symbol.punctuation then readSegments setting line comment [segment, [c]]
    else readSegments setting line comment [segment ++ [c]]
  | c :: d :: rest =>
    if Text.isBlank c then
      (readSegments setting line comment [segment]).andThen fun comment =>
        readText setting line comment [] (d :: rest)
    else if [c, d] ∈ Symbol.compounds then
      (readSegments setting line comment [segment, [c, d]]).andThen fun comment =>
        readText setting line comment [] rest
    else if c ∈ Symbol.punctuation then
      (readSegments setting line comment [segment, [c]]).andThen fun comment =>
        readText setting line comment [] (d :: rest)
    else readText setting line comment (segment ++ [c]) (d :: rest)

/-- Read a line up to its line comment. If a comment is open, its closing mark is searched for
first. -/
def readLine (setting : Setting) (line : Int) (comment : Option Int) (raw : Text) : Reading :=
  let text := Text.before Symbol.lineComment raw
  match comment with
  | none => readText setting line none [] text
  | some opened =>
    match Text.after? Symbol.commentClosing text with
    | some rest => readText setting line none [] rest
    | none => ⟨some opened, [], none⟩

/-- Read lines in turn, the first of them with number `number`. -/
def readLines (setting : Setting) (number : Int) (comment : Option Int) : List Text → Reading
  | [] => ⟨comment, [], none⟩
  | raw :: rest =>
    (readLine setting number comment raw).andThen fun comment =>
      readLines setting (number + 1) comment rest

/-- End the input. A comment that is still open is dropped, or it is a failure. -/
def Reading.drain (setting : Setting) (r : Reading) : Drain :=
  match r.failure, r.comment with
  | some e, _ => ⟨r.tokens, .failed e⟩
  | none, none => ⟨r.tokens, .clean⟩
  | none, some opened =>
    if setting.config.isStrict then
      ⟨r.tokens, .failed ⟨.unterminated .blockComment, opened, setting.file⟩⟩
    else ⟨r.tokens, .dropped .blockComment opened⟩

/-- Read a whole source. -/
def drain (setting : Setting) (source : Text) : Drain :=
  (readLines setting 1 none (Text.lines source)).drain setting

/-! ## Segments -/

/-- The character is neither a symbol nor the quote of a literal. -/
def Ordinary (c : Char) : Prop := c ∉ Symbol.punctuation ∧ c ≠ Symbol.stringQuote

/-- The word is a symbol, or it has no symbol in it and no quote. -/
def IsSegment (w : Text) : Prop := w ∈ Symbol.all ∨ ∀ c ∈ w, Ordinary c

variable {w : Text}

theorem IsSegment.opensComment_iff (h : IsSegment w) :
    Word.opensComment w ↔ w = Symbol.commentOpening := by
  refine ⟨fun ho => ?_, fun hw => hw ▸ by decide⟩
  rcases h with h | h
  · exact (by decide : ∀ w ∈ Symbol.all, Word.opensComment w → w = Symbol.commentOpening) w h ho
  · obtain ⟨t, rfl⟩ := List.isPrefixOf_iff_prefix.1 ho
    exact absurd (by decide) (h '/' (by simp [Symbol.commentOpening])).1

theorem IsSegment.closesComment_iff (h : IsSegment w) :
    Word.closesComment w ↔ w = Symbol.commentClosing := by
  refine ⟨fun hc => ?_, fun hw => hw ▸ by decide⟩
  rcases h with h | h
  · exact (by decide : ∀ w ∈ Symbol.all, Word.closesComment w → w = Symbol.commentClosing) w h hc
  · obtain ⟨t, rfl⟩ := List.isSuffixOf_iff_suffix.1 hc
    exact absurd (by decide) (h '/' (by simp [Symbol.commentClosing])).1

theorem IsSegment.stringSeed?_eq_none (h : IsSegment w) : Word.stringSeed? w = none := by
  have hq : w.head? ≠ some Symbol.stringQuote := by
    rcases h with h | h
    · exact (by decide : ∀ w ∈ Symbol.all, w.head? ≠ some Symbol.stringQuote) w h
    · intro hw
      exact (h _ (List.mem_of_head? hw)).2 rfl
  simp [Word.stringSeed?, Word.opensString, hq]

/-! ## One word, one segment -/

/-- The state of the scan and the open comment of the direct reading tell the same. -/
def Agrees (s : State) : Option Int → Prop
  | none => s.mode = .normal
  | some opened => s.mode = .comment ∧ s.commentStart = opened

/-- The scan and the direct reading have come equally far, and what they remember is related. -/
structure Matches (R : State → Option Int → Prop) (p : Progress) (r : Reading) : Prop where
  related : R p.state r.comment
  tokens_eq : p.tokens = r.tokens
  failure_eq : p.failure = r.failure

theorem Matches.andThen {R R' : State → Option Int → Prop} {p : Progress} {r : Reading}
    {f : State → Progress} {g : Option Int → Reading} (h : Matches R p r)
    (hR : ∀ s k, R s k → R' s k) (next : ∀ s k, R s k → Matches R' (f s) (g k)) :
    Matches R' (p.andThen f) (r.andThen g) := by
  obtain ⟨s, ts, e⟩ := p
  obtain ⟨k, us, e'⟩ := r
  obtain ⟨hrel, ht, he⟩ := h
  obtain rfl : ts = us := ht
  obtain rfl : e = e' := he
  cases e with
  | some e => exact ⟨hR s k hrel, rfl, rfl⟩
  | none =>
    obtain ⟨hrel', ht', he'⟩ := next s k hrel
    exact ⟨hrel', congrArg (ts ++ ·) ht', he'⟩

variable {setting : Setting} {line : Int}

/-- On line number `line` the scan and the direct reading agree. -/
def AgreesOn (line : Int) (s : State) (k : Option Int) : Prop := s.line = line ∧ Agrees s k

theorem matches_scanWord {s : State} {k : Option Int} (h : AgreesOn line s k) (hw : IsSegment w) :
    Matches (AgreesOn line) (Progress.ofStep (s.scanWord setting w))
      (readSegment setting line k w) := by
  obtain ⟨rfl, hk⟩ := h
  cases k with
  | some opened =>
    obtain ⟨hmode, hstart⟩ := hk
    by_cases hc : w = Symbol.commentClosing
    · have := hw.closesComment_iff.2 hc
      simp only [State.scanWord, hmode, State.scanComment, this, readSegment, if_true, if_pos hc]
      exact ⟨⟨rfl, rfl⟩, rfl, rfl⟩
    · have := mt hw.closesComment_iff.1 hc
      simp only [State.scanWord, hmode, State.scanComment, this, readSegment, if_neg hc]
      exact ⟨⟨rfl, hmode, hstart⟩, rfl, rfl⟩
  | none =>
    have hmode : s.mode = .normal := hk
    simp only [State.scanWord, hmode, State.scanNormal, tokenClass?_eq_classify, readSegment,
      hw.stringSeed?_eq_none, Word.commentLeftOpen?]
    by_cases ho : w = Symbol.commentOpening
    · subst ho
      exact ⟨⟨rfl, rfl, rfl⟩, rfl, rfl⟩
    · rw [if_neg ho, if_neg (mt hw.opensComment_iff.1 ho)]
      cases Word.classify w with
      | some tokenClass => exact ⟨⟨rfl, hmode⟩, rfl, rfl⟩
      | none =>
        dsimp only
        split
        · exact ⟨⟨rfl, hmode⟩, rfl, rfl⟩
        · exact ⟨⟨rfl, hmode⟩, rfl, rfl⟩

theorem readSegments_cons {k : Option Int} (hw : w ≠ []) (ws : List Text) :
    readSegments setting line k (w :: ws) =
      (readSegment setting line k w).andThen fun k => readSegments setting line k ws := by
  obtain ⟨c, t, rfl⟩ := List.exists_cons_of_ne_nil hw
  rfl

theorem matches_scanWords {s : State} {k : Option Int} {ws : List Text}
    (h : AgreesOn line s k) (hws : ∀ w ∈ ws, Text.IsWord w ∧ IsSegment w) :
    Matches (AgreesOn line) (s.scanWords setting ws) (readSegments setting line k ws) := by
  induction ws generalizing s k with
  | nil => exact ⟨h, rfl, rfl⟩
  | cons w ws ih =>
    obtain ⟨hword, hseg⟩ := hws w (by simp)
    rw [State.scanWords_cons, readSegments_cons hword.ne_nil]
    exact (matches_scanWord h hseg).andThen (fun _ _ h => h)
      fun _ _ h => ih h fun v hv => hws v (by simp [hv])

/-! ## One text -/

@[simp] theorem Reading.andThen_ok (k : Option Int) (next : Option Int → Reading) :
    Reading.andThen ⟨k, [], none⟩ next = next k := by simp [Reading.andThen]

theorem Reading.andThen_assoc (r : Reading) (f g : Option Int → Reading) :
    (r.andThen f).andThen g = r.andThen fun k => (f k).andThen g := by
  obtain ⟨k, ts, _ | e⟩ := r
  · cases h : (f k).failure <;> simp [andThen, h]
  · rfl

theorem readSegments_append (k : Option Int) (ws vs : List Text) :
    readSegments setting line k (ws ++ vs) =
      (readSegments setting line k ws).andThen fun k => readSegments setting line k vs := by
  fun_induction readSegments setting line k ws with
  | case1 k => simp
  | case2 k ws ih => simpa [readSegments] using ih
  | case3 k w ws hw ih =>
    rw [List.cons_append, readSegments_cons hw, Reading.andThen_assoc]
    simp only [ih]

/-- A run without blanks is one word, or it is empty and nothing is read. -/
theorem readSegments_words_append {k : Option Int} (hw : Text.Solid w) (ws : List Text) :
    readSegments setting line k (Text.words w ++ ws) = readSegments setting line k (w :: ws) := by
  rw [hw.words_eq]
  split
  · next h => simp [h, readSegments]
  · rfl

/-- The direct reading of a text without quotes reads the words of its pieces. -/
theorem readText_eq_readSegments {q : Quotes} {t : Text} (k : Option Int) (hq : q.isOpen = false)
    (hw : Text.Solid w) (ht : ∀ c ∈ t, c ≠ Symbol.stringQuote ∧ c ≠ Symbol.otherQuote) :
    readText setting line k w t =
      readSegments setting line k (Piece.wordsFrom w (Piece.cut q t)) := by
  fun_induction readText setting line k w t with
  | case1 k w => simpa [Piece.cut, Piece.wordsFrom] using (readSegments_words_append hw []).symm
  | case2 k w c hc =>
    rw [Piece.cut_cons_blank hc]
    simpa [Piece.cut, Piece.wordsFrom, hc] using (readSegments_words_append hw []).symm
  | case3 k w c hc hp =>
    simpa [Piece.cut, Piece.single, Piece.wordsFrom, hq, hp] using
      (readSegments_words_append hw [[c]]).symm
  | case4 k w c hc hp =>
    have hwc : Text.Solid (w ++ [c]) := by simp [hw, hc]
    simpa [Piece.cut, Piece.single, Piece.wordsFrom, hp, hc] using
      (readSegments_words_append hwc []).symm
  | case5 k w c d rest hc ih =>
    obtain ⟨-, ht⟩ := List.forall_mem_cons.1 ht
    rw [Piece.cut_cons_blank hc, Piece.wordsFrom, if_pos hc, readSegments_words_append hw]
    simp only [ih _ Text.solid_nil ht]
    exact (readSegments_append k [w] _).symm
  | case6 k w c d rest hc hcd ih =>
    obtain ⟨-, ht⟩ := List.forall_mem_cons.1 ht
    obtain ⟨-, ht⟩ := List.forall_mem_cons.1 ht
    have hcut : Piece.cut q (c :: d :: rest) = .symbol [c, d] :: Piece.cut q rest := by
      simp [Piece.cut, hq, hcd]
    rw [hcut, Piece.wordsFrom, readSegments_words_append hw]
    simp only [ih _ Text.solid_nil ht, ← readSegments_append, List.cons_append, List.nil_append]
  | case7 k w c d rest hc hcd hp ih =>
    obtain ⟨⟨hs, ho⟩, ht⟩ := List.forall_mem_cons.1 ht
    have hcut : Piece.cut q (c :: d :: rest) = .symbol [c] :: Piece.cut q (d :: rest) := by
      simp [Piece.cut, Piece.single, hq, hcd, hp, Quotes.step_of_ne hs ho]
    rw [hcut, Piece.wordsFrom, readSegments_words_append hw]
    simp only [ih _ Text.solid_nil ht, ← readSegments_append, List.cons_append, List.nil_append]
  | case8 k w c d rest hc hcd hp ih =>
    obtain ⟨⟨hs, ho⟩, ht⟩ := List.forall_mem_cons.1 ht
    have hwc : Text.Solid (w ++ [c]) := by simp [hw, hc]
    rw [ih hwc ht, Piece.cut_cons_of_notMem hp, Quotes.step_of_ne hs ho, Piece.wordsFrom, if_neg hc]

/-! ## Lines -/

theorem isSegment_of_mem_wordsFrom {ps : List Piece} {v : Text} (hw : ∀ c ∈ w, Ordinary c)
    (hplain : ∀ c, .plain c ∈ ps → Ordinary c) (hsymbol : ∀ s, .symbol s ∈ ps → s ∈ Symbol.all)
    (hv : v ∈ Piece.wordsFrom w ps) : IsSegment v := by
  have hrun {w : Text} (hw : ∀ c ∈ w, Ordinary c) (hv : v ∈ Text.words w) : IsSegment v :=
    .inr fun c hc => hw c (Text.mem_of_mem_words hv hc)
  fun_induction Piece.wordsFrom w ps with
  | case1 w => exact hrun hw hv
  | case2 w c rest hc ih =>
    rcases List.mem_append.1 hv with hv | hv
    · exact hrun hw hv
    · exact ih (by simp) (fun d hd => hplain d (by simp [hd])) (fun s hs => hsymbol s (by simp [hs]))
        hv
  | case3 w c rest hc ih =>
    refine ih (fun d hd => ?_) (fun d hd => hplain d (by simp [hd]))
      (fun s hs => hsymbol s (by simp [hs])) hv
    rcases List.mem_append.1 hd with hd | hd
    · exact hw d hd
    · exact hplain d (by simp [List.mem_singleton.1 hd])
  | case4 w s rest ih =>
    rcases List.mem_append.1 hv with hv | hv
    · exact hrun hw hv
    · rcases List.mem_cons.1 hv with rfl | hv
      · exact .inl (hsymbol v (by simp))
      · exact ih (by simp) (fun d hd => hplain d (by simp [hd]))
          (fun s hs => hsymbol s (by simp [hs])) hv

/-- The scan of a text without quotes is its direct reading. -/
theorem matches_text {s : State} {t : Text} (hs : s.mode = .normal) (hline : s.line = line)
    (ht : ∀ c ∈ t, c ≠ Symbol.stringQuote ∧ c ≠ Symbol.otherQuote) :
    Matches Agrees (s.scanWords setting (s.wordsOf t)) (readText setting line none [] t) := by
  have hq : (Quotes.atStart false).isOpen = false := rfl
  have hwords : s.wordsOf t = Piece.wordsFrom [] (Piece.cut (Quotes.atStart false) t) := by
    simp [State.wordsOf, hs, Spacing.words_pad]
  have hplain : ∀ c, .plain c ∈ Piece.cut (Quotes.atStart false) t → Ordinary c := by
    intro c hc
    have hstep := fun c hc => Quotes.step_of_ne (q := .atStart false) (ht c hc).1 (ht c hc).2
    obtain ⟨hmem, hp⟩ := Piece.notMem_punctuation_of_plain_mem_cut hq hstep hc
    exact ⟨hp, (ht c hmem).1⟩
  have hseg : ∀ w ∈ s.wordsOf t, Text.IsWord w ∧ IsSegment w := by
    intro w hw
    refine ⟨Text.isWord_of_mem_words hw, ?_⟩
    rw [hwords] at hw
    exact isSegment_of_mem_wordsFrom (by simp) hplain
      (fun _ h => Piece.mem_all_of_symbol_mem_cut h) hw
  rw [readText_eq_readSegments none hq Text.solid_nil ht, ← hwords]
  obtain ⟨⟨-, hrel⟩, htokens, hfailure⟩ := matches_scanWords (k := none) ⟨hline, hs⟩ hseg
  exact ⟨hrel, htokens, hfailure⟩

theorem matches_line {s : State} {k : Option Int} {raw : Text} (h : Agrees s k)
    (hraw : ∀ c ∈ raw, c ≠ Symbol.stringQuote ∧ c ≠ Symbol.otherQuote) :
    Matches Agrees ((s.beginLine line raw).1.scanWords setting (s.beginLine line raw).2)
      (readLine setting line k raw) := by
  have htext : ∀ c ∈ Text.before Symbol.lineComment raw,
      c ≠ Symbol.stringQuote ∧ c ≠ Symbol.otherQuote := by
    intro c hc
    exact hraw c ((Text.before_prefix _ raw).subset hc)
  unfold State.beginLine State.uncomment readLine
  cases k with
  | none =>
    have hmode : s.mode = .normal := h
    simpa [hmode] using matches_text (s := { s with line := line }) hmode rfl htext
  | some opened =>
    obtain ⟨hmode, hstart⟩ := h
    cases hafter : Text.after? Symbol.commentClosing (Text.before Symbol.lineComment raw) with
    | none =>
      simp only [hmode, hafter, if_true]
      exact ⟨⟨rfl, hstart⟩, rfl, rfl⟩
    | some rest =>
      simp only [hmode, hafter, if_true]
      refine matches_text (s := { s with mode := .normal, line := line }) rfl rfl fun c hc => ?_
      obtain ⟨u, hu⟩ := Text.eq_of_after?_eq_some hafter
      exact htext c (by simp [hu, hc])

theorem matches_lines {s : State} {k : Option Int} {lines : List Text} (h : Agrees s k)
    (hlines : ∀ raw ∈ lines, ∀ c ∈ raw, c ≠ Symbol.stringQuote ∧ c ≠ Symbol.otherQuote) :
    Matches Agrees (s.scanLines setting line lines) (readLines setting line k lines) := by
  induction lines generalizing s k line with
  | nil => exact ⟨h, rfl, rfl⟩
  | cons raw rest ih =>
    rw [State.scanLines_cons, readLines]
    exact (matches_line h (hlines raw (by simp))).andThen (fun _ _ h => h)
      fun _ _ h => ih h fun r hr => hlines r (by simp [hr])

theorem Matches.drain_eq {p : Progress} {r : Reading} (h : Matches Agrees p r) :
    p.drain setting = r.drain setting := by
  obtain ⟨s, ts, e⟩ := p
  obtain ⟨k, us, e'⟩ := r
  obtain ⟨hrel, rfl, rfl⟩ := h
  cases e with
  | some e => rfl
  | none =>
    cases k with
    | none =>
      have hmode : s.mode = .normal := hrel
      simp [Progress.drain, Reading.drain, State.finish_snd, Mode.construct?, hmode]
    | some opened =>
      obtain ⟨hmode, hstart⟩ : s.mode = .comment ∧ s.commentStart = opened := hrel
      simp only [Progress.drain, Reading.drain, State.finish_snd, Mode.construct?, hmode,
        State.start, State.fail, hstart]
      split <;> rfl

end Direct

/-- On a source without quotes, of either kind, the scan is the direct reading: the tokens are the
same, and so is the way it ends. -/
theorem drain_eq_direct (setting : Setting) (source : Text) (hs : Symbol.stringQuote ∉ source)
    (ho : Symbol.otherQuote ∉ source) : drain setting source = Direct.drain setting source := by
  rw [drain_eq_lines, Direct.drain]
  have hstart : Direct.Agrees State.initial none := rfl
  refine (Direct.matches_lines hstart ?_).drain_eq
  intro raw hraw c hc
  have hmem : c ∈ source := Text.mem_of_mem_lines hraw hc
  constructor
  · rintro rfl
    exact hs hmem
  · rintro rfl
    exact ho hmem

/-- A comment that does not close itself, symbols that touch, and a comment left open. -/
theorem drain_eq_direct_comments :
    Symbol.stringQuote ∉ "a<>=/*/ b\n*c*/d //*/\n/*".toList ∧
      Symbol.otherQuote ∉ "a<>=/*/ b\n*c*/d //*/\n/*".toList ∧
      drain {} "a<>=/*/ b\n*c*/d //*/\n/*".toList =
        Direct.drain {} "a<>=/*/ b\n*c*/d //*/\n/*".toList ∧
      Direct.drain {} "a<>=/*/ b\n*c*/d //*/\n/*".toList =
        ⟨[⟨['a'], .identifier, 1⟩, ⟨['<', '>'], .relationalOperator, 1⟩,
          ⟨['='], .relationalOperator, 1⟩, ⟨['d'], .identifier, 2⟩], .dropped .blockComment 3⟩ :=
  ⟨by decide, by decide, drain_eq_direct {} _ (by decide) (by decide), by decide⟩

end Scan

end PascalTokens
