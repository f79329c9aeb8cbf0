import PascalTokens.Proofs.Scan.Literal

/-!
# Text between quotes in front of a source

Text that follows its opening quote immediately is not read as code: with a blank in it, it is one
literal, and without one it is a single word, which is passed over. A quote with a blank behind it
is a word by itself. It begins and ends with a quote and opens nothing, so the words behind it are
read like any others.

## Main definitions

* `wordTokens` are the tokens that words between constructs are.
* `quotedTokens` are the tokens of a text between quotes.

## Main statements

* `drain_quoted`: a source behind a quoted text has the drain that it has alone, behind the tokens
  of the quoted text.
* `drain_quoted_blank_ne`: among these are words of the text if it begins with a blank.
-/

namespace PascalTokens

namespace Scan

variable {setting : Setting} {t l w : Text} {ws : List Text}

/-- The tokens that the words are by themselves, on line `n`. -/
def wordTokens (n : Int) (ws : List Text) : List Token :=
  ws.filterMap fun w => (Word.classify w).map fun tokenClass => ⟨w, tokenClass, n⟩

/-- The tokens of a text between quotes. -/
def quotedTokens (t : Text) : List Token :=
  if t.head?.any Text.isBlank then
    wordTokens 1 (Text.words (Symbol.stringQuote :: t ++ [Symbol.stringQuote]))
  else if t.any Text.isBlank then [⟨literalText t, .stringLiteral, 1⟩]
  else []

/-! ## Words that open nothing -/

/-- The word neither opens a literal nor leaves a comment open. -/
structure OpensNothing (w : Text) : Prop where
  seed_eq : Word.stringSeed? w = none
  comment_ne : Word.commentLeftOpen? w ≠ some true

/-- Words that open nothing leave a scan between constructs as it is. -/
theorem scanWords_of_opensNothing {s : State} (hrejects : setting.config.rejects = false)
    (hmode : s.mode = .normal) (h : ∀ w ∈ ws, OpensNothing w) :
    s.scanWords setting ws = ⟨s, wordTokens s.line ws, none⟩ := by
  induction ws with
  | nil => rfl
  | cons w ws ih =>
    obtain ⟨hw, h⟩ := List.forall_mem_cons.1 h
    rw [State.scanWords_cons, State.scanWord_of_normal hmode]
    have hstep := State.normalStep setting s w
    generalize s.scanNormal setting w = out at hstep ⊢
    cases hstep with
    | token tokenClass hclass =>
      rw [Progress.ofStep, Progress.andThen_ok, ih h]
      simp [wordTokens, hclass, Progress.prepend]
    | passed hclass =>
      rw [Progress.ofStep, Progress.andThen_ok, ih h]
      simp [wordTokens, hclass]
    | opensString seed hclass hseed => simp [hw.seed_eq] at hseed
    | opensComment hclass hopen => exact absurd hopen hw.comment_ne
    | rejected hclass hrejects' => simp [hrejects] at hrejects'

theorem stringSeed?_eq_none_of_notMem (h : Symbol.stringQuote ∉ w) :
    Word.stringSeed? w = none := by
  cases hseed : Word.stringSeed? w with
  | none => rfl
  | some seed => simp [State.eq_of_stringSeed? hseed] at h

theorem stringSeed?_concat (w : Text) : Word.stringSeed? (w ++ [Symbol.stringQuote]) = none := by
  simp [Word.stringSeed?, Word.opensString]

/-- A quote at the end of a text makes no word that opens a literal. -/
theorem stringSeed?_of_mem_words_concat (hquote : Symbol.stringQuote ∉ t)
    (h : w ∈ Text.words (t ++ [Symbol.stringQuote])) : Word.stringSeed? w = none := by
  obtain ⟨done, last, hlast, -, hwords⟩ := Text.exists_words_append t
  have hclosing : Text.IsWord (last ++ [Symbol.stringQuote]) :=
    ⟨by simp, by simp [hlast]; decide⟩
  rw [hwords, hclosing.words_eq, List.mem_append, List.mem_singleton] at h
  rcases h with h | rfl
  · have hmem : w ∈ Text.words t := by
      have hall := hwords []
      rw [List.append_nil, List.append_nil] at hall
      rw [hall]
      exact List.mem_append_left _ h
    exact stringSeed?_eq_none_of_notMem fun hq => hquote (Text.mem_of_mem_words hmem hq)
  · exact stringSeed?_concat last

/-! ## Quoted texts -/

/-- A text without blanks is one word with its quotes, which opens nothing. -/
theorem words_quoted_of_solid (h : Text.Solid t) :
    Text.words (Symbol.stringQuote :: t ++ [Symbol.stringQuote]) =
      [Symbol.stringQuote :: t ++ [Symbol.stringQuote]] := by
  have hword : Text.IsWord (Symbol.stringQuote :: t ++ [Symbol.stringQuote]) :=
    ⟨by simp, by simp [h]; decide⟩
  exact hword.words_eq

theorem opensNothing_quoted (t : Text) :
    OpensNothing (Symbol.stringQuote :: t ++ [Symbol.stringQuote]) where
  seed_eq := stringSeed?_concat (Symbol.stringQuote :: t)
  comment_ne := by
    have hmark : Word.opensComment (Symbol.stringQuote :: t ++ [Symbol.stringQuote]) = false := rfl
    rw [Word.commentLeftOpen?, hmark]
    simp

theorem classify_quoted (t : Text) :
    Word.classify (Symbol.stringQuote :: t ++ [Symbol.stringQuote]) = none := by
  cases hclass : Word.classify (Symbol.stringQuote :: t ++ [Symbol.stringQuote]) with
  | none => rfl
  | some tokenClass =>
    exact absurd (List.mem_cons_self ..) (Word.stringQuote_notMem_of_classify hclass)

/-- Words that open nothing lead a source with the tokens that they are by themselves. -/
theorem leads_of_opensNothing (hrejects : setting.config.rejects = false)
    (hquote : Symbol.stringQuote ∉ t) (hdouble : Symbol.otherQuote ∉ t) (hnewline : '\n' ∉ t)
    (hnext : ∀ c ∈ l.head?, Text.isBlank c ∨ c ∈ Symbol.punctuation)
    (hwords : ∀ w ∈ Text.words (Symbol.stringQuote :: t ++ [Symbol.stringQuote]),
      OpensNothing w) :
    Leads setting (Symbol.stringQuote :: t ++ [Symbol.stringQuote]) l
      (Text.words (Symbol.stringQuote :: t ++ [Symbol.stringQuote]))
      (wordTokens 1 (Text.words (Symbol.stringQuote :: t ++ [Symbol.stringQuote]))) where
  newline := by
    have hnot : '\n' ≠ Symbol.stringQuote := by decide
    simp [hnewline, hnot]
  words_eq :=
    wordsFrom_cut_literal hquote hnext (.inl (by simp [List.count_eq_zero.2 hdouble]))
  scanWords_eq := ⟨.firstLine, ⟨rfl, rfl⟩, rfl, scanWords_of_opensNothing hrejects rfl hwords⟩

theorem leads_quoted (hrejects : setting.config.rejects = false)
    (hquote : Symbol.stringQuote ∉ t) (hdouble : Symbol.otherQuote ∉ t) (hnewline : '\n' ∉ t)
    (hline : ¬ Symbol.lineComment <:+: t)
    (hnext : ∀ c ∈ l.head?, Text.isBlank c ∨ c ∈ Symbol.punctuation)
    (hopens : (∀ c ∈ t.head?, Text.isBlank c = false) ∨
      ∀ w ∈ Text.words (Symbol.stringQuote :: t ++ [Symbol.stringQuote]),
        Word.commentLeftOpen? w ≠ some true) :
    ∃ ws, Leads setting (Symbol.stringQuote :: t ++ [Symbol.stringQuote]) l ws
      (quotedTokens t) := by
  have hleads := leads_of_opensNothing hrejects hquote hdouble hnewline hnext
  unfold quotedTokens
  split
  · next hhead =>
    refine ⟨_, hleads fun w hw => ?_⟩
    obtain ⟨c, rest, rfl, hc⟩ : ∃ c rest, t = c :: rest ∧ Text.isBlank c := by
      cases t with
      | nil => simp at hhead
      | cons c rest => exact ⟨c, rest, rfl, by simpa using hhead⟩
    have hcomment := hopens.resolve_left (fun h => by simp [h c (by simp)] at hc) w hw
    -- The opening quote is a word by itself.
    have hsplit : Symbol.stringQuote :: (c :: rest) ++ [Symbol.stringQuote] =
        [Symbol.stringQuote] ++ c :: (rest ++ [Symbol.stringQuote]) := by simp
    have hopening : Text.IsWord [Symbol.stringQuote] := ⟨by simp, by simp; decide⟩
    rw [hsplit, Text.words_append_blank _ _ hc, hopening.words_eq, List.singleton_append] at hw
    rcases List.mem_cons.1 hw with rfl | hw
    · exact ⟨stringSeed?_concat [], hcomment⟩
    · exact ⟨stringSeed?_of_mem_words_concat (fun h => hquote (by simp [h])) hw, hcomment⟩
  · next hhead =>
    split
    · next hany =>
      refine leads_literal setting (fun c hc => ?_) (by simpa using hany) hquote hline hnewline
        hnext (.inl (by simp [List.count_eq_zero.2 hdouble]))
      obtain ⟨rest, rfl⟩ := List.head?_eq_some_iff.1 (Option.mem_def.1 hc)
      simpa using hhead
    · next hany =>
      have hsolid : Text.Solid t := fun c hc => by
        cases hblank : Text.isBlank c with
        | false => rfl
        | true => exact absurd (List.any_eq_true.2 ⟨c, hc, hblank⟩) hany
      have hnothing : wordTokens 1 [Symbol.stringQuote :: t ++ [Symbol.stringQuote]] = [] := by
        rw [wordTokens, List.filterMap_cons, classify_quoted]
        rfl
      rw [words_quoted_of_solid hsolid, hnothing] at hleads
      exact ⟨_, hleads fun w hw => List.mem_singleton.1 hw ▸ opensNothing_quoted t⟩

/-- A source behind a text between quotes has the drain that it has alone, behind the tokens of the
quoted text: one literal or nothing if the text follows its opening quote immediately, and otherwise
the tokens that its words are, unless they leave a comment open. -/
theorem drain_quoted (setting : Setting) (t b : Text) (hrejects : setting.config.rejects = false)
    (hquote : Symbol.stringQuote ∉ t) (hdouble : Symbol.otherQuote ∉ t) (hnewline : '\n' ∉ t)
    (hnext : ∀ c ∈ b.head?, Text.isBlank c ∨ c ∈ Symbol.punctuation)
    (hcomment : ¬ Symbol.lineComment <:+:
      Text.firstLine (Symbol.stringQuote :: t ++ [Symbol.stringQuote] ++ b))
    (hopens : (∀ c ∈ t.head?, Text.isBlank c = false) ∨
      ∀ w ∈ Text.words (Symbol.stringQuote :: t ++ [Symbol.stringQuote]),
        Word.commentLeftOpen? w ≠ some true) :
    drain setting (Symbol.stringQuote :: t ++ [Symbol.stringQuote] ++ b) =
      ⟨quotedTokens t ++ (drain setting b).tokens, (drain setting b).ending⟩ := by
  have hline := not_lineComment_infix_of_quoted hnewline hcomment
  obtain ⟨ws, hleads⟩ := leads_quoted hrejects hquote hdouble hnewline hline
    (fun c hc => hnext c (Text.mem_of_mem_head?_firstLine hc)) hopens
  exact hleads.drain_eq hcomment

/-- A literal with reserved words in it and a blank at its end, a single word, and words behind a
blank. -/
theorem drain_quoted_words :
    drain {} "'begin; end '; x\n= y".toList =
        ⟨⟨"begin; end ".toList, .stringLiteral, 1⟩ :: (drain {} "; x\n= y".toList).tokens,
          (drain {} "; x\n= y".toList).ending⟩ ∧
      drain {} "'begin' x".toList = drain {} " x".toList ∧
      drain {} "' begin /*a*/ x' y".toList =
        ⟨⟨"begin".toList, .reservedKeyword, 1⟩ :: (drain {} " y".toList).tokens,
          (drain {} " y".toList).ending⟩ := by
  refine ⟨?_, ?_, ?_⟩
  · exact drain_quoted {} "begin; end ".toList "; x\n= y".toList rfl (by decide) (by decide)
      (by decide) (by simp; decide) (by decide +kernel)
      (.inl (by simp; decide))
  · exact drain_quoted {} "begin".toList " x".toList rfl (by decide) (by decide)
      (by decide) (by simp; decide) (by decide +kernel)
      (.inl (by simp; decide))
  · exact drain_quoted {} " begin /*a*/ x".toList " y".toList rfl (by decide) (by decide)
      (by decide) (by simp; decide) (by decide +kernel) (.inr (by decide))

/-- A quote with a blank behind it opens nothing, so the reserved word that follows is read as
one. -/
theorem drain_quoted_blank_ne :
    let t := " begin x".toList
    let b : Text := []
    Symbol.stringQuote ∉ t ∧ Symbol.otherQuote ∉ t ∧ '\n' ∉ t ∧ ¬ Symbol.lineComment <:+: t ∧
      (∀ c ∈ b.head?, Text.isBlank c ∨ c ∈ Symbol.punctuation) ∧
      ¬ Symbol.lineComment <:+:
        Text.firstLine (Symbol.stringQuote :: t ++ [Symbol.stringQuote] ++ b) ∧
      (drain {} (Symbol.stringQuote :: t ++ [Symbol.stringQuote] ++ b)).tokens =
        [⟨"begin".toList, .reservedKeyword, 1⟩] ∧
      (drain {} b).tokens = [] := by
  intro t b
  exact ⟨by decide, by decide, by decide, by decide +kernel, by simp [b], by decide +kernel,
    by decide, by decide⟩

end Scan

end PascalTokens
