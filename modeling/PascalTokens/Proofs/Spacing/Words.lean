import PascalTokens.Proofs.Word
import PascalTokens.Spacing

/-!
# The words that the spacing makes

Setting the symbols of a line apart and splitting the result at blanks gives the words that the
pieces of the line make: each symbol is a word, and so is each run of other characters between
symbols and blanks. The blanks that the spacing inserts, and those it leaves out at both ends of
the line, do not show.

A blank ends every symbol and leaves the quotes as they are. So the line may be taken word by word,
and the words of the spaced line depend on the words of the line only.

## Main statements

* `Spacing.words_pad`: the words of a spaced line are the words of its pieces.
* `Spacing.words_pad_eq_respace`: they are found in the words of the line, one after the other.
* `Spacing.laid_words_pad`: they stand in the line itself, and only blanks stand between them.
-/

namespace PascalTokens

namespace Quotes

variable {q : Quotes} {c : Char} {a b t : Text}

/-- The state after a text. -/
def after (q : Quotes) (t : Text) : Quotes := t.foldl step q

@[simp] theorem after_nil : q.after [] = q := rfl

@[simp] theorem after_cons : q.after (c :: t) = (q.step c).after t := rfl

@[simp] theorem after_append : q.after (a ++ b) = (q.after a).after b := List.foldl_append

theorem step_of_ne (hs : c ≠ Symbol.stringQuote) (ho : c ≠ Symbol.otherQuote) : q.step c = q := by
  simp [step, hs, ho]

theorem step_of_isBlank (hc : Text.isBlank c) : q.step c = q := by
  refine step_of_ne ?_ ?_ <;> rintro rfl <;> simp [Text.isBlank, Symbol.stringQuote,
    Symbol.otherQuote] at hc

theorem step_of_mem_punctuation (hc : c ∈ Symbol.punctuation) : q.step c = q := by
  refine step_of_ne ?_ ?_ <;> rintro rfl <;> exact absurd hc (by decide)

end Quotes

namespace Piece

variable {q : Quotes} {c d : Char} {w t : Text}

/-! ## Pieces of a line -/

theorem single_of_notMem (hc : c ∉ Symbol.punctuation) : single q c = plain c := by
  simp [single, hc]

theorem single_of_isOpen (hq : q.isOpen) : single q c = plain c := by simp [single, hq]

@[simp] theorem text_single : (single q c).text = [c] := by
  unfold single
  split <;> rfl

/-- The pieces are the line. -/
theorem flatMap_text_cut (q : Quotes) (t : Text) : (cut q t).flatMap text = t := by
  fun_induction cut q t with
  | case1 => rfl
  | case2 q c => simp
  | case3 q c d rest h ih => simp [text, ih]
  | case4 q c d rest h ih => simp [ih]

theorem mem_all_of_symbol_mem_cut (h : symbol t ∈ cut q w) : t ∈ Symbol.all := by
  have of_single : ∀ {q c}, symbol t = single q c → t ∈ Symbol.all := by
    intro q c h
    unfold single at h
    split at h
    · next hc =>
      obtain rfl : t = [c] := by simpa using h
      exact List.mem_append_right _ (by simp at hc; simp [hc])
    · simp at h
  fun_induction cut q w with
  | case1 => simp at h
  | case2 q c => exact of_single (by simpa using h)
  | case3 q c d rest hc ih =>
    rcases List.mem_cons.1 h with h | h
    · obtain rfl : t = [c, d] := by simpa using h
      exact List.mem_append_left _ (by simp at hc; exact hc.2)
    · exact ih h
  | case4 q c d rest hc ih =>
    rcases List.mem_cons.1 h with h | h
    · exact of_single h
    · exact ih h

/-- Outside quotes, what is left as a character is no symbol. -/
theorem notMem_punctuation_of_plain_mem_cut (hq : q.isOpen = false) (hstep : ∀ c ∈ t, q.step c = q)
    (h : plain d ∈ cut q t) : d ∈ t ∧ d ∉ Symbol.punctuation := by
  have of_single : ∀ {c}, plain d = single q c → d = c ∧ d ∉ Symbol.punctuation := by
    intro c h
    unfold single at h
    split at h
    · simp at h
    · next hc =>
      obtain rfl : d = c := by simpa using h
      exact ⟨rfl, by simpa [hq] using hc⟩
  fun_induction cut q t with
  | case1 => simp at h
  | case2 q c => simpa using of_single (by simpa using h)
  | case3 q c e rest hc ih =>
    have h : plain d ∈ cut q rest := by simpa using h
    have := ih hq (fun a ha => hstep a (by simp [ha])) h of_single
    exact ⟨by simp [this.1], this.2⟩
  | case4 q c e rest hc ih =>
    rw [hstep c (by simp)] at h ih
    rcases List.mem_cons.1 h with h | h
    · have := of_single h
      exact ⟨by simp [this.1], this.2⟩
    · have := ih hq (fun a ha => hstep a (by simp [ha])) h of_single
      exact ⟨by simp [this.1], this.2⟩

theorem cut_cons_of_notMem (hc : c ∉ Symbol.punctuation) :
    cut q (c :: t) = plain c :: cut (q.step c) t := by
  cases t with
  | nil => simp [cut, single_of_notMem hc]
  | cons d t =>
    have hcd : [c, d] ∉ Symbol.compounds := by
      intro h
      exact hc (Symbol.mem_punctuation_of_mem_all (Symbol.mem_all_of_mem_compounds h) (by simp))
    simp [cut, hcd, single_of_notMem hc]

theorem cut_cons_blank (hc : Text.isBlank c) : cut q (c :: t) = plain c :: cut q t := by
  rw [cut_cons_of_notMem (Symbol.notMem_punctuation_of_isBlank hc), Quotes.step_of_isBlank hc]

/-- A line is cut part by part, unless a symbol reaches from one part into the next. -/
theorem cut_append (q : Quotes) (a b : Text)
    (h : ∀ c ∈ a.getLast?, ∀ d ∈ b.head?, [c, d] ∉ Symbol.compounds) :
    cut q (a ++ b) = cut q a ++ cut (q.after a) b := by
  fun_induction cut q a with
  | case1 q => rfl
  | case2 q c =>
    cases b with
    | nil => rfl
    | cons d b =>
      have hcd : [c, d] ∉ Symbol.compounds := h c (by simp) d (by simp)
      simp [cut, hcd]
  | case3 q c d rest hc ih =>
    have hall : [c, d] ∈ Symbol.all := by
      simp at hc
      exact Symbol.mem_all_of_mem_compounds hc.2
    have hfirst : c ∈ Symbol.punctuation := Symbol.mem_punctuation_of_mem_all hall (by simp)
    have hsecond : d ∈ Symbol.punctuation := Symbol.mem_punctuation_of_mem_all hall (by simp)
    have hrest : ∀ e ∈ rest.getLast?, ∀ d ∈ b.head?, [e, d] ∉ Symbol.compounds := by
      intro e he
      exact h e (by simp_all [List.getLast?_cons])
    simp only [List.cons_append, cut, hc, if_true, ih hrest, Quotes.after_cons]
    rw [Quotes.step_of_mem_punctuation hfirst, Quotes.step_of_mem_punctuation hsecond]
  | case4 q c d rest hc ih =>
    rw [List.cons_append] at ih
    rw [List.getLast?_cons_cons] at h
    simp only [List.cons_append, cut, if_neg hc, ih h, Quotes.after_cons]

/-- No symbol reaches across a blank. -/
theorem cut_append_blank (q : Quotes) (a b : Text) (hc : Text.isBlank c) :
    cut q (a ++ c :: b) = cut q a ++ plain c :: cut (q.after a) b := by
  rw [cut_append, cut_cons_blank hc]
  rintro d - e he hde
  obtain rfl : c = e := by simpa using he
  apply Symbol.notMem_punctuation_of_isBlank hc
  exact Symbol.mem_punctuation_of_mem_all (Symbol.mem_all_of_mem_compounds hde) (by simp)

/-! ## Words of pieces -/

/-- The words that pieces make when the run `w` stands in front of them: a symbol is a word, and
so is a run of other characters. -/
def wordsFrom (w : Text) : List Piece → List Text
  | [] => Text.words w
  | plain c :: rest =>
    if Text.isBlank c then Text.words w ++ wordsFrom [] rest else wordsFrom (w ++ [c]) rest
  | symbol s :: rest => Text.words w ++ s :: wordsFrom [] rest

/-- The pieces do not go on with a word: a symbol or a blank is the first of them, if there is
one. -/
def BeginsApart (ps : List Piece) : Prop := ∀ c, plain c ∈ ps.head? → Text.isBlank c

theorem wordsFrom_append (w : Text) (ps : List Piece) {rest : List Piece} (h : BeginsApart rest) :
    wordsFrom w (ps ++ rest) = wordsFrom w ps ++ wordsFrom [] rest := by
  fun_induction wordsFrom w ps with
  | case1 w =>
    cases rest with
    | nil => simp [wordsFrom]
    | cons p rest =>
      cases p with
      | plain c =>
        have hc : Text.isBlank c := h c (by simp)
        simp [wordsFrom, hc]
      | symbol s => simp [wordsFrom]
  | case2 w c ps hc ih => simp [wordsFrom, hc, ih]
  | case3 w c ps hc ih => simp [wordsFrom, hc, ih]
  | case4 w s ps ih => simp [wordsFrom, ih]

theorem wordsFrom_append_blank (w : Text) (ps rest : List Piece) (hc : Text.isBlank c) :
    wordsFrom w (ps ++ plain c :: rest) = wordsFrom w ps ++ wordsFrom [] rest := by
  have happart : BeginsApart (plain c :: rest) := by
    intro d hd
    obtain rfl : c = d := by simpa using hd
    exact hc
  rw [wordsFrom_append w ps happart]
  simp [wordsFrom, hc]

/-- Pieces leave a run of characters that what follows may go on with. -/
theorem exists_wordsFrom_append {w : Text} (hw : Text.Solid w) (ps : List Piece) :
    ∃ done run, Text.Solid run ∧ ∀ rest, wordsFrom w (ps ++ rest) = done ++ wordsFrom run rest := by
  fun_induction wordsFrom w ps with
  | case1 w => exact ⟨[], w, hw, fun _ => rfl⟩
  | case2 w c ps hc ih =>
    obtain ⟨done, run, hrun, heq⟩ := ih Text.solid_nil
    exact ⟨Text.words w ++ done, run, hrun, fun rest => by simp [wordsFrom, hc, heq]⟩
  | case3 w c ps hc ih =>
    obtain ⟨done, run, hrun, heq⟩ := ih (by simp [hw, hc])
    exact ⟨done, run, hrun, fun rest => by simp [wordsFrom, hc, heq]⟩
  | case4 w s ps ih =>
    obtain ⟨done, run, hrun, heq⟩ := ih Text.solid_nil
    exact ⟨Text.words w ++ s :: done, run, hrun, fun rest => by simp [wordsFrom, heq]⟩

/-- Where there are no symbols, the words are those of the text. -/
theorem wordsFrom_map_plain (w t : Text) : wordsFrom w (t.map plain) = Text.words (w ++ t) := by
  induction t generalizing w with
  | nil => simp [wordsFrom]
  | cons c t ih =>
    cases hc : Text.isBlank c with
    | true => simp [wordsFrom, hc, ih, Text.words_append_blank w t hc]
    | false => simp [wordsFrom, hc, ih]

/-- Blanks stand on both sides of each symbol, except at the end. -/
theorem words_spacedRest (w : Text) (ps : List Piece) (hs : ∀ s, symbol s ∈ ps → Text.IsWord s) :
    Text.words (w ++ spacedRest ps) = wordsFrom w ps := by
  have hblank : Text.isBlank ' ' := by decide
  induction ps generalizing w with
  | nil => simp [spacedRest, wordsFrom]
  | cons p ps ih =>
    have ih := fun w => ih w fun s h => hs s (by simp [h])
    cases p with
    | plain c =>
      have hsplit : w ++ spacedRest (plain c :: ps) = w ++ c :: spacedRest ps := rfl
      cases hc : Text.isBlank c with
      | true =>
        rw [hsplit, Text.words_append_blank w _ hc]
        simpa [wordsFrom, hc] using ih []
      | false =>
        simpa [wordsFrom, hc, hsplit] using ih (w ++ [c])
    | symbol s =>
      have hword := hs s (by simp)
      cases ps with
      | nil =>
        have hsplit : w ++ spacedRest [symbol s] = w ++ ' ' :: s := by simp [spacedRest, spaced]
        rw [hsplit, Text.words_append_blank w s hblank, hword.words_eq]
        simp [wordsFrom]
      | cons p ps =>
        have hsplit : w ++ spacedRest (symbol s :: p :: ps) =
            w ++ ' ' :: (s ++ ' ' :: spacedRest (p :: ps)) := by simp [spacedRest, spaced]
        rw [hsplit, Text.words_append_blank w _ hblank, Text.words_append_blank s _ hblank,
          hword.words_eq]
        simpa [wordsFrom] using ih []

theorem words_spacedLine (ps : List Piece) (hs : ∀ s, symbol s ∈ ps → Text.IsWord s) :
    Text.words (spacedLine ps) = wordsFrom [] ps := by
  cases ps with
  | nil => simp [spacedLine, wordsFrom]
  | cons p ps =>
    rw [← words_spacedRest [] (p :: ps) hs]
    cases p with
    | plain c => rfl
    | symbol s =>
      -- The blank that is missing in front of the first symbol would make no word.
      have hsplit : [] ++ spacedRest (symbol s :: ps) = ' ' :: spacedLine (symbol s :: ps) := by
        simp [spacedRest, spacedLine, spaced]
      rw [hsplit, Text.words_cons_blank _ (by decide)]

end Piece

namespace Spacing

/-- The words of a spaced line are the words of its pieces. -/
theorem words_pad (inString : Bool) (line : Text) :
    Text.words (pad inString line) =
      Piece.wordsFrom [] (Piece.cut (Quotes.atStart inString) line) :=
  Piece.words_spacedLine _ fun _ h => Symbol.isWord_of_mem_all (Piece.mem_all_of_symbol_mem_cut h)

/-- The words that the spacing makes of words between blanks, one after the other. Quotes stay
open from one word to the next. -/
def respace (q : Quotes) : List Text → List Text
  | [] => []
  | w :: rest => Piece.wordsFrom [] (Piece.cut q w) ++ respace (q.after w) rest

theorem wordsFrom_cut_eq_respace (q : Quotes) (t : Text) :
    Piece.wordsFrom [] (Piece.cut q t) = respace q (Text.words t) := by
  induction t using Text.blank_induction generalizing q with
  | solid w hw =>
    rw [hw.words_eq]
    split
    · next h => simp [h, respace, Piece.cut, Piece.wordsFrom]
    · simp [respace]
  | step w c t hw hc ih =>
    rw [Piece.cut_append_blank q w t hc, Piece.wordsFrom_append_blank _ _ _ hc,
      Text.words_append_blank w t hc, ih, hw.words_eq]
    split
    · next h => simp [h, Piece.cut, Piece.wordsFrom]
    · simp [respace]

/-- The words of a spaced line depend on the words of the line only. -/
theorem words_pad_eq_respace (inString : Bool) (line : Text) :
    Text.words (pad inString line) = respace (Quotes.atStart inString) (Text.words line) := by
  rw [words_pad, wordsFrom_cut_eq_respace]

/-! ## Where the words stand -/

/-- The words stand in the text, in this order, and everything else in it is blank. -/
inductive Laid : List Text → Text → Prop where
  | nil : Laid [] []
  | blank {c : Char} {ws : List Text} {t : Text} (hc : Text.isBlank c) (rest : Laid ws t) :
      Laid ws (c :: t)
  | word {w : Text} {ws : List Text} {t : Text} (hw : Text.IsWord w) (rest : Laid ws t) :
      Laid (w :: ws) (w ++ t)

theorem Laid.words_append {w t : Text} {ws : List Text} (hw : Text.Solid w) (h : Laid ws t) :
    Laid (Text.words w ++ ws) (w ++ t) := by
  rw [hw.words_eq]
  split
  · next hnil => simpa [hnil] using h
  · next hne => exact .word ⟨hne, hw⟩ h

theorem laid_wordsFrom {w : Text} {ps : List Piece} (hw : Text.Solid w)
    (hs : ∀ s, .symbol s ∈ ps → Text.IsWord s) :
    Laid (Piece.wordsFrom w ps) (w ++ ps.flatMap Piece.text) := by
  fun_induction Piece.wordsFrom w ps with
  | case1 w => simpa using Laid.nil.words_append hw
  | case2 w c rest hc ih =>
    exact .words_append hw (.blank hc (ih Text.solid_nil fun s h => hs s (by simp [h])))
  | case3 w c rest hc ih =>
    simpa [Piece.text] using ih (by simp [hw, hc]) fun s h => hs s (by simp [h])
  | case4 w s rest ih =>
    exact .words_append hw (.word (hs s (by simp)) (ih Text.solid_nil fun s h => hs s (by simp [h])))

theorem Laid.infix_of_mem {w t : Text} {ws : List Text} (h : Laid ws t) (hw : w ∈ ws) :
    w <:+: t := by
  induction h with
  | nil => simp at hw
  | blank hc _ ih => exact (ih hw).trans (List.suffix_cons _ _).isInfix
  | word hv _ ih =>
    rcases List.mem_cons.1 hw with rfl | hw
    · exact (List.prefix_append _ _).isInfix
    · exact (ih hw).trans (List.suffix_append _ _).isInfix

theorem laid_wordsFrom_cut (q : Quotes) (t : Text) :
    Laid (Piece.wordsFrom [] (Piece.cut q t)) t := by
  have hsymbol : ∀ s, .symbol s ∈ Piece.cut q t → Text.IsWord s :=
    fun s h => Symbol.isWord_of_mem_all (Piece.mem_all_of_symbol_mem_cut h)
  have h := laid_wordsFrom Text.solid_nil hsymbol
  rwa [Piece.flatMap_text_cut, List.nil_append] at h

/-- The words of a spaced line stand in the line itself. -/
theorem laid_words_pad (inString : Bool) (line : Text) :
    Laid (Text.words (pad inString line)) line := by
  rw [words_pad]
  exact laid_wordsFrom_cut _ line

end Spacing

end PascalTokens
