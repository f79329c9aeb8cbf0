import PascalTokens.Proofs.Scan.Lead
import PascalTokens.Proofs.Scan.Printing

/-!
# A string literal in front of a source

A literal of several words ends at its closing quote, whatever stands in it, provided that the
double quotes in it are even in number. An odd number of them hides the symbols on the rest of the
line, and a symbol that follows the closing quote hides this quote in turn. Where blanks set the
symbols apart, it does no harm.

## Main definitions

* `literalText` is the text that the scan finds between the quotes.

## Main statements

* `drain_literal`: a source behind a literal has the drain that it has alone, behind the token of
  the literal.
* `drain_literal_doubleQuote_ne`: not so when a double quote is left open.
-/

namespace PascalTokens

namespace Scan

variable {setting : Setting} {t l : Text}

/-- The words between the quotes with a space between each two, and a space after the last if it is
apart from the closing quote. -/
def literalText (t : Text) : Text :=
  Text.join [' '] (Text.words t) ++ if t.getLast?.any Text.isBlank then [' '] else []

/-! ## The words of a literal -/

/-- Words of the text, with what stands before the closing quote as the last of them, are the pieces
of a literal. -/
theorem literalPieces_of_words_eq {pieces : List Text} {last : Text} (hne : pieces ≠ [])
    (hlast : Text.Solid last) (hwords : Text.words t = pieces ++ Text.words last)
    (hquote : Symbol.stringQuote ∉ t) (hcomment : ¬ Symbol.lineComment <:+: t) :
    LiteralPieces pieces last := by
  have hmem : ∀ p ∈ pieces, p ∈ Text.words t := fun p hp => by simp [hwords, hp]
  have hpiece : ∀ p ∈ pieces ++ [last], p = [] ∨ p ∈ Text.words t := by
    intro p hp
    rcases List.mem_append.1 hp with hp | hp
    · exact .inr (hmem p hp)
    · obtain rfl := List.mem_singleton.1 hp
      by_cases hnil : p = []
      · exact .inl hnil
      · exact .inr (by simp [hwords, hlast.words_eq, hnil])
  refine ⟨hne, fun p hp => (Text.isWord_of_mem_words (hmem p hp)).ne_nil, ?_, ?_, ?_⟩
  · intro p hp
    rcases hpiece p hp with rfl | hp
    · exact Text.solid_nil
    · exact (Text.isWord_of_mem_words hp).solid
  · intro p hp hm
    rcases hpiece p hp with rfl | hp
    · simp at hm
    · exact hquote (Text.mem_of_mem_words hp hm)
  · intro p hp hwithin
    rcases hpiece p hp with rfl | hp
    · exact absurd hwithin (by decide)
    · exact hcomment (hwithin.trans (Text.infix_of_mem_words hp))

/-- If nothing stands before the closing quote, the text ends with a blank, and a space is left of
it. -/
theorem join_concat_eq_literalText {pieces : List Text} {last : Text} (hne : pieces ≠ [])
    (hlast : Text.Solid last) (hwords : Text.words t = pieces ++ Text.words last)
    (hend : t.getLast?.any Text.isBlank ↔ last = []) :
    Text.join [' '] (pieces ++ [last]) = literalText t := by
  rw [literalText, hwords, hlast.words_eq]
  by_cases hnil : last = []
  · rw [if_pos hnil, if_pos (hend.2 hnil), hnil, List.append_nil, Text.join_concat_nil _ hne]
  · rw [if_neg hnil, if_neg (mt hend.1 hnil), List.append_nil]

/-- Text between quotes that begins with a word and goes on after it is read as a literal. -/
theorem exists_literalWords (hstart : ∀ c ∈ t.head?, Text.isBlank c = false)
    (hblank : ∃ c ∈ t, Text.isBlank c) (hquote : Symbol.stringQuote ∉ t)
    (hcomment : ¬ Symbol.lineComment <:+: t) :
    ∃ first middle last, LiteralPieces (first :: middle) last ∧
      Text.words (Symbol.stringQuote :: t ++ [Symbol.stringQuote]) =
        literalWords first middle last ∧
      Text.join [' '] (first :: (middle ++ [last])) = literalText t := by
  induction t using Text.blank_induction with
  | solid w hw =>
    obtain ⟨c, hc, hcblank⟩ := hblank
    simp [hw c hc] at hcblank
  | step w c rest hw hc _ =>
    obtain ⟨middle, last, hlast, hend, hrest⟩ := Text.exists_words_append rest
    have hword : Text.IsWord w := by
      refine ⟨?_, hw⟩
      rintro rfl
      simp [hstart c (by simp)] at hc
    have hwords : Text.words (w ++ c :: rest) = (w :: middle) ++ Text.words last := by
      have hall := hrest []
      rw [List.append_nil, List.append_nil] at hall
      rw [Text.words_append_blank w rest hc, hword.words_eq, hall, List.singleton_append,
        List.cons_append]
    have hany : (w ++ c :: rest).getLast?.any Text.isBlank ↔ last = [] := by
      rw [hend, List.getLast?_append, List.getLast?_cons]
      cases rest.getLast? <;> simp [hc]
    refine ⟨w, middle, last, literalPieces_of_words_eq (by simp) hlast hwords hquote hcomment, ?_,
      join_concat_eq_literalText (by simp) hlast hwords hany⟩
    have hquoted : Text.IsWord (Symbol.stringQuote :: w) := ⟨by simp, by simp [hw]; decide⟩
    have hclosing : Text.IsWord (last ++ [Symbol.stringQuote]) :=
      ⟨by simp, by simp [hlast]; decide⟩
    have hsplit : Symbol.stringQuote :: (w ++ c :: rest) ++ [Symbol.stringQuote] =
        (Symbol.stringQuote :: w) ++ c :: (rest ++ [Symbol.stringQuote]) := by simp
    rw [hsplit, Text.words_append_blank _ _ hc, hrest, hquoted.words_eq, hclosing.words_eq]
    rfl

/-- The pieces of a literal and of what follows it: no symbol stands in the literal. -/
theorem cut_literal (hquote : Symbol.stringQuote ∉ t) (l : Text) :
    Piece.cut (.atStart false) (Symbol.stringQuote :: t ++ [Symbol.stringQuote] ++ l) =
      (Symbol.stringQuote :: t ++ [Symbol.stringQuote]).map .plain ++
        Piece.cut ((Quotes.atStart false).after (Symbol.stringQuote :: t ++ [Symbol.stringQuote]))
          l := by
  have hmark : Symbol.stringQuote ∉ Symbol.punctuation := by decide
  have hopen : ((Quotes.atStart false).step Symbol.stringQuote).inSingle := rfl
  rw [List.cons_append, List.cons_append, Piece.cut_cons_of_notMem hmark, List.append_assoc,
    Piece.cut_append_of_inSingle hopen hquote, List.singleton_append,
    Piece.cut_cons_of_notMem hmark]
  simp

/-- Behind a literal, no quote is open but perhaps a double one of its own. -/
theorem isOpen_after_literal_iff (hquote : Symbol.stringQuote ∉ t) :
    ((Quotes.atStart false).after (Symbol.stringQuote :: t ++ [Symbol.stringQuote])).isOpen ↔
      ¬ Even (t.count Symbol.otherQuote) := by
  have hne : Symbol.stringQuote ≠ Symbol.otherQuote := by decide
  have hsingle := Quotes.inSingle_after_literal (q := .atStart false) hquote
  rw [Quotes.isOpen, hsingle, Quotes.after_eq]
  simp [Quotes.atStart, hne]

/-- The words of a quoted text and of what follows it. -/
theorem wordsFrom_cut_literal (hquote : Symbol.stringQuote ∉ t)
    (hnext : ∀ c ∈ l.head?, Text.isBlank c ∨ c ∈ Symbol.punctuation)
    (hdouble : Even (t.count Symbol.otherQuote) ∨ Spacing.SetApart l) :
    Piece.wordsFrom [] (Piece.cut (.atStart false)
        (Symbol.stringQuote :: t ++ [Symbol.stringQuote] ++ l)) =
      Text.words (Symbol.stringQuote :: t ++ [Symbol.stringQuote]) ++
        Piece.wordsFrom [] (Piece.cut (.atStart false) l) := by
  rw [cut_literal hquote]
  generalize hq : (Quotes.atStart false).after
    (Symbol.stringQuote :: t ++ [Symbol.stringQuote]) = q
  have hopen : q.isOpen ↔ ¬ Even (t.count Symbol.otherQuote) := by
    rw [← hq]
    exact isOpen_after_literal_iff hquote
  have hapart : q.isOpen → Spacing.SetApart l := fun h => hdouble.resolve_left (hopen.1 h)
  have hbegins : Piece.BeginsApart (Piece.cut q l) := by
    refine Piece.beginsApart_cut fun c hc => ?_
    cases hq : q.isOpen with
    | false => exact (hnext c hc).imp_right fun hpunct => ⟨rfl, hpunct⟩
    | true => exact .inl ((hapart hq).blank c hc)
  rw [Piece.wordsFrom_append _ _ hbegins, Piece.wordsFrom_map_plain, List.nil_append,
    Spacing.wordsFrom_cut_eq hapart]

theorem leads_literal (setting : Setting) (hstart : ∀ c ∈ t.head?, Text.isBlank c = false)
    (hblank : ∃ c ∈ t, Text.isBlank c) (hquote : Symbol.stringQuote ∉ t)
    (hcomment : ¬ Symbol.lineComment <:+: t) (hnewline : '\n' ∉ t)
    (hnext : ∀ c ∈ l.head?, Text.isBlank c ∨ c ∈ Symbol.punctuation)
    (hdouble : Even (t.count Symbol.otherQuote) ∨ Spacing.SetApart l) :
    ∃ ws, Leads setting (Symbol.stringQuote :: t ++ [Symbol.stringQuote]) l ws
      [⟨literalText t, .stringLiteral, 1⟩] := by
  obtain ⟨first, middle, last, hpieces, hwords, htext⟩ :=
    exists_literalWords hstart hblank hquote hcomment
  have hnot : '\n' ≠ Symbol.stringQuote := by decide
  refine ⟨literalWords first middle last, by simp [hnewline, hnot], ?_, _, ?_, ?_,
    htext ▸ hpieces.scanWords_literalWords setting ⟨rfl, rfl⟩⟩
  · rw [wordsFrom_cut_literal hquote hnext hdouble, hwords]
  · exact ⟨rfl, rfl⟩
  · rfl

/-- If the first line has no line comment, neither has a quoted text at its beginning. -/
theorem not_lineComment_infix_of_quoted {b : Text} (hnewline : '\n' ∉ t)
    (hcomment : ¬ Symbol.lineComment <:+:
      Text.firstLine (Symbol.stringQuote :: t ++ [Symbol.stringQuote] ++ b)) :
    ¬ Symbol.lineComment <:+: t := by
  intro hwithin
  have hlead : '\n' ∉ Symbol.stringQuote :: t ++ [Symbol.stringQuote] := by
    have hnot : '\n' ≠ Symbol.stringQuote := by decide
    simp [hnewline, hnot]
  rw [Text.firstLine_append hlead] at hcomment
  have hinfix : t <:+: Symbol.stringQuote :: t ++ [Symbol.stringQuote] ++ Text.firstLine b :=
    ⟨[Symbol.stringQuote], Symbol.stringQuote :: Text.firstLine b, by simp⟩
  exact hcomment (hwithin.trans hinfix)

/-- A source behind a literal of several words is read as if it stood alone. -/
theorem drain_literal (setting : Setting) (t b : Text) (hquote : Symbol.stringQuote ∉ t)
    (hnewline : '\n' ∉ t) (hstart : ∀ c ∈ t.head?, Text.isBlank c = false)
    (hblank : ∃ c ∈ t, Text.isBlank c)
    (hnext : ∀ c ∈ b.head?, Text.isBlank c ∨ c ∈ Symbol.punctuation)
    (hcomment : ¬ Symbol.lineComment <:+:
      Text.firstLine (Symbol.stringQuote :: t ++ [Symbol.stringQuote] ++ b))
    (hdouble : Even (t.count Symbol.otherQuote) ∨ Spacing.SetApart (Text.firstLine b)) :
    drain setting (Symbol.stringQuote :: t ++ [Symbol.stringQuote] ++ b) =
      ⟨⟨literalText t, .stringLiteral, 1⟩ :: (drain setting b).tokens,
        (drain setting b).ending⟩ := by
  have hcommentText := not_lineComment_infix_of_quoted hnewline hcomment
  obtain ⟨ws, hleads⟩ := leads_literal setting hstart hblank hquote hcommentText hnewline
    (fun c hc => hnext c (Text.mem_of_mem_head?_firstLine hc)) hdouble
  exact hleads.drain_eq hcomment

/-- Double quotes that the literal closes, and one that it does not, in front of words that are set
apart. -/
theorem drain_literal_blank :
    drain {} "'a, \x22b;\x22\t '; x\n= y".toList =
        ⟨⟨"a, \x22b;\x22 ".toList, .stringLiteral, 1⟩ :: (drain {} "; x\n= y".toList).tokens,
          (drain {} "; x\n= y".toList).ending⟩ ∧
      drain {} "'a  \x22b' x ;\n= y".toList =
        ⟨⟨"a \x22b".toList, .stringLiteral, 1⟩ :: (drain {} " x ;\n= y".toList).tokens,
          (drain {} " x ;\n= y".toList).ending⟩ := by
  refine ⟨?_, ?_⟩
  · exact drain_literal {} "a, \x22b;\x22\t ".toList "; x\n= y".toList (by decide) (by decide)
      (by simp; decide) ⟨' ', by decide, by decide⟩ (by simp; decide) (by decide +kernel)
      (.inl (by decide))
  · exact drain_literal {} "a  \x22b".toList " x ;\n= y".toList (by decide) (by decide)
      (by simp; decide) ⟨' ', by decide, by decide⟩ (by simp; decide) (by decide +kernel)
      (.inr (by decide))

/-- A double quote that the literal does not close hides the closing quote: a symbol behind it is
not set apart from it. -/
theorem drain_literal_doubleQuote_ne :
    let t := "a \x22b".toList
    let b := "; x".toList
    Symbol.stringQuote ∉ t ∧ '\n' ∉ t ∧ ¬ Symbol.lineComment <:+: t ∧
      (∀ c ∈ t.head?, Text.isBlank c = false) ∧ (∃ c ∈ t, Text.isBlank c) ∧
      (∀ c ∈ b.head?, Text.isBlank c ∨ c ∈ Symbol.punctuation) ∧
      ¬ Symbol.lineComment <:+:
        Text.firstLine (Symbol.stringQuote :: t ++ [Symbol.stringQuote] ++ b) ∧
      (drain {} (Symbol.stringQuote :: t ++ [Symbol.stringQuote] ++ b)).tokens = [] ∧
      literalText t = "a \x22b".toList ∧
      (drain {} b).tokens = [⟨['x'], .identifier, 1⟩] := by
  intro t b
  refine ⟨by decide, by decide, by decide +kernel, ?_, ⟨' ', by decide, by decide⟩, ?_,
    by decide +kernel, by decide +kernel, by decide, by decide⟩
  · simp [t]
    decide
  · simp [b]
    decide

end Scan

end PascalTokens
