import PascalTokens.Proofs.Spacing.Words

/-!
# Words that the spacing keeps

A word with a class is a symbol or it has no symbol in it, and the spacing leaves it as it is even
where a double quote is open. So it does with the words of a string literal: from the opening quote
on nothing is a symbol, and the closing quote is not one.

## Main statements

* `Spacing.wordsFrom_cut_of_classify`: a word that has a class is kept.
* `Spacing.respace_literal`: so are the words of a string literal.
-/

namespace PascalTokens

namespace Quotes

variable {q : Quotes} {c : Char} {w : Text}

theorem inSingle_after (hw : Symbol.stringQuote ∉ w) : (q.after w).inSingle = q.inSingle := by
  induction w generalizing q with
  | nil => rfl
  | cons c w ih =>
    rw [List.mem_cons, not_or] at hw
    rw [after_cons, ih hw.2, step, if_neg (Ne.symm hw.1)]
    split <;> rfl

/-- A literal leaves the single quotes as they were. -/
theorem inSingle_after_literal (hw : Symbol.stringQuote ∉ w) :
    (q.after (Symbol.stringQuote :: w ++ [Symbol.stringQuote])).inSingle = q.inSingle := by
  have hstep (q : Quotes) : (q.step Symbol.stringQuote).inSingle = !q.inSingle := by simp [step]
  simp [hstep, inSingle_after hw]

end Quotes

namespace Piece

variable {q : Quotes} {c : Char} {w t : Text}

theorem cut_cons_of_isOpen (hq : q.isOpen) : cut q (c :: t) = plain c :: cut (q.step c) t := by
  cases t <;> simp [cut, single_of_isOpen hq, hq]

theorem cut_eq_map_plain (hw : ∀ c ∈ w, c ∉ Symbol.punctuation) : cut q w = w.map plain := by
  induction w generalizing q with
  | nil => rfl
  | cons c w ih =>
    obtain ⟨hc, hw⟩ := List.forall_mem_cons.1 hw
    rw [cut_cons_of_notMem hc, ih hw, List.map_cons]

/-- Between single quotes there is no symbol. -/
theorem cut_append_of_inSingle (hq : q.inSingle) (hw : Symbol.stringQuote ∉ w) (t : Text) :
    cut q (w ++ t) = w.map plain ++ cut (q.after w) t := by
  induction w generalizing q with
  | nil => rfl
  | cons c w ih =>
    rw [List.mem_cons, not_or] at hw
    have hstep : (q.step c).inSingle := by
      simpa [hq] using Quotes.inSingle_after (q := q) (w := [c]) (by simpa using hw.1)
    rw [List.cons_append, cut_cons_of_isOpen (by simp [Quotes.isOpen, hq]), ih hstep hw.2]
    rfl

end Piece

namespace Spacing

variable {q : Quotes} {w first last : Text} {middle : List Text} {tokenClass : TokenClass}

theorem respace_append (q : Quotes) (ws vs : List Text) :
    respace q (ws ++ vs) = respace q ws ++ respace (q.after ws.flatten) vs := by
  induction ws generalizing q with
  | nil => rfl
  | cons w ws ih => simp [respace, ih]

theorem wordsFrom_of_cut_eq (hw : Text.IsWord w) (h : Piece.cut q w = w.map .plain) :
    Piece.wordsFrom [] (Piece.cut q w) = [w] := by
  rw [h, Piece.wordsFrom_map_plain, List.nil_append, hw.words_eq]

theorem wordsFrom_cut_of_mem_all (q : Quotes) (hw : w ∈ Symbol.all) :
    Piece.wordsFrom [] (Piece.cut q w) = [w] := by
  have h : ∀ single double, ∀ s ∈ Symbol.all,
      Piece.wordsFrom [] (Piece.cut ⟨single, double⟩ s) = [s] := by decide
  exact h q.inSingle q.inDouble w hw

/-- A word that is a symbol, or has none in it, is kept, whichever quotes are open. -/
theorem wordsFrom_cut_eq_singleton (q : Quotes) (hw : Text.IsWord w)
    (h : w ∈ Symbol.all ∨ ∀ c ∈ w, c ∉ Symbol.punctuation) :
    Piece.wordsFrom [] (Piece.cut q w) = [w] := by
  rcases h with h | h
  · exact wordsFrom_cut_of_mem_all q h
  · exact wordsFrom_of_cut_eq hw (Piece.cut_eq_map_plain h)

/-- A word that has a class is kept, whichever quotes are open. -/
theorem wordsFrom_cut_of_classify (q : Quotes) (h : Word.classify w = some tokenClass) :
    Piece.wordsFrom [] (Piece.cut q w) = [w] :=
  wordsFrom_cut_eq_singleton q (Word.isWord_of_classify h)
    ((Word.mem_all_or_alphanumeric h).imp_right (·.notMem_punctuation))

/-- The words of a literal after the first one, the closing quote included. -/
theorem respace_inside (hq : q.inSingle) (hmiddle : ∀ w ∈ middle, Text.IsWord w)
    (hlast : Text.Solid last) (hquote : ∀ w ∈ middle ++ [last], Symbol.stringQuote ∉ w) :
    respace q (middle ++ [last ++ [Symbol.stringQuote]]) =
      middle ++ [last ++ [Symbol.stringQuote]] := by
  induction middle generalizing q with
  | nil =>
    have hw : Text.IsWord (last ++ [Symbol.stringQuote]) := ⟨by simp, by simp [hlast]; decide⟩
    have hcut : Piece.cut q (last ++ [Symbol.stringQuote]) =
        (last ++ [Symbol.stringQuote]).map .plain := by
      rw [Piece.cut_append_of_inSingle hq (hquote last (by simp)),
        Piece.cut_cons_of_notMem (by decide), List.map_append]
      rfl
    simp [respace, wordsFrom_of_cut_eq hw hcut]
  | cons w middle ih =>
    obtain ⟨hw, hmiddle⟩ := List.forall_mem_cons.1 hmiddle
    obtain ⟨hwquote, hquote⟩ := List.forall_mem_cons.1 hquote
    have hcut : Piece.cut q w = w.map .plain := by
      simpa [Piece.cut] using Piece.cut_append_of_inSingle hq hwquote []
    rw [List.cons_append, respace, wordsFrom_of_cut_eq hw hcut,
      ih (by rwa [Quotes.inSingle_after hwquote]) hmiddle hquote]
    rfl

/-- The words of a literal are kept where no single quote is open. -/
theorem respace_literal (hq : q.inSingle = false) (hfirst : Text.Solid first)
    (hmiddle : ∀ w ∈ middle, Text.IsWord w) (hlast : Text.Solid last)
    (hquote : ∀ w ∈ first :: (middle ++ [last]), Symbol.stringQuote ∉ w) :
    respace q ((Symbol.stringQuote :: first) :: (middle ++ [last ++ [Symbol.stringQuote]])) =
      (Symbol.stringQuote :: first) :: (middle ++ [last ++ [Symbol.stringQuote]]) := by
  obtain ⟨hfirstQuote, hquote⟩ := List.forall_mem_cons.1 hquote
  have hstep : (q.step Symbol.stringQuote).inSingle := by simp [Quotes.step, hq]
  have hw : Text.IsWord (Symbol.stringQuote :: first) := ⟨by simp, by simp [hfirst]; decide⟩
  have hcut : Piece.cut q (Symbol.stringQuote :: first) =
      (Symbol.stringQuote :: first).map .plain := by
    have h := Piece.cut_append_of_inSingle hstep hfirstQuote []
    rw [List.append_nil] at h
    rw [Piece.cut_cons_of_notMem (by decide), h]
    simp [Piece.cut]
  have hafter : (q.after (Symbol.stringQuote :: first)).inSingle := by
    rw [Quotes.after_cons, Quotes.inSingle_after hfirstQuote, hstep]
  rw [respace, wordsFrom_of_cut_eq hw hcut, respace_inside hafter hmiddle hlast hquote]
  rfl

end Spacing

end PascalTokens
