import Mathlib.Algebra.Group.Nat.Even
import PascalTokens.Proofs.Spacing.Kept

/-!
# The rest of a line

What stands behind a part of a line is read with the quotes that this part leaves. They are counted
from the start of the line, so the rest is read as if it stood alone when both kinds are even in
number, and also when blanks set its symbols apart already.

## Main definitions

* `Spacing.SetApart` says that a rest has its blanks already.

## Main statements

* `Quotes.after_eq` counts the quotes of a text.
* `Spacing.wordsFrom_cut_eq`: when the rest of a line is read as if it stood alone.
-/

namespace PascalTokens

namespace Quotes

variable {q : Quotes} {t : Text}

/-- Each kind of quote is open or closed as before when there is an even number of it, and the
other way round when the number is odd. -/
theorem after_eq (q : Quotes) (t : Text) :
    q.after t =
      ⟨if Even (t.count Symbol.stringQuote) then q.inSingle else !q.inSingle,
        if Even (t.count Symbol.otherQuote) then q.inDouble else !q.inDouble⟩ := by
  have hquotes : Symbol.stringQuote ≠ Symbol.otherQuote := by decide
  induction t generalizing q with
  | nil => simp
  | cons c t ih =>
    rw [after_cons, ih, List.count_cons, List.count_cons]
    by_cases hs : c = Symbol.stringQuote
    · by_cases heven : Even (t.count Symbol.stringQuote) <;>
        simp [step, hs, hquotes, heven, Nat.even_add_one]
    · by_cases ho : c = Symbol.otherQuote
      · by_cases heven : Even (t.count Symbol.otherQuote) <;>
          simp [step, ho, hquotes.symm, heven, Nat.even_add_one]
      · simp [step_of_ne hs ho, hs, ho]

theorem eq_atStart (h : q.isOpen = false) : q = atStart false := by
  obtain ⟨single, double⟩ := q
  simpa [isOpen, atStart] using h

end Quotes

namespace Piece

variable {q : Quotes} {l : Text}

/-- A blank ends the word before it, and so does a symbol outside quotes. -/
theorem beginsApart_cut
    (h : ∀ c ∈ l.head?, Text.isBlank c ∨ q.isOpen = false ∧ c ∈ Symbol.punctuation) :
    BeginsApart (cut q l) := by
  intro c hc
  cases l with
  | nil => simp [cut] at hc
  | cons d l =>
    rcases h d (by simp) with hblank | ⟨hq, hd⟩
    · rw [cut_cons_blank hblank] at hc
      obtain rfl : d = c := by simpa using hc
      exact hblank
    · have hsingle : single q d = symbol [d] := by simp [single, hq, hd]
      cases l with
      | nil => simp [cut, hsingle] at hc
      | cons e l =>
        rw [cut] at hc
        split at hc
        · simp at hc
        · simp [hsingle] at hc

end Piece

namespace Spacing

variable {q : Quotes} {l : Text} {ws : List Text}

/-- A line, or what is left of one, that the spacing has nothing to do with: it does not go on with
a word, and each of its words is a symbol or has none in it. -/
structure SetApart (l : Text) : Prop where
  blank : ∀ c ∈ l.head?, Text.isBlank c
  words : ∀ w ∈ Text.words l, w ∈ Symbol.all ∨ ∀ c ∈ w, c ∉ Symbol.punctuation

theorem setApart_iff_all {l : Text} : SetApart l ↔
    (l.head?.all Text.isBlank && (Text.words l).all fun w =>
      Symbol.all.contains w || w.all fun c => !Symbol.punctuation.contains c) = true := by
  simp only [Bool.and_eq_true, Option.all_eq_true, List.all_eq_true, Bool.or_eq_true,
    List.contains_iff_mem, Bool.not_eq_true', ← Bool.not_eq_true]
  exact ⟨fun h => ⟨h.blank, h.words⟩, fun ⟨hblank, hwords⟩ => ⟨hblank, hwords⟩⟩

instance (l : Text) : Decidable (SetApart l) := decidable_of_iff' _ setApart_iff_all

theorem respace_eq_self (q : Quotes) (hws : ∀ w ∈ ws, Text.IsWord w)
    (h : ∀ w ∈ ws, w ∈ Symbol.all ∨ ∀ c ∈ w, c ∉ Symbol.punctuation) : respace q ws = ws := by
  induction ws generalizing q with
  | nil => rfl
  | cons w ws ih =>
    obtain ⟨hword, hws⟩ := List.forall_mem_cons.1 hws
    obtain ⟨hw, h⟩ := List.forall_mem_cons.1 h
    rw [respace, wordsFrom_cut_eq_singleton q hword hw, ih _ hws h, List.singleton_append]

/-- Quotes that are open do not show in a rest that is set apart without the spacing. -/
theorem wordsFrom_cut_eq (h : q.isOpen → SetApart l) :
    Piece.wordsFrom [] (Piece.cut q l) = Piece.wordsFrom [] (Piece.cut (.atStart false) l) := by
  cases hq : q.isOpen with
  | false => rw [Quotes.eq_atStart hq]
  | true =>
    have hkept (q : Quotes) : respace q (Text.words l) = Text.words l :=
      respace_eq_self q (fun _ hw => Text.isWord_of_mem_words hw) (h hq).words
    rw [wordsFrom_cut_eq_respace, wordsFrom_cut_eq_respace, hkept, hkept]

end Spacing

end PascalTokens
