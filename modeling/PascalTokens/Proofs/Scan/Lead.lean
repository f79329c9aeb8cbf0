import PascalTokens.Proofs.Scan.Resume
import PascalTokens.Proofs.Spacing.Rest

/-!
# What leads a source

A source may begin with something that the scan reads by itself, such as a comment or a literal,
and go on with another source on the same line. If the words of the first line fall apart in this
way, and the scan is at rest where they do, the other source is read as if it stood alone.

## Main definitions

* `Leads` says that the words of a lead are read by themselves.

## Main statements

* `Leads.drain_eq_of_before` and `Leads.drain_eq`: the drain of a source behind its lead.
-/

namespace PascalTokens

namespace Scan

/-- The state at the beginning of the first line. -/
def State.firstLine : State := { State.initial with line := 1 }

/-- In front of the rest of a line, the lead gives the words `ws` of its own. The scan of these
gives the tokens `ts` and is at rest after them. -/
structure Leads (setting : Setting) (lead rest : Text) (ws : List Text) (ts : List Token) :
    Prop where
  newline : '\n' ∉ lead
  words_eq : Piece.wordsFrom [] (Piece.cut (.atStart false) (lead ++ rest)) =
    ws ++ Piece.wordsFrom [] (Piece.cut (.atStart false) rest)
  scanWords_eq : ∃ r : State, r.AtRest ∧ r.line = 1 ∧
    State.firstLine.scanWords setting ws = ⟨r, ts, none⟩

variable {setting : Setting} {lead line t : Text} {ws : List Text}
  {ts : List Token}

theorem beginLine_initial (line : Text) :
    State.initial.beginLine 1 line =
      (.firstLine,
        Piece.wordsFrom [] (Piece.cut (.atStart false) (Text.before Symbol.lineComment line))) := by
  have hmode : State.initial.mode = .normal := rfl
  simp [State.beginLine, State.uncomment, State.wordsOf, State.firstLine, hmode, Spacing.words_pad]

theorem drain_eq_firstLine (setting : Setting) (t : Text) :
    drain setting t =
      ((State.firstLine.scanWords setting (Piece.wordsFrom []
        (Piece.cut (.atStart false) (Text.before Symbol.lineComment (Text.firstLine t))))).andThen
          fun s => s.scanLines setting 2 (Text.lines t).tail).drain setting := by
  rw [drain_eq_lines, Text.lines_eq_cons, State.scanLines_cons, beginLine_initial]
  rfl

theorem Leads.drain_eq_of_before
    (h : Leads setting lead (Text.before Symbol.lineComment (Text.firstLine t)) ws ts)
    (hcode : Text.before Symbol.lineComment (lead ++ Text.firstLine t) =
      lead ++ Text.before Symbol.lineComment (Text.firstLine t)) :
    drain setting (lead ++ t) = ⟨ts ++ (drain setting t).tokens, (drain setting t).ending⟩ := by
  obtain ⟨hnewline, hwords, r, hrest, hline, hscan⟩ := h
  have htail : (Text.lines (lead ++ t)).tail = (Text.lines t).tail := by
    rw [Text.lines_append hnewline]
    rfl
  have halike : r.Alike State.firstLine :=
    State.alike_of_normal hrest.mode_eq rfl hline hrest.buffer_eq
  rw [drain_eq_firstLine, drain_eq_firstLine, htail, Text.firstLine_append hnewline, hcode, hwords,
    State.scanWords_append, hscan, Progress.andThen_ok, Progress.andThen_prepend,
    Progress.drain_prepend]
  generalize Piece.wordsFrom [] (Piece.cut (.atStart false)
    (Text.before Symbol.lineComment (Text.firstLine t))) = rest
  have hsame : (r.scanWords setting rest).Alike (State.firstLine.scanWords setting rest) :=
    halike.scanWords rest
  rw [hsame.drain_andThen_eq fun hnext => State.drain_scanLines_congr (hnext.onLine 2) _]

theorem Leads.drain_eq (h : Leads setting lead (Text.firstLine t) ws ts)
    (hcomment : ¬ Symbol.lineComment <:+: Text.firstLine (lead ++ t)) :
    drain setting (lead ++ t) = ⟨ts ++ (drain setting t).tokens, (drain setting t).ending⟩ := by
  rw [Text.firstLine_append h.newline] at hcomment
  have hrest : Text.before Symbol.lineComment (Text.firstLine t) = Text.firstLine t := by
    refine Text.before_eq_self fun hwithin => hcomment ?_
    exact hwithin.trans (List.suffix_append _ _).isInfix
  have hcode : Text.before Symbol.lineComment (lead ++ Text.firstLine t) =
      lead ++ Text.before Symbol.lineComment (Text.firstLine t) := by
    rw [hrest, Text.before_eq_self hcomment]
  rw [← hrest] at h
  exact h.drain_eq_of_before hcode

end Scan

end PascalTokens
