import PascalTokens.Proofs.Scan.Append
import PascalTokens.Proofs.Scan.Comment
import PascalTokens.Proofs.Scan.Order

/-!
# A comment on one line or on two

The end of a block comment is looked for in two ways. On the line of the opening mark words are
skipped until one ends with the closing mark; on a later line the closing mark is searched for in
the text. A line break behind the opening mark moves the tokens one line down and changes nothing
else, unless the comment ends with a slash: then the words have a second opening mark where the text
has the closing one.

In front of a slash the closing mark is cut off, as part of a line comment. Then the comment stays
open either way.

## Main definitions

* `CommentText` says what may stand in the comment.
* `lineBelow` moves all lines but the first.

## Main statements

* `CommentText.drain_eq` and `CommentText.drain_newline_eq`: the comment is nothing to the scan.
* `CommentText.drain_newline_of_slash`: its closing mark is cut off.
* `drain_comment_newline`: the tokens behind the comment.
* `drain_comment_newline_ne`: they are not the same behind a comment that ends with a slash.
-/

namespace PascalTokens

namespace Scan

/-- The text of a comment that a line may hold, without quotes. -/
structure CommentText (c : Text) : Prop where
  single : Symbol.stringQuote ∉ c
  double : Symbol.otherQuote ∉ c
  newline : '\n' ∉ c
  comment : ¬ Symbol.lineComment <:+: c
  closing : ¬ Symbol.commentClosing <:+: c

/-- The number that a line has behind a line break in the first one. -/
def lineBelow (n : Int) : Int := if n < 2 then n else n + 1

namespace CommentText

variable {setting : Setting} {s : State} {b c l : Text}

theorem of_append (h : CommentText (c ++ l)) : CommentText c where
  single hm := h.single (List.mem_append_left l hm)
  double hm := h.double (List.mem_append_left l hm)
  newline hm := h.newline (List.mem_append_left l hm)
  comment hc := h.comment (hc.trans (List.prefix_append c l).isInfix)
  closing hc := h.closing (hc.trans (List.prefix_append c l).isInfix)

/-! ## Where the comment closes -/

theorem after_eq (h : CommentText c) (q : Quotes) : q.after c = q := by
  simp [Quotes.after_eq, List.count_eq_zero.2 h.single, List.count_eq_zero.2 h.double]

theorem newline_notMem (h : CommentText c) :
    '\n' ∉ Symbol.commentOpening ++ c ++ Symbol.commentClosing := by
  simp [h.newline, Symbol.commentOpening, Symbol.commentClosing]

theorem opening (h : CommentText c) : ¬ Symbol.lineComment <:+: Symbol.commentOpening ++ c := by
  have hmark : Symbol.commentOpening ++ c = ['/'] ++ '*' :: c := rfl
  rw [hmark, Text.infix_append_cons (by decide) (by decide), not_or]
  exact ⟨by decide, h.comment⟩

/-- A star behind the text closes nothing yet. -/
theorem concat_star (h : CommentText c) : ¬ Symbol.commentClosing <:+: c ++ ['*'] := by
  rw [List.infix_concat_iff, not_or]
  refine ⟨fun hend => ?_, h.closing⟩
  obtain ⟨a, ha⟩ := hend
  have hlast : (a ++ Symbol.commentClosing).getLast? = some '*' := by simp [ha]
  simp [Symbol.commentClosing] at hlast

variable {a : Text}

theorem before_closing_eq (ha : ¬ Symbol.lineComment <:+: a) (l : Text) :
    Text.before Symbol.lineComment (a ++ Symbol.commentClosing ++ l) =
      a ++ '*' :: Text.before Symbol.lineComment ('/' :: l) := by
  have hmark : a ++ Symbol.commentClosing ++ l = a ++ '*' :: '/' :: l := by
    simp [Symbol.commentClosing]
  rw [hmark, Text.before_append_cons (by decide) ha]

/-- The slash of the closing mark begins a line comment. -/
theorem before_closing_of_slash (ha : ¬ Symbol.lineComment <:+: a) (hl : l.head? = some '/') :
    Text.before Symbol.lineComment (a ++ Symbol.commentClosing ++ l) = a ++ ['*'] := by
  obtain ⟨k, rfl⟩ := List.head?_eq_some_iff.1 hl
  have hcut : Symbol.lineComment <+: '/' :: '/' :: k := List.prefix_append ['/', '/'] k
  rw [before_closing_eq ha, Text.before_cons, if_pos hcut]

theorem before_closing (ha : ¬ Symbol.lineComment <:+: a) (hl : l.head? ≠ some '/') :
    Text.before Symbol.lineComment (a ++ Symbol.commentClosing ++ l) =
      a ++ Symbol.commentClosing ++ Text.before Symbol.lineComment l := by
  have hkept : ¬ Symbol.lineComment <+: '/' :: l := by
    rintro ⟨k, hk⟩
    obtain rfl : '/' :: k = l := (List.cons.inj hk).2
    simp at hl
  rw [before_closing_eq ha, Text.before_cons, if_neg hkept]
  simp [Symbol.commentClosing]

/-- In front of anything but a slash, a comment on its line is nothing to the scan. -/
theorem drain_eq (h : CommentText c) (setting : Setting) (hlast : c.getLast? ≠ some '/')
    (hb : (Text.firstLine b).head? ≠ some '/') :
    drain setting (Symbol.commentOpening ++ c ++ Symbol.commentClosing ++ b) = drain setting b := by
  have hopen (l : Text) (hq : ((Quotes.atStart false).after c).isOpen) : Spacing.SetApart l := by
    simp [h.after_eq, Quotes.isOpen, Quotes.atStart] at hq
  obtain ⟨ws, hleads⟩ := leads_comment setting h.newline h.closing hlast
    (hopen (Text.before Symbol.lineComment (Text.firstLine b)))
  exact hleads.drain_eq_of_before (before_closing h.opening hb)

/-! ## On a later line -/

theorem lines_newline (h : CommentText c) (b : Text) :
    Text.lines (Symbol.commentOpening ++ '\n' :: (c ++ Symbol.commentClosing ++ b)) =
      Symbol.commentOpening :: (c ++ Symbol.commentClosing ++ Text.firstLine b) ::
        (Text.lines b).tail := by
  have hline : '\n' ∉ c ++ Symbol.commentClosing := by
    simp [h.newline, Symbol.commentClosing]
  rw [Text.lines_append_newline (by decide), Text.lines_append hline]

/-- A line with nothing but an opening mark leaves the comment open. -/
theorem drain_opening (h : CommentText c) (setting : Setting) (b : Text) :
    drain setting (Symbol.commentOpening ++ '\n' :: (c ++ Symbol.commentClosing ++ b)) =
      (State.firstLine.openComment.scanLines setting 2
        ((c ++ Symbol.commentClosing ++ Text.firstLine b) :: (Text.lines b).tail)).drain
          setting := by
  rw [drain_eq_lines, h.lines_newline]
  rfl

theorem beginLine_closing (h : CommentText c) (hs : s.mode = .comment) (hl : l.head? ≠ some '/')
    (n : Int) :
    s.beginLine n (c ++ Symbol.commentClosing ++ l) =
      ({ s with mode := .normal } : State).beginLine n l := by
  have hleft : ({ s with line := n } : State).uncomment (c ++ Symbol.commentClosing ++ l) =
      ({ s with mode := .normal, line := n }, some (Text.before Symbol.lineComment l)) := by
    refine State.uncomment_of_after? hs ?_
    rw [before_closing h.comment hl]
    exact Text.after?_append h.concat_star _
  have hnormal : ({ s with mode := .normal, line := n } : State).uncomment l =
      ({ s with mode := .normal, line := n }, some (Text.before Symbol.lineComment l)) :=
    State.uncomment_of_ne (by simp) l
  rw [State.beginLine, State.beginLine, hleft, hnormal]

theorem drain_newline_eq (h : CommentText c) (setting : Setting)
    (hb : (Text.firstLine b).head? ≠ some '/') :
    drain setting (Symbol.commentOpening ++ '\n' :: (c ++ Symbol.commentClosing ++ b)) =
      (drain setting b).renumber (· + 1) := by
  have hclosed : ({ State.firstLine.openComment with mode := .normal } : State).AtRest := ⟨rfl, rfl⟩
  rw [h.drain_opening, ← drain_scanLines_of_atRest hclosed 1 b, Text.lines_eq_cons b,
    State.scanLines_cons, State.scanLines_cons, h.beginLine_closing rfl hb]
  rfl

/-! ## Where the closing mark is cut off -/

/-- In front of a slash, a comment on its line stays open. -/
theorem drain_eq_of_slash (h : CommentText c) (setting : Setting)
    (hb : (Text.firstLine b).head? = some '/') :
    drain setting (Symbol.commentOpening ++ c ++ Symbol.commentClosing ++ b) =
      (State.firstLine.openComment.scanLines setting 2 (Text.lines b).tail).drain setting := by
  have hskip : State.firstLine.openComment.scanWords setting
      (Piece.wordsFrom [] (Piece.cut (.atStart false) (c ++ ['*']))) =
        ⟨State.firstLine.openComment, [], none⟩ :=
    scanWords_of_not_closes rfl fun _ hw => closesComment_of_mem_wordsFrom h.concat_star hw
  have htail : (Text.lines (Symbol.commentOpening ++ c ++ Symbol.commentClosing ++ b)).tail =
      (Text.lines b).tail := by
    rw [Text.lines_append h.newline_notMem]
    rfl
  rw [drain_eq_firstLine, htail, Text.firstLine_append h.newline_notMem,
    before_closing_of_slash h.opening hb, List.append_assoc, wordsFrom_opening,
    scanWords_opening rfl, hskip, Progress.andThen_ok, Progress.prepend_nil]

theorem drain_newline_of_slash (h : CommentText c) (setting : Setting)
    (hb : (Text.firstLine b).head? = some '/') :
    drain setting (Symbol.commentOpening ++ '\n' :: (c ++ Symbol.commentClosing ++ b)) =
      (drain setting (Symbol.commentOpening ++ c ++ Symbol.commentClosing ++ b)).renumber
        lineBelow := by
  have hbegin : State.firstLine.openComment.beginLine 2
      (c ++ Symbol.commentClosing ++ Text.firstLine b) =
        ({ State.firstLine.openComment with line := 2 }, []) := by
    have hnone : Text.after? Symbol.commentClosing (Text.before Symbol.lineComment
        (c ++ Symbol.commentClosing ++ Text.firstLine b)) = none := by
      rw [before_closing_of_slash h.comment hb]
      exact Text.after?_eq_none h.concat_star
    simp only [State.beginLine, State.uncomment, hnone]
    rfl
  -- The comment has been opened on the first line, which keeps its number.
  have hopen : State.firstLine.openComment.renumber lineBelow = State.firstLine.openComment := rfl
  have hstep (m : Int) (hm : 2 ≤ m) : lineBelow (m + 1) = lineBelow m + 1 := by
    simp only [lineBelow]
    omega
  have hmoved := State.firstLine.openComment.scanLines_renumber_of_step setting hstep
    (Text.lines b).tail
  rw [h.drain_eq_of_slash setting hb, h.drain_opening, State.scanLines_cons, hbegin,
    State.scanWords_nil, Progress.andThen_ok, Progress.prepend_nil, ← Progress.renumber_drain,
    ← hmoved, hopen]
  exact State.drain_scanLines_line _ 2 3 _

/-! ## A slash at the end of the text -/

/-- In front of an opening mark, the words of the text end with it. -/
theorem wordsFrom_append_opening (h : CommentText (c ++ ['/'])) (l : Text) :
    Piece.wordsFrom [] (Piece.cut (.atStart false) (c ++ (Symbol.commentOpening ++ l))) =
      Piece.wordsFrom [] (Piece.cut (.atStart false) c) ++
        Symbol.commentOpening :: Piece.wordsFrom [] (Piece.cut (.atStart false) l) := by
  have hmark : Symbol.commentOpening ∈ Symbol.compounds := by decide
  have hapart : ∀ d ∈ c.getLast?, ∀ e ∈ (Symbol.commentOpening ++ l).head?,
      [d, e] ∉ Symbol.compounds := by
    intro d hd e he hde
    obtain ⟨a, rfl⟩ := List.getLast?_eq_some_iff.1 hd
    obtain rfl : '/' = e := by simpa [Symbol.commentOpening] using he
    obtain rfl : d = '*' := by simpa [Symbol.compounds] using hde
    exact h.closing ⟨a, [], by simp [Symbol.commentClosing]⟩
  rw [Piece.cut_append _ _ _ hapart, h.of_append.after_eq, wordsFrom_append_mark hmark]

/-- Behind a slash, the star of the closing mark is read as part of another opening mark, and the
comment goes on. -/
theorem drain_eq_of_getLast? (h : CommentText c) (setting : Setting) (hlast : c.getLast? = some '/')
    (b : Text) :
    drain setting (Symbol.commentOpening ++ c ++ Symbol.commentClosing ++ b) =
      drain setting (Symbol.commentOpening ++ '/' :: b) := by
  obtain ⟨a, rfl⟩ := List.getLast?_eq_some_iff.1 hlast
  have hopening : Symbol.commentOpening ++ '/' :: b = ['/', '*', '/'] ++ b := rfl
  have hnewline : '\n' ∉ ['/', '*', '/'] := by decide
  have hskip : State.firstLine.openComment.scanWords setting
      (Piece.wordsFrom [] (Piece.cut (.atStart false) a) ++ [Symbol.commentOpening]) =
        ⟨State.firstLine.openComment, [], none⟩ := by
    refine scanWords_of_not_closes rfl fun w hw => ?_
    rcases List.mem_append.1 hw with hw | hw
    · exact closesComment_of_mem_wordsFrom h.of_append.closing hw
    · rw [List.mem_singleton.1 hw]
      decide
  have hone (l : Text) : Text.before Symbol.lineComment
      (Symbol.commentOpening ++ (a ++ ['/']) ++ Symbol.commentClosing ++ l) =
        Symbol.commentOpening ++
          (a ++ (Symbol.commentOpening ++ Text.before Symbol.lineComment ('/' :: l))) := by
    rw [before_closing_eq h.opening]
    simp [Symbol.commentOpening]
  have hother (l : Text) : Text.before Symbol.lineComment (['/', '*', '/'] ++ l) =
      Symbol.commentOpening ++ Text.before Symbol.lineComment ('/' :: l) :=
    Text.before_append_cons (a := ['/']) (c := '*') (by decide) (by decide) ('/' :: l)
  rw [hopening, drain_eq_firstLine, drain_eq_firstLine, Text.lines_append h.newline_notMem,
    Text.lines_append hnewline, Text.firstLine_append h.newline_notMem,
    Text.firstLine_append hnewline, hone, hother, wordsFrom_opening, wordsFrom_opening,
    scanWords_opening rfl, scanWords_opening rfl, h.wordsFrom_append_opening, List.append_cons,
    State.scanWords_append, hskip, Progress.andThen_ok, Progress.prepend_nil]
  rfl

end CommentText

/-- Behind a comment that does not end with a slash, the tokens are the same whether the comment
stands on one line or begins on a line before, one line further down. If it ends with a slash, its
closing mark does not close it on one line: the star is read as part of another opening mark. -/
theorem drain_comment_newline (setting : Setting) (c b : Text) (hsingle : Symbol.stringQuote ∉ c)
    (hdouble : Symbol.otherQuote ∉ c) (hnewline : '\n' ∉ c) (hcomment : ¬ Symbol.lineComment <:+: c)
    (hclosing : ¬ Symbol.commentClosing <:+: c) :
    let onOne := Symbol.commentOpening ++ c ++ Symbol.commentClosing ++ b
    let onTwo := Symbol.commentOpening ++ '\n' :: (c ++ Symbol.commentClosing ++ b)
    (c.getLast? ≠ some '/' →
        (drain setting onTwo).tokens = (drain setting onOne).tokens.map (·.renumber (· + 1))) ∧
      (c.getLast? = some '/' →
        drain setting onOne = drain setting (Symbol.commentOpening ++ '/' :: b)) := by
  intro onOne onTwo
  have h : CommentText c := ⟨hsingle, hdouble, hnewline, hcomment, hclosing⟩
  refine ⟨fun hlast => ?_, fun hlast => h.drain_eq_of_getLast? setting hlast b⟩
  by_cases hb : (Text.firstLine b).head? = some '/'
  · rw [h.drain_newline_of_slash setting hb]
    -- No token stands on the first line, so all of them move.
    refine List.map_congr_left fun t ht => ?_
    rw [h.drain_eq_of_slash setting hb, Progress.tokens_drain] at ht
    have hline := State.le_line_of_mem_scanLines _ _ ht
    have hbelow : lineBelow t.line = t.line + 1 := by
      simp only [lineBelow]
      omega
    rw [Token.renumber, Token.renumber, hbelow]
  · rw [h.drain_newline_eq setting hb, h.drain_eq setting hlast hb]
    rfl

/-- A comment with symbols up to its closing mark, and one that goes on because of its slash. -/
theorem drain_comment_newline_symbols :
    let b := "begin // y\ny */ z".toList
    let closed := " x;=**".toList ++ Symbol.commentClosing ++ b
    let slash := Symbol.commentOpening ++ "x=/".toList ++ Symbol.commentClosing ++ b
    (drain {} (Symbol.commentOpening ++ '\n' :: closed)).tokens =
        (drain {} (Symbol.commentOpening ++ closed)).tokens.map (·.renumber (· + 1)) ∧
      (drain {} (Symbol.commentOpening ++ closed)).tokens[0]? =
        some ⟨"begin".toList, .reservedKeyword, 1⟩ ∧
      drain {} slash = drain {} (Symbol.commentOpening ++ '/' :: b) ∧
      (drain {} slash).tokens = [⟨['z'], .identifier, 2⟩] := by
  intro b closed slash
  obtain ⟨hclosed, -⟩ := drain_comment_newline {} " x;=**".toList b (by decide) (by decide)
    (by decide) (by decide) (by decide)
  obtain ⟨-, hslash⟩ := drain_comment_newline {} "x=/".toList b (by decide) (by decide)
    (by decide) (by decide) (by decide)
  exact ⟨hclosed (by decide), by decide +kernel, hslash (by decide), by decide +kernel⟩

/-- Behind a slash, the comment closes on a later line and does not close on its own. -/
theorem drain_comment_newline_ne :
    let c := " x/".toList
    let b := " y".toList
    (Symbol.stringQuote ∉ c ∧ Symbol.otherQuote ∉ c ∧ '\n' ∉ c ∧ ¬ Symbol.lineComment <:+: c ∧
        ¬ Symbol.commentClosing <:+: c) ∧
      (drain {} (Symbol.commentOpening ++ c ++ Symbol.commentClosing ++ b)).tokens = [] ∧
      (drain {} (Symbol.commentOpening ++ '\n' :: (c ++ Symbol.commentClosing ++ b))).tokens =
        [⟨['y'], .identifier, 2⟩] := by
  decide +kernel

end Scan

end PascalTokens
