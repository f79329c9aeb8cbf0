import PascalTokens.Proofs.Scan.Lead

/-!
# A comment in front of a source

A block comment that ends on its line is nothing to the scan, provided that the quotes in it do not
reach beyond it. An odd number of quotes of a kind does, since quotes are counted from the start of
the line: what follows the comment is then read as quoted text. So the closing mark has to end a
word, and the rest of the line may hold no symbol that would have to be set apart.

## Main statements

* `drain_comment`: a source behind a comment has the drain that it has alone.
* `drain_comment_quote_ne`: not so when a quote in the comment reaches beyond it.
-/

namespace PascalTokens

namespace Scan

variable {setting : Setting} {c l : Text} {ws : List Text}

/-! ## The words of a comment -/

/-- No word of a text without a closing mark closes a comment. -/
theorem closesComment_of_mem_wordsFrom (hc : ¬ Symbol.commentClosing <:+: c) {q : Quotes} {w : Text}
    (hw : w ∈ Piece.wordsFrom [] (Piece.cut q c)) : Word.closesComment w = false := by
  have hwithin : w <:+: c := (Spacing.laid_wordsFrom_cut q c).infix_of_mem hw
  rw [Word.closesComment, ← Bool.not_eq_true, List.isSuffixOf_iff_suffix]
  intro hsuffix
  exact hc (hsuffix.isInfix.trans hwithin)

/-- Where no quote is open, a mark of two characters is a word of its own. -/
theorem wordsFrom_append_mark {mark : Text} (hmark : mark ∈ Symbol.compounds) (ps : List Piece)
    (l : Text) :
    Piece.wordsFrom [] (ps ++ Piece.cut (.atStart false) (mark ++ l)) =
      Piece.wordsFrom [] ps ++ mark :: Piece.wordsFrom [] (Piece.cut (.atStart false) l) := by
  have hcut : Piece.cut (.atStart false) (mark ++ l) =
      .symbol mark :: Piece.cut (.atStart false) l := by
    simp only [Symbol.compounds, List.mem_cons, List.not_mem_nil, or_false] at hmark
    rcases hmark with rfl | rfl | rfl | rfl | rfl <;> rfl
  have hbegins : Piece.BeginsApart (Piece.cut (.atStart false) (mark ++ l)) := by
    simp [Piece.BeginsApart, hcut]
  rw [Piece.wordsFrom_append _ _ hbegins, hcut]
  rfl

/-- Where a quote is open, the closing mark ends a word, and this word is the only one that is
not there without the mark. -/
theorem exists_wordsFrom_append_closing {q : Quotes} (hq : q.isOpen) (hl : Spacing.SetApart l)
    (ps : List Piece) :
    ∃ done run, (∀ w ∈ done, w ∈ Piece.wordsFrom [] ps) ∧
      Piece.wordsFrom [] (ps ++ Piece.cut q (Symbol.commentClosing ++ l)) =
        done ++ (run ++ Symbol.commentClosing) ::
          Piece.wordsFrom [] (Piece.cut (.atStart false) l) := by
  obtain ⟨done, run, hrun, hdone⟩ := Piece.exists_wordsFrom_append Text.solid_nil ps
  have hmark : Piece.cut q (Symbol.commentClosing ++ l) =
      Symbol.commentClosing.map .plain ++ Piece.cut q l := by
    have hstar : q.step '*' = q := Quotes.step_of_mem_punctuation (by decide)
    have hslash : q.step '/' = q := Quotes.step_of_mem_punctuation (by decide)
    simp only [Symbol.commentClosing, List.cons_append, List.nil_append,
      Piece.cut_cons_of_isOpen hq, hstar, hslash]
    rfl
  have hbegins : Piece.BeginsApart (Piece.cut q l) :=
    Piece.beginsApart_cut fun d hd => .inl (hl.blank d hd)
  have hword : Text.IsWord (run ++ Symbol.commentClosing) :=
    ⟨by simp [Symbol.commentClosing], by simp [hrun, Symbol.commentClosing]; decide⟩
  refine ⟨done, run, fun w hw => ?_, ?_⟩
  · have hall := hdone []
    rw [List.append_nil] at hall
    simp [hall, hw]
  · rw [hmark, hdone, Piece.wordsFrom_append _ _ hbegins, Piece.wordsFrom_map_plain,
      hword.words_eq, Spacing.wordsFrom_cut_eq fun _ => hl, List.singleton_append]

/-- The words of the text of a comment and of what follows it: none closes the comment before its
closing mark is read, and the word that has it does. -/
theorem exists_words_comment (hc : ¬ Symbol.commentClosing <:+: c) (hlast : c.getLast? ≠ some '/')
    (hopen : ((Quotes.atStart false).after c).isOpen → Spacing.SetApart l) :
    ∃ ws closing, (∀ w ∈ ws, Word.closesComment w = false) ∧ Word.closesComment closing ∧
      Piece.wordsFrom [] (Piece.cut (.atStart false) (c ++ (Symbol.commentClosing ++ l))) =
        ws ++ closing :: Piece.wordsFrom [] (Piece.cut (.atStart false) l) := by
  have hcut : Piece.cut (.atStart false) (c ++ (Symbol.commentClosing ++ l)) =
      Piece.cut (.atStart false) c ++
        Piece.cut ((Quotes.atStart false).after c) (Symbol.commentClosing ++ l) := by
    refine Piece.cut_append _ _ _ fun d hd e he => ?_
    obtain rfl : '*' = e := by simpa [Symbol.commentClosing] using he
    have hne : d ≠ '/' := by
      rintro rfl
      exact hlast hd
    simp [Symbol.compounds, hne]
  have hnone : ∀ w ∈ Piece.wordsFrom [] (Piece.cut (.atStart false) c),
      Word.closesComment w = false := fun w hw => closesComment_of_mem_wordsFrom hc hw
  rw [hcut]
  generalize (Quotes.atStart false).after c = q at hopen
  cases hq : q.isOpen with
  | false =>
    obtain rfl := Quotes.eq_atStart hq
    exact ⟨_, _, hnone, by decide, wordsFrom_append_mark (by decide) _ l⟩
  | true =>
    obtain ⟨done, run, hdone, hwords⟩ := exists_wordsFrom_append_closing hq (hopen hq)
      (Piece.cut (.atStart false) c)
    exact ⟨done, _, fun w hw => hnone w (hdone w hw), by simp [Word.closesComment], hwords⟩

/-- The opening mark is a word of its own at the beginning of a line. -/
theorem wordsFrom_opening (l : Text) :
    Piece.wordsFrom [] (Piece.cut (.atStart false) (Symbol.commentOpening ++ l)) =
      Symbol.commentOpening :: Piece.wordsFrom [] (Piece.cut (.atStart false) l) := by
  have hmark : Symbol.commentOpening ∈ Symbol.compounds := by decide
  exact wordsFrom_append_mark hmark [] l

/-! ## Scanning a comment -/

/-- In a comment, words that do not close it are passed over. -/
theorem scanWords_of_not_closes {s : State} (hs : s.mode = .comment)
    (hws : ∀ w ∈ ws, Word.closesComment w = false) : s.scanWords setting ws = ⟨s, [], none⟩ := by
  induction ws with
  | nil => rfl
  | cons w ws ih =>
    obtain ⟨hw, hws⟩ := List.forall_mem_cons.1 hws
    have hskip : s.scanComment w = s := by simp [State.scanComment, hw]
    rw [State.scanWords_cons, State.scanWord_of_comment hs, hskip, Progress.ofStep,
      Progress.andThen_ok, Progress.prepend_nil, ih hws]

/-- Behind an opening mark, words are read as in a comment. -/
theorem scanWords_opening {s : State} (hs : s.mode = .normal) (ws : List Text) :
    s.scanWords setting (Symbol.commentOpening :: ws) = s.openComment.scanWords setting ws := by
  have hopening : s.scanNormal setting Symbol.commentOpening = (s.openComment, .nothing) := rfl
  rw [State.scanWords_cons, State.scanWord_of_normal hs, hopening, Progress.ofStep,
    Progress.andThen_ok, Progress.prepend_nil]

/-- From its opening mark to the word that closes it, a comment gives nothing. -/
theorem scanWords_comment {s : State} {closing : Text} (hs : s.mode = .normal)
    (hws : ∀ w ∈ ws, Word.closesComment w = false) (hclosing : Word.closesComment closing) :
    s.scanWords setting (Symbol.commentOpening :: (ws ++ [closing])) =
      ⟨{ s with commentStart := s.line }, [], none⟩ := by
  have hskip : s.openComment.scanWords setting ws = ⟨s.openComment, [], none⟩ :=
    scanWords_of_not_closes rfl hws
  have hclose : s.openComment.scanComment closing = { s with commentStart := s.line } := by
    simp [State.scanComment, hclosing, State.openComment, hs]
  rw [scanWords_opening hs, State.scanWords_append, hskip, Progress.andThen_ok,
    Progress.prepend_nil, State.scanWords_cons, State.scanWord_of_comment rfl, hclose]
  rfl

theorem leads_comment (setting : Setting) (hnewline : '\n' ∉ c)
    (hclosing : ¬ Symbol.commentClosing <:+: c) (hlast : c.getLast? ≠ some '/')
    (hopen : ((Quotes.atStart false).after c).isOpen → Spacing.SetApart l) :
    ∃ ws, Leads setting (Symbol.commentOpening ++ c ++ Symbol.commentClosing) l ws [] := by
  obtain ⟨ws, closing, hws, hcloses, hwords⟩ := exists_words_comment hclosing hlast hopen
  refine ⟨Symbol.commentOpening :: (ws ++ [closing]), ?_, ?_, _, ?_, ?_,
    scanWords_comment rfl hws hcloses⟩
  · simp [hnewline, Symbol.commentOpening, Symbol.commentClosing]
  · rw [List.append_assoc, List.append_assoc, wordsFrom_opening, hwords]
    simp
  · exact ⟨rfl, rfl⟩
  · rfl

/-- A source behind a comment is read as if it stood alone, when the quotes in the comment are even
in number, and also when a blank follows the comment and no symbol stands on the rest of its
line. -/
theorem drain_comment (setting : Setting) (c b : Text) (hnewline : '\n' ∉ c)
    (hclosing : ¬ Symbol.commentClosing <:+: c) (hlast : c.getLast? ≠ some '/')
    (hcomment : ¬ Symbol.lineComment <:+:
      Text.firstLine (Symbol.commentOpening ++ c ++ Symbol.commentClosing ++ b))
    (hquotes : Even (c.count Symbol.stringQuote) ∧ Even (c.count Symbol.otherQuote) ∨
      Spacing.SetApart (Text.firstLine b)) :
    drain setting (Symbol.commentOpening ++ c ++ Symbol.commentClosing ++ b) = drain setting b := by
  have hopen : ((Quotes.atStart false).after c).isOpen → Spacing.SetApart (Text.firstLine b) := by
    intro hq
    refine hquotes.resolve_left fun ⟨hsingle, hdouble⟩ => ?_
    simp [Quotes.after_eq, hsingle, hdouble, Quotes.isOpen, Quotes.atStart] at hq
  obtain ⟨ws, hleads⟩ := leads_comment setting hnewline hclosing hlast hopen
  exact hleads.drain_eq hcomment

/-- Quotes that a comment closes, and one that it does not, with nothing behind it on its line. -/
theorem drain_comment_quotes :
    drain {} "/* 'a' \x22;\x22**/x;\n'y".toList = drain {} "x;\n'y".toList ∧
      drain {} "/* don't */ x ;\ny;".toList = drain {} " x ;\ny;".toList ∧
      drain {} " x ;\ny;".toList =
        ⟨[⟨['x'], .identifier, 1⟩, ⟨['y'], .identifier, 2⟩], .clean⟩ := by
  refine ⟨?_, ?_, by decide⟩
  · exact drain_comment {} " 'a' \x22;\x22*".toList "x;\n'y".toList (by decide) (by decide +kernel)
      (by decide) (by decide +kernel) (.inl (by decide))
  · exact drain_comment {} " don't ".toList " x ;\ny;".toList (by decide) (by decide +kernel)
      (by decide) (by decide +kernel) (.inr (by decide))

/-- A quote in a comment reaches beyond it: the symbol behind the next word is not set apart from
it. -/
theorem drain_comment_quote_ne :
    let c := " don't ".toList
    let b := " x;".toList
    '\n' ∉ c ∧ ¬ Symbol.commentClosing <:+: c ∧ c.getLast? ≠ some '/' ∧
      ¬ Symbol.lineComment <:+:
        Text.firstLine (Symbol.commentOpening ++ c ++ Symbol.commentClosing ++ b) ∧
      (drain {} (Symbol.commentOpening ++ c ++ Symbol.commentClosing ++ b)).tokens = [] ∧
      (drain {} b).tokens = [⟨['x'], .identifier, 1⟩] := by
  decide +kernel

end Scan

end PascalTokens
