import PascalTokens.Proofs.Scan.Append
import PascalTokens.Proofs.Scan.Invariant
import PascalTokens.Proofs.Spacing.Case

/-!
# Letter case does not matter

Two sources that differ in the case of letters only are scanned side by side, word by word: what one
word opens, closes, or is rejected for, the other one does. Both scans give the same tokens, up to
the case of their lexemes. Only `or` and `and` are other tokens in another case.

## Main definitions

* `Token.Recased`, `LexicalError.Recased` and `State.Recased` relate what differs in case only.

## Main statements

* `State.Recased.beginLine`: lines that differ in case only are cut at the same places.
* `State.Recased.scanWord`: words that differ in case only have the same effect.
* `drain_recased`: sources that differ in case only have the same drain, up to case.
-/

namespace PascalTokens

/-- The tokens stand on the same line and differ in case only. They are of one class, unless their
lexeme is an operator in lower case and an identifier in any other. -/
structure Token.Recased (t u : Token) : Prop where
  line_eq : t.line = u.line
  lexeme : Text.Recased t.lexeme u.lexeme
  class_eq : Text.lower t.lexeme ∉ Word.letterOperators → t.tokenClass = u.tokenClass
  letterClass : Text.lower t.lexeme ∈ Word.letterOperators →
    t.tokenClass = Word.letterClass t.lexeme ∧ u.tokenClass = Word.letterClass u.lexeme

/-- The failures are on the same line, with messages that differ in case only. -/
structure LexicalError.Recased (e f : LexicalError) : Prop where
  line_eq : e.line = f.line
  message : Text.Recased e.fault.message f.fault.message

namespace Scan

/-- The states differ in the case of the text of an open literal only. -/
structure State.Recased (s t : State) : Prop where
  mode_eq : s.mode = t.mode
  line_eq : s.line = t.line
  stringStart_eq : s.stringStart = t.stringStart
  commentStart_eq : s.commentStart = t.commentStart
  text : Text.Recased s.buffer.text t.buffer.text

/-- Two parts of a scan that differ in case only. -/
def Progress.Recased : Progress → Progress → Prop :=
  Related State.Recased Token.Recased LexicalError.Recased

section Recased

variable {setting : Setting} {s t : State} {w v : Text}

/-! ## Words -/

/-- A lexeme that is no letter operator has the same class in every case. -/
theorem Progress.recased_token {lexeme other : Text} {tokenClass : TokenClass} {line number : Int}
    (h : s.Recased t) (hlexeme : Text.Recased lexeme other) (hline : line = number)
    (hletter : Text.lower lexeme ∉ Word.letterOperators) :
    Progress.Recased ⟨s, [⟨lexeme, tokenClass, line⟩], none⟩
      ⟨t, [⟨other, tokenClass, number⟩], none⟩ :=
  ⟨h, .cons ⟨hline, hlexeme, fun _ => rfl, fun hmem => absurd hmem hletter⟩ .nil, .none⟩

namespace State.Recased

theorem openString (h : s.Recased t) (hw : Text.Recased w v) :
    (s.openString w).Recased (t.openString v) where
  mode_eq := rfl
  line_eq := h.line_eq
  stringStart_eq := h.line_eq
  commentStart_eq := h.commentStart_eq
  text := by simpa [State.openString] using h.text.append hw

theorem openComment (h : s.Recased t) : s.openComment.Recased t.openComment where
  mode_eq := rfl
  line_eq := h.line_eq
  stringStart_eq := h.stringStart_eq
  commentStart_eq := h.line_eq
  text := h.text

theorem scanNormal (h : s.Recased t) (hw : Text.Recased w v) :
    (Progress.ofStep (s.scanNormal setting w)).Recased
      (Progress.ofStep (t.scanNormal setting v)) := by
  rw [State.scanNormal, State.scanNormal, tokenClass?_eq_classify, tokenClass?_eq_classify]
  by_cases hletter : Text.lower w ∈ Word.letterOperators
  · have hother : Text.lower v ∈ Word.letterOperators := Text.recased_iff.1 hw ▸ hletter
    rw [Word.classify_of_lower_mem hletter, Word.classify_of_lower_mem hother]
    exact ⟨h, .cons ⟨h.line_eq, hw, fun hnot => absurd hletter hnot, fun _ => ⟨rfl, rfl⟩⟩ .nil,
      .none⟩
  · rw [← Word.classify_eq_of_recased hw hletter]
    cases Word.classify w with
    | some tokenClass => exact Progress.recased_token h hw h.line_eq hletter
    | none =>
      have hseed := Word.rel_stringSeed? hw
      generalize Word.stringSeed? w = seed, Word.stringSeed? v = other at hseed ⊢
      cases hseed with
      | some hseed => exact Progress.related_nil (h.openString hseed)
      | none =>
        have hopen := hw.apply_eq Word.commentLeftOpen?_lower
        have hpunctuation := hw.apply_eq Word.isPunctuation_lower
        dsimp only
        rw [← hopen, ← hpunctuation]
        rcases Word.commentLeftOpen? w with _ | _ | _
        · dsimp only
          split
          · exact ⟨h, .nil, .some ⟨h.line_eq, (Text.recased_refl _).append hw.quoted⟩⟩
          · exact Progress.related_nil h
        · exact Progress.related_nil h
        · exact Progress.related_nil h.openComment

/-- A lexeme with a space in it is no letter operator. -/
theorem lower_notMem_letterOperators (hw : ' ' ∈ w) : Text.lower w ∉ Word.letterOperators := by
  intro hmem
  have hspace : ' ' ∈ Text.lower w := List.mem_map_of_mem (f := Char.toLower) hw
  have hnone : ∀ s ∈ Word.letterOperators, ' ' ∉ s := by decide
  exact hnone _ hmem hspace

theorem scanString (h : s.Recased t) (hw : Text.Recased w v) :
    (Progress.ofStep (s.scanString w)).Recased (Progress.ofStep (t.scanString v)) := by
  have htext {u u' : Text} (hu : Text.Recased u u') :
      Text.Recased (s.buffer.text ++ ' ' :: u) (t.buffer.text ++ ' ' :: u') :=
    h.text.append (.cons (.inl rfl) hu)
  have hlast := hw.getLast?_eq_some_iff (d := Symbol.stringQuote) (by decide)
  rw [State.scanString, State.scanString]
  by_cases hcloses : w.getLast? = some Symbol.stringQuote
  · rw [if_pos hcloses, if_pos (hlast.1 hcloses)]
    refine Progress.recased_token ⟨rfl, h.line_eq, h.stringStart_eq, h.commentStart_eq, .nil⟩ ?_
      h.line_eq (lower_notMem_letterOperators (by simp))
    simpa using htext hw.dropLast
  · rw [if_neg hcloses, if_neg (mt hlast.2 hcloses)]
    refine Progress.related_nil
      ⟨h.mode_eq, h.line_eq, h.stringStart_eq, h.commentStart_eq, ?_⟩
    simpa using htext hw

theorem scanComment (h : s.Recased t) (hw : Text.Recased w v) :
    (s.scanComment w).Recased (t.scanComment v) := by
  rw [State.scanComment, State.scanComment, hw.apply_eq Word.closesComment_lower]
  split
  · exact ⟨rfl, h.line_eq, h.stringStart_eq, h.commentStart_eq, h.text⟩
  · exact h

theorem scanWord (h : s.Recased t) (hw : Text.Recased w v) :
    (Progress.ofStep (s.scanWord setting w)).Recased (Progress.ofStep (t.scanWord setting v)) := by
  have hmode : t.mode = s.mode := h.mode_eq.symm
  cases hs : s.mode with
  | normal =>
    rw [scanWord_of_normal hs, scanWord_of_normal (hmode.trans hs)]
    exact h.scanNormal hw
  | string =>
    rw [scanWord_of_string hs, scanWord_of_string (hmode.trans hs)]
    exact h.scanString hw
  | comment =>
    rw [scanWord_of_comment hs, scanWord_of_comment (hmode.trans hs)]
    exact Progress.related_nil (h.scanComment hw)

/-! ## Lines -/

theorem beginLine (h : s.Recased t) (n : Int) {line other : Text}
    (hline : Text.Recased line other) :
    (s.beginLine n line).1.Recased (t.beginLine n other).1 ∧
      List.Forall₂ Text.Recased (s.beginLine n line).2 (t.beginLine n other).2 := by
  have hcode := hline.before (p := Symbol.lineComment) (by decide)
  have hbegin : ({ s with line := n } : State).Recased { t with line := n } :=
    ⟨h.mode_eq, rfl, h.stringStart_eq, h.commentStart_eq, h.text⟩
  rw [State.beginLine, State.beginLine]
  generalize ({ s with line := n } : State) = s' at hbegin ⊢
  generalize ({ t with line := n } : State) = t' at hbegin ⊢
  have hmode : t'.mode = s'.mode := hbegin.mode_eq.symm
  by_cases hcomment : s'.mode = .comment
  · have hafter := hcode.after? (p := Symbol.commentClosing) (by decide)
    simp only [uncomment, hmode, hcomment, if_true]
    generalize Text.after? Symbol.commentClosing (Text.before Symbol.lineComment line) = rest,
      Text.after? Symbol.commentClosing (Text.before Symbol.lineComment other) = rest' at hafter ⊢
    cases hafter with
    | none => exact ⟨hbegin, .nil⟩
    | some hrest =>
      refine ⟨?_, (Spacing.recased_pad _ hrest).words⟩
      exact ⟨rfl, hbegin.line_eq, hbegin.stringStart_eq, hbegin.commentStart_eq, hbegin.text⟩
  · rw [uncomment_of_ne hcomment, uncomment_of_ne (hmode ▸ hcomment)]
    refine ⟨hbegin, ?_⟩
    dsimp only
    rw [wordsOf, wordsOf, hmode]
    exact (Spacing.recased_pad _ hcode).words

/-! ## Sources -/

theorem finish_eq (h : s.Recased t) : (s.finish setting).2 = (t.finish setting).2 := by
  have hstart (construct : Construct) : s.start construct = t.start construct := by
    cases construct with
    | stringLiteral => exact h.stringStart_eq
    | blockComment => exact h.commentStart_eq
  simp only [finish_snd, h.mode_eq, hstart]

end State.Recased

theorem Progress.Recased.failure?_drain {p q : Progress} (h : p.Recased q) :
    Option.Rel LexicalError.Recased (p.drain setting).failure? (q.drain setting).failure? := by
  obtain ⟨s, ts, e⟩ := p
  obtain ⟨t, us, e'⟩ := q
  obtain ⟨hstate, -, hfailure⟩ := h
  cases hfailure with
  | some he => exact .some he
  | none =>
    have hend : (State.finish setting s).2 = (State.finish setting t).2 := hstate.finish_eq
    simp only [drain, Drain.failure?, hend]
    cases (State.finish setting t).2.failure? with
    | none => exact .none
    | some e => exact .some ⟨rfl, Text.recased_refl _⟩

theorem recased_scanSource (setting : Setting) {s s' : Text} (h : Text.Recased s s') :
    (scanSource setting s).Recased (scanSource setting s') :=
  State.related_scanLines (fun _ _ n _ _ hs hline => hs.beginLine n hline)
    (fun _ _ _ _ hs hw => hs.scanWord hw) ⟨rfl, rfl, rfl, rfl, .nil⟩ 1 h.lines

/-- Sources that differ in the case of letters only have the same tokens up to case: as many, each
on the same line and of the same class, except that `or` and `and` are operators in lower case and
identifiers in any other. Either both fail, on the same line and with the same message up to case,
or neither does. -/
theorem drain_recased (setting : Setting) {s s' : Text} (h : Text.Recased s s') :
    List.Forall₂ Token.Recased (drain setting s).tokens (drain setting s').tokens ∧
      Option.Rel LexicalError.Recased (drain setting s).failure? (drain setting s').failure? := by
  have hscan := recased_scanSource setting h
  refine ⟨?_, ?_⟩
  · rw [tokens_drain_eq, tokens_drain_eq]
    exact hscan.tokens
  · rw [drain_eq_lines, drain_eq_lines]
    exact hscan.failure?_drain

/-- A reserved word, both letter operators, a literal, and a word that is rejected. -/
theorem drain_recased_operators :
    let setting : Setting := ⟨.ofFlags false true, none⟩
    let s := "BEGIN x OR y\n'It Is' And $\\Ab".toList
    let s' := "Begin X or y\n'it iS' AND $\\aB".toList
    Text.Recased s s' ∧
      List.Forall₂ Token.Recased (drain setting s).tokens (drain setting s').tokens ∧
      Option.Rel LexicalError.Recased (drain setting s).failure? (drain setting s').failure? ∧
      (drain setting s).tokens[2]? = some ⟨"OR".toList, .identifier, 1⟩ ∧
      (drain setting s').tokens[2]? = some ⟨"or".toList, .relationalOperator, 1⟩ := by
  intro setting s s'
  have hcase : Text.Recased s s' := Text.recased_iff.2 (by decide)
  obtain ⟨htokens, hfailure⟩ := drain_recased setting hcase
  exact ⟨hcase, htokens, hfailure, by decide, by decide⟩

end Recased

end Scan

end PascalTokens
