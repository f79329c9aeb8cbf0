import Mathlib.Data.List.Basic
import PascalTokens.Proofs.Scan.Line
import PascalTokens.Proofs.Spacing.Kept
import PascalTokens.Proofs.Text.Join

/-!
# Scanning undoes printing

Tokens are printed on the lines that they name, with a space between two tokens of a line, and a
literal with its quotes. If every other lexeme has the class of its token, and the text of every
literal has a space and no quote or line comment of its own, the scan finds these tokens again.

After every token the scan is between constructs and no single quote is open. A double quote may
be: one in a literal hides the symbols behind it, and they are words all the same, because the
tokens are printed apart.

## Main definitions

* `print` prints tokens, and `Printable` says which.

## Main statements

* `Token.Printable.legible`: what is printed of a token is read as this token.
* `drain_print`: scanning undoes printing.
-/

namespace PascalTokens

/-! ## Printed tokens -/

/-- The pieces, of which the last is named, are the text of a literal when spaces join them. Only
the last may be empty. -/
structure LiteralPieces (pieces : List Text) (last : Text) : Prop where
  ne_nil : pieces ≠ []
  nonempty : ∀ p ∈ pieces, p ≠ []
  solid : ∀ p ∈ pieces ++ [last], Text.Solid p
  quote : ∀ p ∈ pieces ++ [last], Symbol.stringQuote ∉ p
  comment : ∀ p ∈ pieces ++ [last], ¬ Symbol.lineComment <:+: p

namespace Token

/-- A literal is printed with its quotes. -/
def print (t : Token) : Text :=
  if t.tokenClass = .stringLiteral then Symbol.stringQuote :: t.lexeme ++ [Symbol.stringQuote]
  else t.lexeme

structure Printable (t : Token) : Prop where
  word : t.tokenClass ≠ .stringLiteral → Word.classify t.lexeme = some t.tokenClass
  literal : t.tokenClass = .stringLiteral →
    ∃ pieces last, LiteralPieces pieces last ∧ t.lexeme = Text.join [' '] (pieces ++ [last])

end Token

namespace Scan

/-- The tokens of a line, with a space between each two. -/
def printLine (ts : List Token) : Text := Text.join [' '] (ts.map Token.print)

/-- The tokens that belong to line number `n`. -/
def onLine (ts : List Token) (n : Nat) : List Token := ts.filter (·.line = n)

/-- The number of the line of the last token. -/
def lineCount (ts : List Token) : Nat := (ts.getLast?.map (·.line.toNat)).getD 0

/-- Every token on its own line, up to the line of the last one. -/
def print (ts : List Token) : Text :=
  Text.join ['\n'] ((List.range' 1 (lineCount ts)).map fun n => printLine (onLine ts n))

structure Printable (ts : List Token) : Prop where
  one_le : ∀ t ∈ ts, 1 ≤ t.line
  sorted : ts.Pairwise (·.line ≤ ·.line)
  printable : ∀ t ∈ ts, t.Printable

end Scan

open Scan

/-! ## Reading one token -/

/-- What is printed of a token is read as this token, and leaves the single quotes and the scan as
they were. -/
structure Token.Legible (t : Token) : Prop where
  newline : '\n' ∉ t.print
  comment : ¬ Symbol.lineComment <:+: t.print
  respace_eq : ∀ q : Quotes, q.inSingle = false →
    Spacing.respace q (Text.words t.print) = Text.words t.print
  inSingle_after : ∀ q : Quotes, (q.after (Text.words t.print).flatten).inSingle = q.inSingle
  scanWords_eq : ∀ (setting : Setting) (s : State), s.AtRest → s.line = t.line →
    ∃ start, s.scanWords setting (Text.words t.print) = ⟨{ s with stringStart := start }, [t], none⟩

namespace Token

variable {t : Token} {pieces : List Text} {last : Text}

theorem legible_word (hclass : t.tokenClass ≠ .stringLiteral)
    (h : Word.classify t.lexeme = some t.tokenClass) : t.Legible := by
  have hword := Word.isWord_of_classify h
  have hprint : t.print = t.lexeme := by rw [print, if_neg hclass]
  have hwords : Text.words t.print = [t.lexeme] := by rw [hprint, hword.words_eq]
  refine ⟨?_, ?_, fun q _ => ?_, fun q => ?_, fun setting s hs hline => ⟨s.stringStart, ?_⟩⟩
  · rw [hprint]
    exact hword.solid.newline_notMem
  · rw [hprint]
    exact Word.not_lineComment_infix_of_classify h
  · rw [hwords, Spacing.respace, Spacing.wordsFrom_cut_of_classify q h]
    rfl
  · rw [hwords, List.flatten_singleton]
    exact Quotes.inSingle_after (Word.stringQuote_notMem_of_classify h)
  · have hstep : s.scanWord setting t.lexeme = (s, .token t) := by
      rw [State.scanWord_of_normal hs.mode_eq, State.scanNormal, tokenClass?_eq_classify, h]
      simp [State.emit, hline]
    rw [hwords, State.scanWords_cons, hstep]
    rfl

end Token

section Literal

variable {first last : Text} {middle : List Text}

/-- The words of a printed literal, with the opening quote in the first and the closing quote in
the last. -/
def literalWords (first : Text) (middle : List Text) (last : Text) : List Text :=
  (Symbol.stringQuote :: first) :: (middle ++ [last ++ [Symbol.stringQuote]])

theorem join_literalWords (first : Text) (middle : List Text) (last : Text) :
    Text.join [' '] (literalWords first middle last) =
      Symbol.stringQuote :: Text.join [' '] (first :: (middle ++ [last])) ++
        [Symbol.stringQuote] := by
  rw [literalWords, Text.join_cons_cons_left, ← List.cons_append, Text.join_concat_append]
  rfl

/-- A literal that is open collects words and ends with the one that has the closing quote. -/
theorem scanWords_inside (setting : Setting) (last : Text) {s : State} (hs : s.mode = .string)
    (hmiddle : ∀ w ∈ middle, Symbol.stringQuote ∉ w) :
    s.scanWords setting (middle ++ [last ++ [Symbol.stringQuote]]) =
      ⟨{ s with mode := .normal, buffer := .empty },
        [⟨s.buffer.text ++ ' ' :: Text.join [' '] (middle ++ [last]), .stringLiteral, s.line⟩],
        none⟩ := by
  induction middle generalizing s with
  | nil =>
    have hstep : s.scanWord setting (last ++ [Symbol.stringQuote]) =
        ({ s with mode := .normal, buffer := .empty },
          .token ⟨s.buffer.text ++ ' ' :: last, .stringLiteral, s.line⟩) := by
      rw [State.scanWord_of_string hs]
      simp [State.scanString, State.emit]
    rw [List.nil_append, List.nil_append, State.scanWords_cons, hstep, Text.join_singleton]
    rfl
  | cons w middle ih =>
    obtain ⟨hw, hmiddle⟩ := List.forall_mem_cons.1 hmiddle
    have hlast : w.getLast? ≠ some Symbol.stringQuote := by
      intro h
      exact hw (List.mem_of_getLast? h)
    have hstep : s.scanWord setting w =
        ({ s with buffer := (s.buffer.append [' ']).append w }, .nothing) := by
      rw [State.scanWord_of_string hs, State.scanString, if_neg hlast]
    have hrest := ih (s := { s with buffer := (s.buffer.append [' ']).append w }) hs hmiddle
    rw [List.cons_append, State.scanWords_cons, hstep, Progress.ofStep, Progress.andThen_ok,
      Progress.prepend_nil, hrest]
    simp [Text.join_cons_of_ne_nil]

namespace LiteralPieces

variable (h : LiteralPieces (first :: middle) last)

include h

theorem isWord_literalWords : ∀ w ∈ literalWords first middle last, Text.IsWord w := by
  have hquote : Text.isBlank Symbol.stringQuote = false := by decide
  have hfirst : Text.Solid first := h.solid first (by simp)
  have hlast : Text.Solid last := h.solid last (by simp)
  intro w hw
  simp only [literalWords, List.mem_cons, List.mem_append, List.not_mem_nil, or_false] at hw
  rcases hw with rfl | hw | rfl
  · exact ⟨by simp, by simp [hquote, hfirst]⟩
  · exact ⟨h.nonempty w (by simp [hw]), h.solid w (by simp [hw])⟩
  · exact ⟨by simp, by simp [hquote, hlast]⟩

theorem not_infix_literalWords :
    ∀ w ∈ literalWords first middle last, ¬ Symbol.lineComment <:+: w := by
  have hsplit (a b : Text) : Symbol.lineComment <:+: a ++ Symbol.stringQuote :: b ↔
      Symbol.lineComment <:+: a ∨ Symbol.lineComment <:+: b :=
    Text.infix_append_cons (by decide) (by decide)
  have hnil : ¬ Symbol.lineComment <:+: [] := by decide
  intro w hw
  simp only [literalWords, List.mem_cons, List.mem_append, List.not_mem_nil, or_false] at hw
  rcases hw with rfl | hw | rfl
  · have hfirst := h.comment first (by simp)
    intro hinfix
    exact ((hsplit [] first).1 hinfix).elim hnil hfirst
  · exact h.comment w (by simp [hw])
  · have hlast := h.comment last (by simp)
    intro hinfix
    exact ((hsplit last []).1 hinfix).elim hlast hnil

theorem respace_literalWords {q : Quotes} (hq : q.inSingle = false) :
    Spacing.respace q (literalWords first middle last) = literalWords first middle last := by
  have hmiddle : ∀ w ∈ middle, Text.IsWord w := by
    intro w hw
    exact ⟨h.nonempty w (by simp [hw]), h.solid w (by simp [hw])⟩
  exact Spacing.respace_literal hq (h.solid first (by simp)) hmiddle (h.solid last (by simp)) h.quote

theorem inSingle_after_literalWords (q : Quotes) :
    (q.after (literalWords first middle last).flatten).inSingle = q.inSingle := by
  have hquote : Symbol.stringQuote ∉ (first :: (middle ++ [last])).flatten := by
    intro hm
    obtain ⟨w, hw, hc⟩ := List.mem_flatten.1 hm
    exact h.quote w hw hc
  have hflatten : (literalWords first middle last).flatten =
      Symbol.stringQuote :: (first :: (middle ++ [last])).flatten ++ [Symbol.stringQuote] := by
    simp [literalWords]
  rw [hflatten, Quotes.inSingle_after_literal hquote]

/-- The first piece opens the literal, also when it would have a class without its quote. -/
theorem scanNormal_first (setting : Setting) (s : State) :
    s.scanNormal setting (Symbol.stringQuote :: first) = (s.openString first, .nothing) := by
  have hclass : Word.classify (Symbol.stringQuote :: first) = none := by
    refine Option.eq_none_iff_forall_ne_some.2 ?_
    intro tokenClass hclass
    exact Word.stringQuote_notMem_of_classify hclass (by simp)
  have hlast : (Symbol.stringQuote :: first).getLast? ≠ some Symbol.stringQuote := by
    rw [List.getLast?_cons_of_ne_nil (h.nonempty first (by simp))]
    intro hl
    exact h.quote first (by simp) (List.mem_of_getLast? hl)
  have hseed : Word.stringSeed? (Symbol.stringQuote :: first) = some first := by
    simp [Word.stringSeed?, Word.opensString, hlast]
  rw [State.scanNormal, tokenClass?_eq_classify, hclass, hseed]

theorem scanWords_literalWords (setting : Setting) {s : State} (hs : s.AtRest) :
    s.scanWords setting (literalWords first middle last) =
      ⟨{ s with stringStart := s.line },
        [⟨Text.join [' '] (first :: (middle ++ [last])), .stringLiteral, s.line⟩], none⟩ := by
  have hmiddle : ∀ w ∈ middle, Symbol.stringQuote ∉ w := by
    intro w hw
    exact h.quote w (by simp [hw])
  have hinside := scanWords_inside setting last (s := s.openString first) rfl hmiddle
  rw [literalWords, State.scanWords_cons, State.scanWord_of_normal hs.mode_eq,
    h.scanNormal_first setting s, Progress.ofStep, Progress.andThen_ok, Progress.prepend_nil, hinside]
  simp [State.openString, hs.mode_eq, hs.buffer_eq, Text.join_cons_of_ne_nil]

end LiteralPieces

theorem Token.legible_literal {t : Token} (hclass : t.tokenClass = .stringLiteral)
    (h : LiteralPieces (first :: middle) last)
    (hlexeme : t.lexeme = Text.join [' '] (first :: (middle ++ [last]))) : t.Legible := by
  have hprint : t.print = Text.join [' '] (literalWords first middle last) := by
    rw [print, if_pos hclass, join_literalWords, hlexeme]
  have hword := h.isWord_literalWords
  have hwords : Text.words t.print = literalWords first middle last := by
    rw [hprint, Text.words_join_of_isWord hword]
  refine ⟨?_, ?_, fun q hq => ?_, fun q => ?_, fun setting s hs hline => ⟨s.line, ?_⟩⟩
  · rw [hprint]
    exact Text.notMem_join (by decide) fun w hw => (hword w hw).solid.newline_notMem
  · rw [hprint]
    exact Text.not_infix_join (by decide) (by decide) h.not_infix_literalWords
  · rw [hwords, h.respace_literalWords hq]
  · rw [hwords, h.inSingle_after_literalWords]
  · rw [hwords, h.scanWords_literalWords setting hs, ← hlexeme, ← hclass, hline]

end Literal

theorem Token.Printable.legible {t : Token} (h : t.Printable) : t.Legible := by
  by_cases hclass : t.tokenClass = .stringLiteral
  · obtain ⟨pieces, last, hpieces, hlexeme⟩ := h.literal hclass
    obtain ⟨first, middle, rfl⟩ := List.exists_cons_of_ne_nil hpieces.ne_nil
    exact legible_literal hclass hpieces hlexeme
  · exact legible_word hclass (h.word hclass)

namespace Scan

/-! ## Reading lines -/

section Lines

variable {ts : List Token} (hlegible : ∀ t ∈ ts, t.Legible)

include hlegible

theorem newline_notMem_printLine : '\n' ∉ printLine ts := by
  refine Text.notMem_join (by decide) ?_
  intro w hw
  obtain ⟨t, ht, rfl⟩ := List.mem_map.1 hw
  exact (hlegible t ht).newline

theorem lineWords_printLine :
    lineWords (printLine ts) = ts.flatMap fun t => Text.words t.print := by
  have hcomment : ¬ Symbol.lineComment <:+: printLine ts := by
    refine Text.not_infix_join (by decide) (by decide) ?_
    intro w hw
    obtain ⟨t, ht, rfl⟩ := List.mem_map.1 hw
    exact (hlegible t ht).comment
  rw [lineWords, Text.before_eq_self hcomment, printLine, Text.words_join, List.flatMap_map]

theorem respace_print {q : Quotes} (hq : q.inSingle = false) :
    Spacing.respace q (ts.flatMap fun t => Text.words t.print) =
      ts.flatMap fun t => Text.words t.print := by
  -- Only the single quotes are known to be closed: a literal may have opened a double quote.
  induction ts generalizing q with
  | nil => rfl
  | cons t ts ih =>
    obtain ⟨ht, hlegible⟩ := List.forall_mem_cons.1 hlegible
    have hafter := (ht.inSingle_after q).trans hq
    rw [List.flatMap_cons, Spacing.respace_append, ht.respace_eq q hq, ih hlegible hafter]

theorem scanWords_print (setting : Setting) {s : State} (hs : s.AtRest)
    (hline : ∀ t ∈ ts, t.line = s.line) :
    ∃ start, s.scanWords setting (ts.flatMap fun t => Text.words t.print) =
      ⟨{ s with stringStart := start }, ts, none⟩ := by
  induction ts generalizing s with
  | nil => exact ⟨s.stringStart, rfl⟩
  | cons t ts ih =>
    obtain ⟨ht, hlegible⟩ := List.forall_mem_cons.1 hlegible
    obtain ⟨htline, hline⟩ := List.forall_mem_cons.1 hline
    obtain ⟨start, hfirst⟩ := ht.scanWords_eq setting s hs htline.symm
    obtain ⟨stop, hrest⟩ := ih hlegible (s := { s with stringStart := start })
      ⟨hs.mode_eq, hs.buffer_eq⟩ hline
    refine ⟨stop, ?_⟩
    rw [List.flatMap_cons, State.scanWords_append, hfirst, Progress.andThen_ok, hrest]
    rfl

/-- A printed line is read as the tokens that it was printed from. -/
theorem scanLine_print (setting : Setting) {s : State} (hs : s.AtRest) (n : Int)
    (hline : ∀ t ∈ ts, t.line = n) :
    ∃ r : State, r.AtRest ∧
      (s.beginLine n (printLine ts)).1.scanWords setting (s.beginLine n (printLine ts)).2 =
        ⟨r, ts, none⟩ := by
  have hnormal : s.mode ≠ .comment ∧ s.mode ≠ .string := by simp [hs.mode_eq]
  have hbegin : s.beginLine n (printLine ts) =
      ({ s with line := n }, ts.flatMap fun t => Text.words t.print) := by
    have hrespace := respace_print hlegible (q := Quotes.atStart false) rfl
    rw [State.beginLine_eq_beginWords, lineWords_printLine hlegible]
    simp [State.beginWords, hnormal, hrespace]
  obtain ⟨start, hscan⟩ := scanWords_print hlegible setting (s := { s with line := n })
    ⟨hs.mode_eq, hs.buffer_eq⟩ hline
  rw [hbegin]
  refine ⟨_, ?_, hscan⟩
  exact ⟨hs.mode_eq, hs.buffer_eq⟩

theorem scanLines_print (setting : Setting) {s : State} (hs : s.AtRest) (n k : Nat) :
    ∃ r : State, r.AtRest ∧
      s.scanLines setting n ((List.range' n k).map fun n => printLine (onLine ts n)) =
        ⟨r, (List.range' n k).flatMap (onLine ts), none⟩ := by
  induction k generalizing s n with
  | zero => exact ⟨s, hs, rfl⟩
  | succ k ih =>
    have hon : ∀ t ∈ onLine ts n, t.Legible := by
      intro t ht
      exact hlegible t (List.mem_filter.1 ht).1
    have hline : ∀ t ∈ onLine ts n, t.line = n := by
      intro t ht
      simpa using (List.mem_filter.1 ht).2
    obtain ⟨u, hu, hfirst⟩ := scanLine_print hon setting hs n hline
    obtain ⟨r, hr, hrest⟩ := ih hu (n + 1)
    refine ⟨r, hr, ?_⟩
    rw [List.range'_succ, List.map_cons, State.scanLines_cons, hfirst, Progress.andThen_ok]
    rw [Int.natCast_succ] at hrest
    rw [hrest]
    rfl

end Lines

/-! ## The tokens of all lines -/

/-- The tokens that belong to lines after line number `n`. -/
def afterLine (ts : List Token) (n : Nat) : List Token := ts.filter fun t => (n : Int) < t.line

theorem onLine_append_afterLine {ts : List Token} {n : Nat}
    (hsorted : ts.Pairwise (·.line ≤ ·.line)) (hle : ∀ t ∈ ts, (n : Int) ≤ t.line) :
    onLine ts n ++ afterLine ts n = ts := by
  induction ts with
  | nil => rfl
  | cons t ts ih =>
    obtain ⟨hmin, hsorted⟩ := List.pairwise_cons.1 hsorted
    obtain ⟨ht, hle⟩ := List.forall_mem_cons.1 hle
    by_cases heq : t.line = n
    · simpa [onLine, afterLine, heq] using ih hsorted hle
    · have hlt : ∀ u ∈ t :: ts, (n : Int) < u.line := by
        intro u hu
        rcases List.mem_cons.1 hu with rfl | hu
        · omega
        · have := hmin u hu
          omega
      have hon : onLine (t :: ts) n = [] := by
        refine List.filter_eq_nil_iff.2 fun u hu => ?_
        have := hlt u hu
        simp only [decide_eq_true_eq]
        omega
      rw [hon, List.nil_append]
      exact List.filter_eq_self.2 fun u hu => by simpa using hlt u hu

theorem onLine_afterLine {ts : List Token} {n m : Nat} (h : n < m) :
    onLine (afterLine ts n) m = onLine ts m := by
  rw [onLine, afterLine, List.filter_filter]
  refine List.filter_congr fun t _ => ?_
  by_cases heq : t.line = m
  · simp [heq, h]
  · simp [heq]

/-- Tokens in the order of their lines are found again line by line. -/
theorem flatMap_onLine {ts : List Token} {n k : Nat} (hsorted : ts.Pairwise (·.line ≤ ·.line))
    (hle : ∀ t ∈ ts, (n : Int) ≤ t.line) (hlt : ∀ t ∈ ts, t.line < n + k) :
    (List.range' n k).flatMap (onLine ts) = ts := by
  induction k generalizing n ts with
  | zero =>
    refine (List.eq_nil_iff_forall_not_mem.2 fun t ht => ?_).symm
    have := hle t ht
    have := hlt t ht
    omega
  | succ k ih =>
    have hmem : ∀ t ∈ afterLine ts n, t ∈ ts ∧ (n : Int) < t.line := by
      intro t ht
      simpa [afterLine] using ht
    have hrest : (List.range' (n + 1) k).flatMap (onLine (afterLine ts n)) = afterLine ts n := by
      refine ih (hsorted.filter _) (fun t ht => ?_) fun t ht => ?_
      · have := (hmem t ht).2
        omega
      · have := hlt t (hmem t ht).1
        omega
    have hcongr : (List.range' (n + 1) k).flatMap (onLine (afterLine ts n)) =
        (List.range' (n + 1) k).flatMap (onLine ts) := by
      refine List.flatMap_congr fun m hm => onLine_afterLine ?_
      have := List.mem_range'_1.1 hm
      omega
    rw [List.range'_succ, List.flatMap_cons, ← hcongr, hrest, onLine_append_afterLine hsorted hle]

/-- No token belongs to a line after that of the last token. -/
theorem Printable.line_le_lineCount {ts : List Token} (h : Printable ts) :
    ∀ t ∈ ts, t.line < (1 : Nat) + lineCount ts := by
  intro t ht
  obtain ⟨init, last, rfl⟩ := (List.eq_nil_or_concat' ts).resolve_left (List.ne_nil_of_mem ht)
  have hle : t.line ≤ last.line := by
    rcases List.mem_append.1 ht with ht | ht
    · exact (List.pairwise_append.1 h.sorted).2.2 t ht last (by simp)
    · simp at ht
      simp [ht]
  have hcount : lineCount (init ++ [last]) = last.line.toNat := by simp [lineCount]
  have := h.one_le last (by simp)
  omega

/-- Scanning undoes printing, whatever the options are. -/
theorem drain_print (setting : Setting) (ts : List Token) (h : Printable ts) :
    drain setting (print ts) = ⟨ts, .clean⟩ := by
  have hlegible : ∀ t ∈ ts, t.Legible := by
    intro t ht
    exact (h.printable t ht).legible
  rcases Nat.eq_zero_or_pos (lineCount ts) with hzero | hpos
  · have hnil : ts = [] := by
      refine List.eq_nil_iff_forall_not_mem.2 ?_
      intro t ht
      have := h.one_le t ht
      have := h.line_le_lineCount t ht
      omega
    rw [hnil]
    rfl
  · have hlines : Text.lines (print ts) =
        (List.range' 1 (lineCount ts)).map fun n => printLine (onLine ts n) := by
      have hne : List.range' 1 (lineCount ts) ≠ [] := by
        simp
        omega
      refine Text.lines_join (by simpa using hne) ?_
      intro line hline
      obtain ⟨n, -, rfl⟩ := List.mem_map.1 hline
      exact newline_notMem_printLine fun t ht => hlegible t (List.mem_filter.1 ht).1
    obtain ⟨r, hr, hscan⟩ :=
      scanLines_print hlegible setting (s := State.initial) ⟨rfl, rfl⟩ 1 (lineCount ts)
    rw [flatMap_onLine h.sorted h.one_le h.line_le_lineCount] at hscan
    rw [drain_eq_lines, hlines]
    rw [Int.natCast_one] at hscan
    rw [hscan]
    simp [Progress.drain, State.finish_snd, hr.mode_eq, Mode.construct?]

/-- An empty line, and a literal with a double quote, symbols and a blank at its end. -/
theorem drain_print_doubleQuote :
    let ts : List Token := [⟨"x".toList, .identifier, 1⟩,
      ⟨"\x22a;b /* ".toList, .stringLiteral, 3⟩, ⟨"<=".toList, .relationalOperator, 3⟩]
    Printable ts ∧ print ts = "x\n\n'\x22a;b /* ' <=".toList ∧
      drain {} (print ts) = ⟨ts, .clean⟩ := by
  intro ts
  have hpieces : LiteralPieces ["\x22a;b".toList, "/*".toList] [] :=
    ⟨by decide, by decide, by simp; decide, by decide, by decide⟩
  have hprintable : Printable ts := by
    refine ⟨by decide, by decide, List.forall_mem_cons.2 ⟨?_, List.forall_mem_cons.2 ⟨?_, ?_⟩⟩⟩
    · exact ⟨fun _ => by decide, nofun⟩
    · exact ⟨fun h => absurd rfl h, fun _ => ⟨_, _, hpieces, by decide⟩⟩
    · exact List.forall_mem_singleton.2 ⟨fun _ => by decide, nofun⟩
  exact ⟨hprintable, by decide, drain_print {} ts hprintable⟩

end Scan

end PascalTokens
