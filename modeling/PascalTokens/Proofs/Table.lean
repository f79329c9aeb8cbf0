import Mathlib.Order.Bounds.Defs
import PascalTokens.Proofs.Except
import PascalTokens.Proofs.Scan.Shape
import PascalTokens.Proofs.Text.Decimal
import PascalTokens.Proofs.Text.SplitLines
import PascalTokens.Table

/-!
# Tables read back

The rule of dashes in a table says how wide its columns are. Cut at these widths, a row gives back
the cells it was made of. This needs lexemes that stay on their line, which those of an analysis do:
no blank comes into a lexeme but the space. A space at the end of a lexeme looks like padding, and
is the only thing that is lost.

## Main definitions

* `Table.Widths.Least` says that columns are as narrow as their cells allow.
* `Table.Row.ofText` cuts a row at the widths of its columns.
* `Table.Shows` says that a text is a table of some tokens, from which they can be read.

## Main statements

* `Table.least_widths`: the columns of a table.
* `Table.Row.ofText_padded`: a row cut into its cells.
* `Table.exists_render_ofAnalysis`: whatever is analysed, its report can be set as a table.
* `Table.render_analyze`: the table of an analysis.
-/

namespace PascalTokens

/-! ## Numbers -/

namespace Text

theorem AllDigits.solid {t : Text} (h : AllDigits t) : Solid t := by
  intro c hc
  exact Word.isBlank_of_isAlphanum (by simp [Char.isAlphanum, h c hc])

theorem isWord_ofInt {n : Int} (h : 0 ≤ n) : IsWord (ofInt n) := by
  obtain ⟨n, rfl⟩ := Int.eq_ofNat_of_zero_le h
  exact ⟨Nat.toDigits_ne_nil, (allDigits_ofNat n).solid⟩

/-- The digits of a number that is not negative read as the number. -/
theorem ofDigitChars_ofInt {n : Int} (h : 0 ≤ n) : (Nat.ofDigitChars 10 (ofInt n) 0 : Int) = n := by
  obtain ⟨n, rfl⟩ := Int.eq_ofNat_of_zero_le h
  exact congrArg Int.ofNat Nat.ofDigitChars_ten_toDigits

end Text

namespace Double

theorem flat_fixed (places : Nat) (x : Double) : Text.Flat (x.fixed places) := by
  have hsigned : ∀ negative t, Text.Flat t → Text.Flat (signed negative t) := by
    intro negative t ht
    unfold signed
    split
    · exact Text.flat_cons.2 ⟨by decide, ht⟩
    · exact ht
  cases x with
  | nan => exact (by decide : Text.Flat "nan".toList)
  | infinite negative => exact hsigned negative _ (by decide)
  | finite negative rank =>
    refine hsigned negative _ (Text.flat_append.2 ⟨?_, Text.flat_cons.2 ⟨by decide, ?_⟩⟩)
    · exact (Text.allDigits_ofNat _).solid.flat
    · refine Text.flat_append.2 ⟨?_, (Text.allDigits_ofNat _).solid.flat⟩
      exact (Text.allDigits_zeros _).solid.flat

end Double

namespace Table

variable {w : Widths} {r : Row} {t : Token} {tokens : List Token} {elapsed : Double}

/-! ## Columns -/

/-- The least widths that hold all cells of some rows. -/
structure Widths.Least (w : Widths) (rows : List Row) : Prop where
  lexeme : IsLeast {n | ∀ r ∈ rows, r.lexeme.length ≤ n} w.lexeme
  label : IsLeast {n | ∀ r ∈ rows, r.label.length ≤ n} w.label
  line : IsLeast {n | ∀ r ∈ rows, r.line.length ≤ n} w.line

/-- A column: which cells stand in it, and how wide it is. -/
structure Column where
  cell : Row → Text
  width : Widths → Nat
  width_cover : ∀ w r, width (w.cover r) = max (width w) (cell r).length

namespace Column

variable (column : Column)

/-- Rows that are covered make a column no wider than their cells. -/
theorem foldl_cover_le_iff (rows : List Row) (w : Widths) (n : Nat) :
    column.width (rows.foldl Widths.cover w) ≤ n ↔
      column.width w ≤ n ∧ ∀ r ∈ rows, (column.cell r).length ≤ n := by
  induction rows generalizing w with
  | nil => simp
  | cons r rows ih =>
    rw [List.foldl_cons, ih, column.width_cover, List.forall_mem_cons, Nat.max_le, and_assoc]

theorem isLeast_widths (h : column.width ⟨0, 0, 0⟩ = 0) (rows : List Row) :
    IsLeast {n | ∀ r ∈ Row.headers :: rows, (column.cell r).length ≤ n}
      (column.width (widths rows)) := by
  have hle (n : Nat) : column.width (widths rows) ≤ n ↔
      ∀ r ∈ Row.headers :: rows, (column.cell r).length ≤ n := by
    rw [widths, foldl_cover_le_iff, column.width_cover, h, List.forall_mem_cons, Nat.max_le]
    simp
  exact ⟨(hle _).1 le_rfl, fun n hn => (hle n).2 hn⟩

end Column

/-- The columns of a table are as narrow as its cells and the headers allow. -/
theorem least_widths (rows : List Row) : (widths rows).Least (Row.headers :: rows) where
  lexeme := Column.isLeast_widths ⟨Row.lexeme, Widths.lexeme, fun _ _ => rfl⟩ rfl rows
  label := Column.isLeast_widths ⟨Row.label, Widths.label, fun _ _ => rfl⟩ rfl rows
  line := Column.isLeast_widths ⟨Row.line, Widths.line, fun _ _ => rfl⟩ rfl rows

/-! ## Rows -/

namespace Row

def ofToken (t : Token) : Row := ⟨t.lexeme, t.tokenClass.label, Text.ofInt t.line⟩

/-- The first two cells padded to their columns, and the last one as it is. -/
def padded (w : Widths) (r : Row) : Text :=
  Text.padEnd w.lexeme r.lexeme ++ "  ".toList ++ Text.padEnd w.label r.label ++ "  ".toList ++
    r.line

/-- The cells of a row whose columns have these widths, without the spaces at their ends. -/
def ofText (w : Widths) (line : Text) : Row :=
  ⟨Text.trimSpaces (line.take w.lexeme),
    Text.trimSpaces ((line.drop (w.lexeme + 2)).take w.label),
    Text.trimSpaces (line.drop (w.lexeme + 2 + w.label + 2))⟩

/-- A row stays on its line, and its last cell does not look like padding. -/
structure Flat (r : Row) : Prop where
  lexeme : Text.Flat r.lexeme
  label : Text.Flat r.label
  line : Text.IsWord r.line

theorem text_eq_padded (w : Widths) (h : Text.IsWord r.line) : r.text w = r.padded w := by
  have hjoin (a b c : Text) : Text.join [' ', ' '] [a, b, c] =
      a ++ "  ".toList ++ b ++ "  ".toList ++ c := by
    simp [Text.join, List.intercalate]
  have hline : Text.padEnd w.line r.line =
      r.line ++ List.replicate (w.line - r.line.length) ' ' := Text.padEnd_eq _ _
  rw [text, Text.trimEnd, hjoin, hline, ← List.append_assoc, Text.dropEndWhile_append_of_forall]
  · exact (h.trimmed_append _).dropEndWhile_eq fun _ hc => hc
  · intro c hc
    rw [List.eq_of_mem_replicate hc]
    decide

theorem Flat.padded (h : r.Flat) (w : Widths) : Text.Flat (r.padded w) := by
  have hgap : Text.Flat "  ".toList := by decide
  simp only [Row.padded, Text.flat_append]
  exact ⟨⟨⟨⟨h.lexeme.padEnd _, hgap⟩, h.label.padEnd _⟩, hgap⟩, h.line.solid.flat⟩

/-- Cutting a row that fits its columns gives back its cells. -/
theorem ofText_padded (hlexeme : r.lexeme.length ≤ w.lexeme) (hlabel : r.label.length ≤ w.label) :
    ofText w (r.padded w) =
      ⟨Text.trimSpaces r.lexeme, Text.trimSpaces r.label, Text.trimSpaces r.line⟩ := by
  have hfirst := Text.length_padEnd hlexeme
  have hsecond := Text.length_padEnd hlabel
  have hparts : r.padded w = (Text.padEnd w.lexeme r.lexeme ++ "  ".toList) ++
      ((Text.padEnd w.label r.label ++ "  ".toList) ++ r.line) := by
    simp only [padded, List.append_assoc]
  have hdrop : (r.padded w).drop (w.lexeme + 2) =
      (Text.padEnd w.label r.label ++ "  ".toList) ++ r.line := by
    rw [hparts]
    exact List.drop_left' (by simp [hfirst])
  have hlast : (r.padded w).drop (w.lexeme + 2 + w.label + 2) = r.line := by
    rw [Nat.add_assoc _ w.label, ← List.drop_drop, hdrop]
    exact List.drop_left' (by simp [hsecond])
  rw [ofText, hlast, hdrop, hparts, List.append_assoc, List.take_left' hfirst, List.append_assoc,
    List.take_left' hsecond, Text.trimSpaces_padEnd, Text.trimSpaces_padEnd]

end Row

/-! ## Tokens -/

theorem flat_lexeme (h : Scan.Shaped t) : Text.Flat t.lexeme := fun _ hc hblank =>
  (h.eq_of_isBlank hc hblank).2

theorem flat_label (c : TokenClass) : Text.Flat c.label := by
  cases c <;> decide

theorem trimSpaces_label (c : TokenClass) : Text.trimSpaces c.label = c.label := by
  cases c <;> decide

/-- No more than one space stands at the end of a lexeme: a literal may have an empty last piece,
and the pieces before it are words. -/
theorem trimSpaces_lexeme (h : Scan.Shaped t) :
    Text.trimSpaces t.lexeme = Text.dropFinal ' ' t.lexeme := by
  cases h with
  | @word w tokenClass line hclass =>
    exact (Word.isWord_of_classify hclass).trimmed.trimSpaces_eq_dropFinal (.inl rfl)
  | @literal pieces last line hpieces hlast =>
    dsimp only
    rw [Text.join_concat ' ' hpieces.ne_nil]
    by_cases hnil : last = []
    · have hwords : ∀ p ∈ pieces, Text.IsWord p := fun p hp => (hpieces.word p hp).toIsWord
      rw [hnil]
      exact (Text.trimmed_join hpieces.ne_nil hwords).trimSpaces_eq_dropFinal (.inr rfl)
    · have hword : Text.IsWord last := ⟨hnil, hlast⟩
      rw [List.append_cons]
      exact (hword.trimmed_append _).trimSpaces_eq_dropFinal (.inl rfl)

theorem flat_ofToken (h : Scan.Shaped t) (hline : 0 ≤ t.line) : (Row.ofToken t).Flat :=
  ⟨flat_lexeme h, flat_label t.tokenClass, Text.isWord_ofInt hline⟩

/-- The cells of the row of a token that fits its columns. -/
theorem ofText_ofToken (h : Scan.Shaped t) (hline : 0 ≤ t.line)
    (hlexeme : t.lexeme.length ≤ w.lexeme) (hlabel : t.tokenClass.label.length ≤ w.label) :
    Row.ofText w ((Row.ofToken t).padded w) =
      ⟨Text.dropFinal ' ' t.lexeme, t.tokenClass.label, Text.ofInt t.line⟩ := by
  rw [Row.ofText_padded hlexeme hlabel]
  dsimp only [Row.ofToken]
  rw [trimSpaces_lexeme h, trimSpaces_label, (Text.isWord_ofInt hline).trimmed.trimSpaces_eq]

/-! ## Whole tables -/

/-- The text is a table of these tokens, with columns of these widths, and the tokens can be read
from it. -/
structure Shows (w : Widths) (tokens : List Token) (text : Text) : Prop where
  ended : text.getLast? = some '\n'
  count : (Text.splitLines text).length = tokens.length + 3
  trimmed : ∀ line ∈ Text.splitLines text, Text.Trimmed line
  dashes : (Text.splitLines text)[1]? = some (List.replicate w.lexeme '-' ++ "  ".toList ++
    List.replicate w.label '-' ++ "  ".toList ++ List.replicate w.line '-')
  least : w.Least (Row.headers :: tokens.map Row.ofToken)
  row : ∀ i t, tokens[i]? = some t → (Text.splitLines text)[i + 2]? =
    some (Text.padEnd w.lexeme t.lexeme ++ "  ".toList ++
      Text.padEnd w.label t.tokenClass.label ++ "  ".toList ++ Text.ofInt t.line)
  cells : ∀ i t line, tokens[i]? = some t → (Text.splitLines text)[i + 2]? = some line →
    Row.ofText w line =
        ⟨Text.dropFinal ' ' t.lexeme, t.tokenClass.label, Text.ofInt t.line⟩ ∧
      (Nat.ofDigitChars 10 (Row.ofText w line).line 0 : Int) = t.line

/-- The last line of a table. -/
def footer (elapsed : Double) : Text := "Elapsed Time: ".toList ++ elapsed.fixed 3 ++ " ms".toList

theorem flat_footer (elapsed : Double) : Text.Flat (footer elapsed) :=
  Text.flat_append.2 ⟨Text.flat_append.2 ⟨by decide, elapsed.flat_fixed 3⟩, by decide⟩

theorem trimmed_footer (elapsed : Double) : Text.Trimmed (footer elapsed) := by
  have hword : Text.IsWord "ms".toList := ⟨by decide, by decide⟩
  have hsplit : footer elapsed =
      ("Elapsed Time: ".toList ++ elapsed.fixed 3 ++ [' ']) ++ "ms".toList :=
    (List.append_assoc _ [' '] "ms".toList).symm
  rw [hsplit]
  exact hword.trimmed_append _

theorem rows_ofToken (tokens : List Token) :
    rows (tokens.map Entry.ofToken) = .ok (tokens.map Row.ofToken) := by
  have hlength : (tokens.map Entry.ofToken).all (fun e => hasLength e.lexeme) := by
    simp [Entry.ofToken, hasLength]
  rw [rows, if_pos hlength, mapM_eq_ok, List.forall₂_map_left_iff, List.forall₂_map_right_iff,
    List.forall₂_same]
  exact fun _ _ => rfl

theorem render_success (tokens : List Token) (elapsed : Double) :
    render (.ofAnalysis (.success tokens elapsed)) =
      .ok (ended (body (tokens.map Row.ofToken) ++ [footer elapsed])) := by
  rw [Report.ofAnalysis, render, rows_ofToken]
  rfl

/-- Whatever is analysed, its report can be set as a table. -/
theorem exists_render_ofAnalysis (a : Analysis) : ∃ t, render (.ofAnalysis a) = .ok t := by
  cases a with
  | failure e elapsed => exact ⟨_, rfl⟩
  | success tokens elapsed => exact ⟨_, render_success tokens elapsed⟩

theorem flat_headers : Row.headers.Flat :=
  ⟨by decide, by decide, by decide, by decide⟩

theorem flat_dashes (h : 0 < w.line) : (Row.dashes w).Flat := by
  have hsolid (n : Nat) : Text.Solid (List.replicate n '-') := by
    intro c hc
    rw [List.eq_of_mem_replicate hc]
    decide
  refine ⟨(hsolid _).flat, (hsolid _).flat, ?_, hsolid _⟩
  simpa [Row.dashes] using h.ne'

/-- No row of a table is cut short at its end, or broken. -/
theorem flat_of_mem {rows : List Row} (h : ∀ r ∈ rows, r.Flat) :
    ∀ r ∈ Row.headers :: Row.dashes (widths rows) :: rows, r.Flat := by
  have hline : 4 ≤ (widths rows).line := (least_widths rows).line.1 _ List.mem_cons_self
  rw [List.forall_mem_cons, List.forall_mem_cons]
  exact ⟨flat_headers, flat_dashes (by omega), h⟩

/-- The rows and the footer of a table with columns of these widths. -/
def tableLines (w : Widths) (rows : List Row) (elapsed : Double) : List Text :=
  (Row.headers :: Row.dashes w :: rows).map (Row.padded w) ++ [footer elapsed]

section Lines

variable {rows : List Row} (h : ∀ r ∈ rows, r.Flat)

theorem getElem?_tableLines {i : Nat} (ht : tokens[i]? = some t) :
    (tableLines w (tokens.map Row.ofToken) elapsed)[i + 2]? =
      some ((Row.ofToken t).padded w) := by
  obtain ⟨hlt, rfl⟩ := List.getElem?_eq_some_iff.1 ht
  simp only [tableLines, List.map_cons, List.cons_append, List.getElem?_cons_succ]
  rw [List.getElem?_append_left (by simpa using hlt)]
  simp [hlt]

theorem padded_dashes (w : Widths) : (Row.dashes w).padded w =
    List.replicate w.lexeme '-' ++ "  ".toList ++ List.replicate w.label '-' ++ "  ".toList ++
      List.replicate w.line '-' := by
  simp only [Row.padded, Row.dashes]
  rw [Text.padEnd_eq_self (by simp), Text.padEnd_eq_self (by simp)]

include h

/-- The lines of a table are its rows and the footer. -/
theorem splitLines_ended_body (elapsed : Double) :
    Text.splitLines (ended (body rows ++ [footer elapsed])) =
      tableLines (widths rows) rows elapsed := by
  have hflat := flat_of_mem h
  have hbody : body rows =
      (Row.headers :: Row.dashes (widths rows) :: rows).map (Row.padded (widths rows)) :=
    List.map_congr_left fun r hr => Row.text_eq_padded _ (hflat r hr).line
  rw [ended, hbody]
  refine Text.splitLines_flatMap fun line hline => ?_
  rcases List.mem_append.1 hline with hline | hline
  · obtain ⟨r, hr, rfl⟩ := List.mem_map.1 hline
    exact (hflat r hr).padded _
  · rw [List.mem_singleton.1 hline]
    exact flat_footer elapsed

theorem trimmed_of_mem (elapsed : Double) :
    ∀ line ∈ tableLines (widths rows) rows elapsed, Text.Trimmed line := by
  intro line hline
  rcases List.mem_append.1 hline with hline | hline
  · obtain ⟨r, hr, rfl⟩ := List.mem_map.1 hline
    exact (flat_of_mem h r hr).line.trimmed_append _
  · rw [List.mem_singleton.1 hline]
    exact trimmed_footer elapsed

end Lines

theorem shows_body (h : ∀ t ∈ tokens, Scan.Shaped t ∧ 0 ≤ t.line) (elapsed : Double) :
    Shows (widths (tokens.map Row.ofToken)) tokens
      (Table.ended (body (tokens.map Row.ofToken) ++ [footer elapsed])) := by
  have hflat : ∀ r ∈ tokens.map Row.ofToken, r.Flat := by
    rw [List.forall_mem_map]
    exact fun t ht => flat_ofToken (h t ht).1 (h t ht).2
  have hlines := splitLines_ended_body hflat elapsed
  have hleast := least_widths (tokens.map Row.ofToken)
  refine ⟨?ended, ?count, ?trimmed, ?dashes, hleast, ?row, ?cells⟩
  case ended => simp [Table.ended]
  case count => simp [hlines, tableLines]
  case trimmed =>
    rw [hlines]
    exact trimmed_of_mem hflat elapsed
  case dashes =>
    rw [hlines, ← padded_dashes]
    rfl
  case row =>
    intro i t ht
    rw [hlines, getElem?_tableLines ht]
    rfl
  case cells =>
    intro i t line ht hline
    have hmem : t ∈ tokens := List.mem_of_getElem? ht
    have hfits : Row.ofToken t ∈ Row.headers :: tokens.map Row.ofToken :=
      List.mem_cons_of_mem _ (List.mem_map_of_mem hmem)
    rw [hlines, getElem?_tableLines ht, Option.some.injEq] at hline
    rw [← hline, ofText_ofToken (h t hmem).1 (h t hmem).2 (hleast.lexeme.1 _ hfits)
      (hleast.label.1 _ hfits)]
    exact ⟨rfl, Text.ofDigitChars_ofInt (h t hmem).2⟩

/-- The table of an analysis that succeeds. -/
theorem render_analyze {setting : Scan.Setting} {clock : Clock} {source : Text}
    (h : analyze setting clock source = .success tokens elapsed) :
    ∃ text w, render (.ofAnalysis (analyze setting clock source)) = .ok text ∧
      Shows w tokens text := by
  have hdrain : tokens = (Scan.drain setting source).tokens := by
    rw [analyze, Analysis.ofDrain] at h
    split at h
    · cases h
    · cases h
      rfl
  refine ⟨_, _, by rw [h, render_success], shows_body (fun t ht => ?_) elapsed⟩
  rw [hdrain] at ht
  have hline := Scan.line_bounds_of_mem_drain ht
  exact ⟨Scan.shaped_of_mem_drain ht, by omega⟩

/-- A literal over two lines that ends with a space. -/
theorem render_analyze_literal :
    let source := "x = 'ab\n '".toList
    let tokens : List Token := [⟨"x".toList, .identifier, 1⟩, ⟨"=".toList, .relationalOperator, 1⟩,
      ⟨"ab ".toList, .stringLiteral, 2⟩]
    analyze {} .still source = .success tokens Clock.still.elapsed ∧
      ∃ text w, render (.ofAnalysis (analyze {} .still source)) = .ok text ∧
        Shows w tokens text := by
  intro source tokens
  have hdrain : Scan.drain {} source = ⟨tokens, .clean⟩ := by decide
  have h : analyze {} .still source = .success tokens Clock.still.elapsed := by
    rw [analyze, hdrain]
    rfl
  exact ⟨h, render_analyze h⟩

end Table

end PascalTokens
