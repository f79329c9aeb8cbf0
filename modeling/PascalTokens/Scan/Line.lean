import PascalTokens.Scan.State
import PascalTokens.Spacing
import PascalTokens.Symbol
import PascalTokens.Text.Blank

/-!
# From lines to words

A source text is cut into lines, and a line into the words that the scan will read. What is
inside a line comment, or inside a block comment that began on an earlier line, is cut away
first.
-/

namespace PascalTokens

namespace Scan

/-- The lines of a source text. A carriage return before a line feed belongs to the line
ending. -/
def sourceLines (source : Text) : List Text :=
  (Text.lines source).map (Text.dropFinal '\r')

namespace State

/-- What is left of a line without its comments, if anything: a line comment is cut off, and an
open block comment is skipped through its closing mark, or through the whole line. -/
def uncomment (s : State) (line : Text) : State × Option Text :=
  let line := Text.before Symbol.lineComment line
  if s.mode = .comment then
    match Text.after? Symbol.commentClosing line with
    | some rest => ({ s with mode := .normal }, some rest)
    | none => (s, none)
  else (s, some line)

/-- The words of a text that stands in a line of this state, with its symbols set apart. -/
def wordsOf (s : State) (text : Text) : List Text :=
  Text.words (Spacing.pad (s.mode = .string) text)

/-- Begin line number `number`: the state at its start, and its words. -/
def beginLine (s : State) (number : Int) (line : Text) : State × List Text :=
  match ({ s with line := number } : State).uncomment line with
  | (s, some text) => (s, s.wordsOf text)
  | (s, none) => (s, [])

end State

end Scan

end PascalTokens
