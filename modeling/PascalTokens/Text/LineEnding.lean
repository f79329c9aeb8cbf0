import PascalTokens.Text.Basic

/-!
# Line endings

Files may end their lines with a line feed, a carriage return, or both in this order. Source
text that is read from a file uses line feeds only. What a stream hands over may do the same, or
keep the line endings it got.
-/

namespace PascalTokens

namespace Text

/-- Write every line ending as one line feed. -/
def unifyLineEndings : Text → Text
  | [] => []
  | '\r' :: '\n' :: rest => '\n' :: unifyLineEndings rest
  | c :: rest => (if c = '\r' then '\n' else c) :: unifyLineEndings rest

/-- What a stream does with the line endings of the text that is read from it. -/
inductive Newlines where
  | kept
  | unified
  deriving DecidableEq, Repr

/-- The text that a stream hands over. -/
def Newlines.apply : Newlines → Text → Text
  | kept, t => t
  | unified, t => unifyLineEndings t

/-- End the last line with a line feed; an empty text has no line to end. -/
def terminated (t : Text) : Text :=
  if t.isEmpty || t.getLast? = some '\n' then t else t ++ ['\n']

end Text

end PascalTokens
