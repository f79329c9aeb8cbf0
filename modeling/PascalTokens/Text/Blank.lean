import PascalTokens.Text.Basic

/-!
# Blanks and words

The white space characters of Unicode together with the four information separators, and the
split of a text into the words that blanks separate.
-/

namespace PascalTokens

namespace Text

/-- White space: the ASCII controls from tab to carriage return and from file separator to
unit separator, the space, and the blanks beyond ASCII. -/
def isBlank (c : Char) : Bool :=
  let n := c.toNat
  (9 ≤ n && n ≤ 13) || (28 ≤ n && n ≤ 32) || n == 0x85 || n == 0xA0 || n == 0x1680 ||
    (0x2000 ≤ n && n ≤ 0x200A) || n == 0x2028 || n == 0x2029 || n == 0x202F || n == 0x205F ||
    n == 0x3000

/-- The maximal runs of characters that are not blank. -/
def words (t : Text) : List Text := (List.splitOnP isBlank t).filter (!·.isEmpty)

/-- Drop the blanks at the end. -/
def trimEnd (t : Text) : Text := dropEndWhile isBlank t

end Text

end PascalTokens
