/-!
# Text

Text is a list of characters, so that lengths, cuts and positions count code points and every
operation is a list operation. This module holds the searches and cuts that the rest of the
library shares.

## Main definitions

* `Text.lines` splits at line feeds only.
* `Text.cut?` finds the first occurrence of a pattern and gives what stands before and after it.
* `Text.dropEndWhile` drops the longest run at the end that satisfies a test.
-/

namespace PascalTokens

/-- A sequence of code points. -/
abbrev Text := List Char

namespace Text

/-- The lines of a text: a line feed separates two of them, so there is always at least one. -/
def lines (t : Text) : List Text := List.splitOn '\n' t

/-- The text before and after the first occurrence of `pattern`, if there is one. -/
def cut? (pattern : Text) : Text → Option (Text × Text)
  | [] => none
  | c :: rest =>
    if pattern.isPrefixOf (c :: rest) then some ([], (c :: rest).drop pattern.length)
    else (cut? pattern rest).map fun (before, after) => (c :: before, after)

/-- The text before the first occurrence of `pattern`, or all of it. -/
def before (pattern t : Text) : Text :=
  match cut? pattern t with
  | some (head, _) => head
  | none => t

/-- The text after the first occurrence of `pattern`. -/
def after? (pattern t : Text) : Option Text := (cut? pattern t).map (·.2)

/-- Drop the longest run at the end whose characters all satisfy `p`. -/
def dropEndWhile (p : Char → Bool) (t : Text) : Text := (t.reverse.dropWhile p).reverse

/-- Drop `c` at the end, once, if it is there. -/
def dropFinal (c : Char) (t : Text) : Text := if t.getLast? = some c then t.dropLast else t

/-- The pieces with `sep` between each two. -/
def join (sep : Text) (pieces : List Text) : Text := List.intercalate sep pieces

/-- Pad with blanks at the end up to `width` characters. -/
def padEnd (width : Nat) (t : Text) : Text := List.rightpad width ' ' t

/-- The decimal digits of a natural number. -/
def ofNat (n : Nat) : Text := Nat.toDigits 10 n

/-- The decimal digits of an integer, after a minus sign if it is negative. -/
def ofInt : Int → Text
  | .ofNat n => ofNat n
  | .negSucc n => '-' :: ofNat (n + 1)

/-- One hexadecimal digit, in lower case. -/
def hexDigit (n : Nat) : Char := Nat.digitChar (n % 16)

/-- The last `width` hexadecimal digits of `n`. -/
def hex : Nat → Nat → Text
  | 0, _ => []
  | width + 1, n => hex width (n / 16) ++ [hexDigit n]

/-- Lexicographic order by code point. -/
def le : Text → Text → Bool
  | [], _ => true
  | _ :: _, [] => false
  | a :: as, b :: bs => if a = b then le as bs else decide (a.toNat < b.toNat)

end Text

end PascalTokens
