import PascalTokens.Symbol

/-!
# Spacing

A line is split into words at blanks, so every symbol outside quotes is first set apart by
blanks. The line is cut into pieces, each a symbol or a single character; the longer symbol wins
where two begin at the same place. Both kinds of quotes count on their own, from the start of the
line, and between two quotes of either kind nothing is a symbol.

## Main definitions

* `Quotes` is the state of both quotes at a place in the line.
* `Piece.cut` cuts a line into pieces.
* `Spacing.pad` sets the symbols apart.
-/

namespace PascalTokens

/-- Whether a place lies between single quotes and whether it lies between double quotes. -/
structure Quotes where
  inSingle : Bool
  inDouble : Bool
  deriving DecidableEq, Repr

namespace Quotes

/-- The state at the start of a line, which may continue a string literal. -/
def atStart (inString : Bool) : Quotes := ⟨inString, false⟩

/-- The state after the character `c`. -/
def step (q : Quotes) (c : Char) : Quotes :=
  if c = Symbol.stringQuote then ⟨!q.inSingle, q.inDouble⟩
  else if c = Symbol.otherQuote then ⟨q.inSingle, !q.inDouble⟩
  else q

def isOpen (q : Quotes) : Bool := q.inSingle || q.inDouble

end Quotes

/-- A part of a line: a symbol outside quotes, or any other character. -/
inductive Piece where
  | plain (c : Char)
  | symbol (s : Text)
  deriving DecidableEq, Repr

namespace Piece

def text : Piece → Text
  | plain c => [c]
  | symbol s => s

/-- The piece that a character makes on its own. -/
def single (q : Quotes) (c : Char) : Piece :=
  if !q.isOpen && Symbol.punctuation.contains c then symbol [c] else plain c

/-- Cut a line into pieces, from quotes in state `q` on. -/
def cut (q : Quotes) : Text → List Piece
  | [] => []
  | [c] => [single q c]
  | c :: d :: rest =>
    if !q.isOpen && Symbol.compounds.contains [c, d] then symbol [c, d] :: cut q rest
    else single q c :: cut (q.step c) (d :: rest)

/-- A piece with blanks around it if it is a symbol. There is none before the first piece and
none after the last. -/
def spaced (first last : Bool) : Piece → Text
  | plain c => [c]
  | symbol s => (if first then [] else [' ']) ++ s ++ (if last then [] else [' '])

/-- The text of pieces that follow other ones, with the symbols set apart. -/
def spacedRest : List Piece → Text
  | [] => []
  | p :: rest => spaced false rest.isEmpty p ++ spacedRest rest

/-- The text of the pieces of a line, with the symbols set apart. -/
def spacedLine : List Piece → Text
  | [] => []
  | p :: rest => spaced true rest.isEmpty p ++ spacedRest rest

end Piece

namespace Spacing

/-- Set the symbols of a line apart by blanks; `inString` if it continues a string literal. -/
def pad (inString : Bool) (line : Text) : Text :=
  Piece.spacedLine (Piece.cut (Quotes.atStart inString) line)

end Spacing

end PascalTokens
