import PascalTokens.Text.Printable

/-!
# Quoted text

The one-line form in which messages show a text: between quotes, with a backslash before the
quote in use and before a backslash, and with escapes for everything unprintable.
-/

namespace PascalTokens

namespace Text

def singleQuote : Char := '\x27'

def doubleQuote : Char := '\x22'

/-- Single quotes, unless the text holds a single quote and no double quote. -/
def quoteFor (t : Text) : Char :=
  if t.contains singleQuote && !t.contains doubleQuote then doubleQuote else singleQuote

/-- A character written by its code, in the shortest of three widths. -/
def codeEscape (c : Char) : Text :=
  if c.toNat < 0x100 then '\\' :: 'x' :: hex 2 c.toNat
  else if c.toNat < 0x10000 then '\\' :: 'u' :: hex 4 c.toNat
  else '\\' :: 'U' :: hex 8 c.toNat

/-- How one character appears between two `quote` characters. -/
def escaped (quote c : Char) : Text :=
  if c = quote ∨ c = '\\' then ['\\', c]
  else if c = '\n' then ['\\', 'n']
  else if c = '\r' then ['\\', 'r']
  else if c = '\t' then ['\\', 't']
  else if isPrintable c then [c]
  else codeEscape c

/-- The text between quotes, on one line. -/
def quoted (t : Text) : Text :=
  let quote := quoteFor t
  quote :: t.flatMap (escaped quote) ++ [quote]

end Text

end PascalTokens
