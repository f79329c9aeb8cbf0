import PascalTokens.Text.Basic

/-!
# Reserved words and symbols

The tables of the source language. `or` and `and` count as relational operators.
-/

namespace PascalTokens

namespace Symbol

/-- The reserved words, in lower case. -/
def keywords : List Text :=
  ["program".toList, "var".toList, "begin".toList, "end".toList, "integer".toList,
    "real".toList, "if".toList, "then".toList, "else".toList, "while".toList, "do".toList]

def relational : List Text :=
  ["=".toList, "<>".toList, "<".toList, "<=".toList, ">=".toList, ">".toList, "or".toList,
    "and".toList]

def arithmetic : List Text := ["+".toList, "-".toList, "*".toList, "/".toList]

/-- The characters that are a symbol by themselves. -/
def punctuation : List Char := [';', ',', ':', '.', '(', ')', '<', '>', '=', '+', '-', '*', '/']

/-- The symbols of two characters. -/
def compounds : List Text :=
  [['<', '>'], ['<', '='], ['>', '='], ['/', '*'], ['*', '/']]

/-- The mark that opens and closes a string literal. -/
def stringQuote : Char := '\x27'

/-- The other quote, which is never a delimiter but does hide symbols from the spacing. -/
def otherQuote : Char := '\x22'

/-- What follows this mark on a line is a comment. -/
def lineComment : Text := ['/', '/']

def commentOpening : Text := ['/', '*']

def commentClosing : Text := ['*', '/']

end Symbol

end PascalTokens
