import PascalTokens.Symbol
import PascalTokens.Token

/-!
# Words

The lexical class of a word on its own, and the words that open or close a string literal or a
block comment. Only ASCII letters fold in case, and only for reserved words.

## Main definitions

* `Word.order` lists the classes with their tests, first match wins.
* `Word.classify` is the class of a word.
-/

namespace PascalTokens

namespace Word

def isKeyword (w : Text) : Bool := Symbol.keywords.contains (w.map Char.toLower)

def isRelational (w : Text) : Bool := Symbol.relational.contains w

def isArithmetic (w : Text) : Bool := Symbol.arithmetic.contains w

/-- An ASCII letter, then ASCII letters and digits. -/
def isIdentifier : Text → Bool
  | [] => false
  | c :: rest => c.isAlpha && rest.all Char.isAlphanum

/-- One or more ASCII digits. -/
def isNumber (w : Text) : Bool := !w.isEmpty && w.all Char.isDigit

/-- The tests in the order in which they decide. -/
def order : List ((Text → Bool) × TokenClass) :=
  [(isKeyword, .reservedKeyword), (isRelational, .relationalOperator),
    (isArithmetic, .arithmeticOperator), (isIdentifier, .identifier), (isNumber, .number)]

/-- The class of the first test in `rules` that holds. -/
def classifyBy (rules : List ((Text → Bool) × TokenClass)) (w : Text) : Option TokenClass :=
  (rules.find? fun rule => rule.1 w).map (·.2)

def classify (w : Text) : Option TokenClass := classifyBy order w

/-- A word that opens a string literal and does not close it at its end. -/
def opensString (w : Text) : Bool :=
  w.head? = some Symbol.stringQuote && w.getLast? ≠ some Symbol.stringQuote

def opensComment (w : Text) : Bool := Symbol.commentOpening.isPrefixOf w

def closesComment (w : Text) : Bool := Symbol.commentClosing.isSuffixOf w

/-- What a word that opens a string literal contributes to it. -/
def stringSeed? (w : Text) : Option Text := if opensString w then some (w.drop 1) else none

/-- Whether the comment that a word opens stays open after it. -/
def commentLeftOpen? (w : Text) : Option Bool :=
  if opensComment w then some !closesComment w else none

/-- A symbol that separates words without being a token. -/
def isPunctuation (w : Text) : Bool :=
  Symbol.compounds.contains w ||
    match w with
    | [c] => Symbol.punctuation.contains c
    | _ => false

end Word

end PascalTokens
