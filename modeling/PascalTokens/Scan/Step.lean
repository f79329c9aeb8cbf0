import PascalTokens.Scan.State
import PascalTokens.Word

/-!
# Scanning one word

Each mode has its own way to read a word. Between constructs a word is classified, opens a
construct, or is absorbed; in a string literal it is collected until one ends with a quote; in a
block comment it is skipped until one ends with the closing mark.
-/

namespace PascalTokens

namespace Scan

/-- The class of a word between constructs: a reserved word first, then an operator, then an
identifier or a number. -/
def tokenClass? (w : Text) : Option TokenClass :=
  if Word.isKeyword w then some .reservedKeyword
  else if Word.isRelational w then some .relationalOperator
  else if Word.isArithmetic w then some .arithmeticOperator
  else if Word.isIdentifier w then some .identifier
  else if Word.isNumber w then some .number
  else none

namespace State

/-- Begin a string literal whose text starts with `seed`. -/
def openString (s : State) (seed : Text) : State :=
  { s with mode := .string, buffer := s.buffer.append seed, stringStart := s.line }

def openComment (s : State) : State := { s with mode := .comment, commentStart := s.line }

/-- Scan a word between constructs. -/
def scanNormal (setting : Setting) (s : State) (w : Text) : State × Emission :=
  match tokenClass? w with
  | some tokenClass => (s, s.emit tokenClass w)
  | none =>
    match Word.stringSeed? w with
    | some seed => (s.openString seed, .nothing)
    | none =>
      match Word.commentLeftOpen? w with
      | some true => (s.openComment, .nothing)
      | some false => (s, .nothing)
      | none =>
        if setting.config.rejects && !Word.isPunctuation w then
          (s, .failure (fail setting (.unrecognized w) s.line))
        else (s, .nothing)

/-- Scan a word inside a string literal. One blank joins it to the text before it. -/
def scanString (s : State) (w : Text) : State × Emission :=
  let buffer := s.buffer.append [' ']
  if w.getLast? = some Symbol.stringQuote then
    let lexeme := (buffer.append w.dropLast).text
    let s := { s with mode := .normal, buffer := .empty }
    (s, s.emit .stringLiteral lexeme)
  else ({ s with buffer := buffer.append w }, .nothing)

/-- Skip a word inside a block comment. -/
def scanComment (s : State) (w : Text) : State :=
  if Word.closesComment w then { s with mode := .normal } else s

/-- Scan a word in the way of the current mode. -/
def scanWord (setting : Setting) (s : State) (w : Text) : State × Emission :=
  match s.mode with
  | .normal => s.scanNormal setting w
  | .string => s.scanString w
  | .comment => (s.scanComment w, .nothing)

end State

end Scan

end PascalTokens
