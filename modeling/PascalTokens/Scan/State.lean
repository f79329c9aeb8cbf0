import PascalTokens.Config
import PascalTokens.Diagnostic
import PascalTokens.Fragments
import PascalTokens.Token

/-!
# Scan states

What a scan remembers between two words: whether it is inside a string literal or a block
comment, the line it is on, the text of the open literal, and where the last literal and the
last comment were opened.
-/

namespace PascalTokens

namespace Scan

inductive Mode where
  | normal
  | string
  | comment
  deriving DecidableEq, Repr

namespace Mode

/-- The construct that is open in this mode. -/
def construct? : Mode → Option Construct
  | normal => none
  | string => some .stringLiteral
  | comment => some .blockComment

end Mode

structure State where
  mode : Mode
  line : Int
  buffer : Fragments
  stringStart : Int
  commentStart : Int
  deriving DecidableEq

/-- The state before the first line. -/
def State.initial : State := ⟨.normal, 0, .empty, 0, 0⟩

/-- What a scan is given and never changes: the options, and the name of the source file if it
has one. -/
structure Setting where
  config : Config := .permissive
  file : Option Text := none

/-- What one word makes of a scan. -/
inductive Emission where
  | nothing
  | token (t : Token)
  | failure (e : LexicalError)
  deriving DecidableEq, Repr

namespace State

/-- A token on the current line. -/
def emit (s : State) (tokenClass : TokenClass) (lexeme : Text) : Emission :=
  .token ⟨lexeme, tokenClass, s.line⟩

/-- A failure on line `line`. -/
def fail (setting : Setting) (fault : LexicalFault) (line : Int) : LexicalError :=
  ⟨fault, line, setting.file⟩

/-- The line on which a construct of this kind was last opened. -/
def start (s : State) : Construct → Int
  | .stringLiteral => s.stringStart
  | .blockComment => s.commentStart

end State

end Scan

end PascalTokens
