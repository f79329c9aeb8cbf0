import PascalTokens.Text.Quoted

/-!
# Diagnostics

What can be wrong with a source text, and the one-line message that says so with its place.
-/

namespace PascalTokens

/-- A message with the place it is about, as far as the place is known. -/
structure Diagnostic where
  message : Text
  line : Option Int := none
  file : Option Text := none
  deriving DecidableEq, Repr

namespace Diagnostic

/-- The file and the line, each followed by a colon. An empty file name is left out. -/
def location (d : Diagnostic) : Text :=
  let file := match d.file with
    | some name => if name.isEmpty then [] else name ++ [':']
    | none => []
  let line := match d.line with
    | some n => Text.ofInt n ++ [':']
    | none => []
  file ++ line

/-- The message after its location. A blank takes the place of the colons that end the
location. -/
def text (d : Diagnostic) : Text :=
  if d.location.isEmpty then d.message
  else Text.dropEndWhile (· = ':') d.location ++ ' ' :: d.message

end Diagnostic

/-- A construct that runs from an opening mark to a closing mark. -/
inductive Construct where
  | stringLiteral
  | blockComment
  deriving DecidableEq, Repr

/-- What is wrong with a source text. -/
inductive LexicalFault where
  | unrecognized (word : Text)
  | unterminated (construct : Construct)
  deriving DecidableEq, Repr

namespace Construct

/-- The message for a construct that the end of the input leaves open. -/
def unterminated : Construct → Text
  | stringLiteral => "Unterminated string literal".toList
  | blockComment => "Unterminated block comment".toList

end Construct

def LexicalFault.message : LexicalFault → Text
  | unrecognized word => "Unrecognized word ".toList ++ word.quoted
  | unterminated construct => construct.unterminated

/-- A fault in the source text, on a line of a file that may have a name. -/
structure LexicalError where
  fault : LexicalFault
  line : Int
  file : Option Text
  deriving DecidableEq, Repr

namespace LexicalError

def diagnostic (e : LexicalError) : Diagnostic := ⟨e.fault.message, some e.line, e.file⟩

def text (e : LexicalError) : Text := e.diagnostic.text

end LexicalError

end PascalTokens
