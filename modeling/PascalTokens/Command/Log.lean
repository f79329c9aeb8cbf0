import PascalTokens.Text.Basic

/-!
# Log lines

What the command line reports beside its output. A line names its level and the part of the
program it comes from.
-/

namespace PascalTokens

namespace Log

inductive Level where
  | debug
  | warning
  deriving DecidableEq, Repr

/-- How much is reported: problems only, also what was done, or nothing but errors. -/
inductive Verbosity where
  | standard
  | verbose
  | quiet
  deriving DecidableEq, Repr

def Level.name : Level → Text
  | debug => "DEBUG".toList
  | warning => "WARNING".toList

def Verbosity.shows : Verbosity → Level → Bool
  | verbose, _ => true
  | standard, level => level = .warning
  | quiet, _ => false

/-- The name above all others. -/
def rootName : Text := "pascalex".toList

/-- A name below the root name; a name that is there already stays as it is. -/
def qualified (name : Text) : Text :=
  if name = rootName || (rootName ++ ['.']).isPrefixOf name then name
  else rootName ++ '.' :: name

structure Record where
  level : Level
  origin : Text
  message : Text
  deriving DecidableEq, Repr

def Record.line (r : Record) : Text :=
  r.level.name ++ ' ' :: qualified r.origin ++ ": ".toList ++ r.message ++ ['\n']

/-- The lines of the records that are shown. -/
def text (v : Verbosity) (records : List Record) : Text :=
  (records.filter fun r => v.shows r.level).flatMap Record.line

end Log

end PascalTokens
