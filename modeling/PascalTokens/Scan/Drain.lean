import PascalTokens.Scan.Line
import PascalTokens.Scan.Step

/-!
# Scanning a whole source

A scan reads the words of every line in turn and stops at the first failure. At the end of the
input a construct may still be open; it is dropped, or under strict checking it is a failure.

## Main definitions

* `Scan.drain` gives the tokens of a source and how its scan ended.
* `Scan.drainFrom` does so from any state and gives the state afterwards.
-/

namespace PascalTokens

namespace Scan

/-- How a scan ended. -/
inductive Ending where
  | clean
  | dropped (construct : Construct) (line : Int)
  | failed (e : LexicalError)
  deriving DecidableEq, Repr

namespace Ending

def failure? : Ending → Option LexicalError
  | failed e => some e
  | _ => none

end Ending

/-- Tokens in source order, and how the scan that gave them ended. -/
structure Drain where
  tokens : List Token
  ending : Ending
  deriving DecidableEq, Repr

namespace Drain

def failure? (d : Drain) : Option LexicalError := d.ending.failure?

end Drain

/-- The outcome of a part of a scan: the state after it, its tokens, and its failure if it
failed. -/
structure Progress where
  state : State
  tokens : List Token
  failure : Option LexicalError
  deriving DecidableEq

namespace Progress

def prepend (tokens : List Token) (p : Progress) : Progress :=
  { p with tokens := tokens ++ p.tokens }

end Progress

namespace State

/-- Scan words in turn, up to the first failure. -/
def scanWords (setting : Setting) (s : State) : List Text → Progress
  | [] => ⟨s, [], none⟩
  | w :: rest =>
    match s.scanWord setting w with
    | (s, .nothing) => s.scanWords setting rest
    | (s, .token t) => (s.scanWords setting rest).prepend [t]
    | (s, .failure e) => ⟨s, [], some e⟩

/-- Scan lines in turn, the first of them with number `number`. -/
def scanLines (setting : Setting) (s : State) (number : Int) : List Text → Progress
  | [] => ⟨s, [], none⟩
  | line :: rest =>
    let (s, words) := s.beginLine number line
    let p := s.scanWords setting words
    match p.failure with
    | some _ => p
    | none => (p.state.scanLines setting (number + 1) rest).prepend p.tokens

/-- End the input: whatever is open is dropped, under strict checking with a failure that names
the line where it was opened. -/
def finish (setting : Setting) (s : State) : State × Ending :=
  match s.mode.construct? with
  | none => (s, .clean)
  | some construct =>
    let line := s.start construct
    let s := { s with mode := .normal, buffer := .empty }
    if setting.config.isStrict then (s, .failed (fail setting (.unterminated construct) line))
    else (s, .dropped construct line)

/-- Scan the rest of a source: words that are left of the current line, and the lines after
it. -/
def scanRest (setting : Setting) (s : State) (words : List Text) (number : Int)
    (lines : List Text) : State × Drain :=
  let p := s.scanWords setting words
  match p.failure with
  | some e => (p.state, ⟨p.tokens, .failed e⟩)
  | none =>
    let q := (p.state.scanLines setting number lines).prepend p.tokens
    match q.failure with
    | some e => (q.state, ⟨q.tokens, .failed e⟩)
    | none =>
      let (s, ending) := q.state.finish setting
      (s, ⟨q.tokens, ending⟩)

end State

/-- Scan a whole source from the state `s`. -/
def drainFrom (setting : Setting) (s : State) (source : Text) : State × Drain :=
  s.scanRest setting [] 1 (sourceLines source)

/-- The tokens of a source and how its scan ended. -/
def drain (setting : Setting) (source : Text) : Drain :=
  (drainFrom setting .initial source).2

end Scan

end PascalTokens
