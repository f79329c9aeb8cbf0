import PascalTokens.Scan.Drain

/-!
# Tokens on demand

A stream holds what is left of a source: the remaining words of the line it is on, and the lines
after it. The scan state is outside the stream, so that one state can serve several streams one
after the other. Asking for a token reads on only as far as needed; after the end or a failure
nothing more comes.
-/

namespace PascalTokens

namespace Scan

/-- What is left of a source. -/
inductive Stream where
  | reading (words : List Text) (number : Int) (lines : List Text)
  | exhausted
  deriving DecidableEq, Repr

/-- The answer to a request for the next token. -/
inductive Pull where
  | token (t : Token)
  | stop (ending : Ending)
  deriving DecidableEq, Repr

namespace Stream

/-- All of a source. -/
def ofSource (source : Text) : Stream := reading [] 1 (sourceLines source)

/-- Read words up to the first emission: the state there, and, if there was one, the emission
with the words after it. -/
def pullWord (setting : Setting) (s : State) : List Text → State × Option (Emission × List Text)
  | [] => (s, none)
  | w :: rest =>
    match s.scanWord setting w with
    | (s, .nothing) => pullWord setting s rest
    | (s, emission) => (s, some (emission, rest))

/-- Read the lines from number `number` on, up to the next token or the end. -/
def pullLines (setting : Setting) (s : State) (number : Int) :
    List Text → State × Stream × Pull
  | [] =>
    let (s, ending) := s.finish setting
    (s, exhausted, .stop ending)
  | line :: rest =>
    let (s, words) := s.beginLine number line
    match pullWord setting s words with
    | (s, some (.token t, words)) => (s, reading words (number + 1) rest, .token t)
    | (s, some (.failure e, _)) => (s, exhausted, .stop (.failed e))
    | (s, _) => pullLines setting s (number + 1) rest

/-- The next token. An exhausted stream stops without a further word. -/
def next (setting : Setting) (s : State) : Stream → State × Stream × Pull
  | exhausted => (s, exhausted, .stop .clean)
  | reading words number lines =>
    match pullWord setting s words with
    | (s, some (.token t, words)) => (s, reading words number lines, .token t)
    | (s, some (.failure e, _)) => (s, exhausted, .stop (.failed e))
    | (s, _) => pullLines setting s number lines

/-- All tokens that are left, and how the scan ended. -/
def drain (setting : Setting) (s : State) : Stream → State × Drain
  | exhausted => (s, ⟨[], .clean⟩)
  | reading words number lines => s.scanRest setting words number lines

end Stream

end Scan

end PascalTokens
