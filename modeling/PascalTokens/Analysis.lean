import PascalTokens.Double.Basic
import PascalTokens.Scan.Drain

/-!
# Timed analyses

An analysis scans a whole source, measures the time it took, and turns a failure of the scan
into a result instead of an interruption.
-/

namespace PascalTokens

/-- Two readings of a clock that counts seconds. -/
structure Clock where
  start : Double
  stop : Double

namespace Clock

/-- A clock that stands still. -/
def still : Clock := ⟨.zero, .zero⟩

/-- The time between the readings in milliseconds. -/
def elapsed (c : Clock) : Double := (c.stop.sub c.start).timesThousand

end Clock

/-- The outcome of an analysis and the milliseconds it took. -/
inductive Analysis where
  | success (tokens : List Token) (elapsed : Double)
  | failure (error : LexicalError) (elapsed : Double)
  deriving DecidableEq, Repr

namespace Analysis

/-- Tokens count only when the whole scan succeeded. -/
def ofDrain (elapsed : Double) (d : Scan.Drain) : Analysis :=
  match d.failure? with
  | some e => failure e elapsed
  | none => success d.tokens elapsed

def isFailure : Analysis → Bool
  | success .. => false
  | failure .. => true

def tokenCount : Analysis → Nat
  | success tokens _ => tokens.length
  | failure .. => 0

end Analysis

/-- Analyse a source under the given options. -/
def analyze (setting : Scan.Setting) (clock : Clock) (source : Text) : Analysis :=
  Analysis.ofDrain clock.elapsed (Scan.drain setting source)

end PascalTokens
