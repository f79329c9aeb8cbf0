import PascalTokens.Analysis
import PascalTokens.Double.Decimal

/-!
# Profiles

Counters over a number of analyses.
-/

namespace PascalTokens

structure Counters where
  sourceLength : Int := 0
  tokenCount : Int := 0
  analyses : Int := 0
  failures : Int := 0
  deriving DecidableEq, Repr

namespace Counters

/-- Count one analysis of a source of the given length. -/
def record (c : Counters) (sourceLength tokenCount : Int) (failed : Bool) : Counters where
  sourceLength := c.sourceLength + sourceLength
  tokenCount := c.tokenCount + tokenCount
  analyses := c.analyses + 1
  failures := if failed then c.failures + 1 else c.failures

def recordAnalysis (c : Counters) (source : Text) (a : Analysis) : Counters :=
  c.record source.length a.tokenCount a.isFailure

end Counters

/-- The milliseconds between the readings, to two places, as text. -/
def Clock.summary (c : Clock) : Text := (c.elapsed.roundPlaces 2).text

end PascalTokens
