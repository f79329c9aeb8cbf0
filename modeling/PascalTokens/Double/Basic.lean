/-!
# Double precision numbers

The 64-bit binary floating point numbers, as exact values. A finite number is a sign and a
*rank*: its place among the non-negative finite numbers in increasing order, which is also the
integer that its lower 63 bits spell. Rounding a ratio of natural numbers to the nearest number
is one integer division, so no operation here is approximate or opaque.

## Main definitions

* `Double.scaled` is the magnitude in units of 2^-1074, the smallest positive number.
* `Double.ofRatio` rounds a ratio to the nearest number, a tie to the even rank.
* `Double.sub` and `Double.timesThousand` are exact results rounded once.
-/

namespace PascalTokens

def pow2 (n : Nat) : Nat := Nat.pow 2 n

def pow5 (n : Nat) : Nat := Nat.pow 5 n

def pow10 (n : Nat) : Nat := Nat.pow 10 n

/-- The number of finite ranks: 2046 exponents and the subnormal numbers, 2^52 ranks each. -/
def rankLimit : Nat := 2047 * pow2 52

/-- A double precision number. There is one not-a-number. -/
inductive Double where
  | nan
  | infinite (negative : Bool)
  | finite (negative : Bool) (rank : Fin rankLimit)
  deriving DecidableEq, Repr

/-- The quotient rounded to the nearest natural number, a tie to the even one. -/
def roundDiv (num den : Nat) : Nat :=
  let q := num / den
  let r := num % den
  if 2 * r < den then q else if den < 2 * r then q + 1 else q + q % 2

namespace Double

/-- The magnitude of rank `rank` in units of 2^-1074. -/
def scaledRank (rank : Nat) : Nat :=
  if rank < pow2 52 then rank else (pow2 52 + rank % pow2 52) * pow2 (rank / pow2 52 - 1)

/-- The unit in which `scaledRank` counts, as a denominator. -/
def scale : Nat := pow2 1074

theorem scale_eq : scale = pow2 1074 := rfl

-- A check of two terms for equality must not spell out the power.
attribute [irreducible] scale

/-- The number with the given sign and rank, infinite beyond the last rank. -/
def ofRank (negative : Bool) (rank : Nat) : Double :=
  if h : rank < rankLimit then finite negative ⟨rank, h⟩ else infinite negative

/-- The rank nearest to `num / den`, a tie to the even rank; it may lie beyond the last one.
The significand keeps 53 bits, or fewer where the unit is already the smallest. -/
def nearestRank (num den : Nat) : Nat :=
  let shift := Nat.log2 (num * scale / den) - 52
  shift * pow2 52 + roundDiv (num * scale) (den * pow2 shift)

/-- The number nearest to `num / den`, with the given sign. -/
def ofRatio (negative : Bool) (num den : Nat) : Double := ofRank negative (nearestRank num den)

def zero : Double := ofRank false 0

def ofInt (n : Int) : Double := ofRatio (decide (n < 0)) n.natAbs 1

def isNegative : Double → Bool
  | nan => false
  | infinite negative => negative
  | finite negative _ => negative

/-- The value in units of 2^-1074, if it is finite. -/
def scaled? : Double → Option Int
  | finite false rank => some (scaledRank rank)
  | finite true rank => some (-(scaledRank rank : Int))
  | _ => none

def isZero (x : Double) : Bool := x.scaled? = some 0

/-- Equality of values: the two zeros are equal, and not-a-number differs from itself. -/
def sameValue (x y : Double) : Bool :=
  match x.scaled?, y.scaled? with
  | some a, some b => a = b
  | none, none => x != nan && x = y
  | _, _ => false

/-- Equality of a number and an integer, as exact values. -/
def isInt (x : Double) (n : Int) : Bool := x.scaled? = some (n * scale)

/-- The difference, rounded once. A zero difference is negative only when a positive zero is
taken from a negative one. -/
def sub (x y : Double) : Double :=
  match x, y with
  | nan, _ => nan
  | _, nan => nan
  | infinite a, infinite b => if a = b then nan else infinite a
  | infinite a, _ => infinite a
  | _, infinite b => infinite !b
  | finite a r, finite b s =>
    let signed (negative : Bool) (n : Nat) : Int := if negative then -n else n
    let difference := signed a (scaledRank r) - signed b (scaledRank s)
    if difference = 0 then ofRank (a && !b) 0
    else ofRatio (decide (difference < 0)) difference.natAbs scale

/-- A thousand times the number, rounded once. -/
def timesThousand : Double → Double
  | finite negative rank => ofRatio negative (scaledRank rank * 1000) scale
  | x => x

end Double

end PascalTokens
