import PascalTokens.Double.Basic
import PascalTokens.Text.Basic

/-!
# Decimal text of doubles

Reading rounds the exact decimal value to the nearest number. The shortest text is the one with
the fewest digits that reads back, and of those the nearest to the value. Fixed places round the
exact value, a tie to the even digit.
-/

namespace PascalTokens

namespace Double

/-- How many decimal digits `n` has. -/
def digitCount (n : Nat) : Nat := (Nat.toDigits 10 n).length

/-- The number nearest to `digits` times ten to the power `exponent`. Values too large or too
small by many powers of ten are settled without forming the power. -/
def ofDecimal (negative : Bool) (digits : Nat) (exponent : Int) : Double :=
  let magnitude := digitCount digits + exponent
  if digits = 0 ∨ magnitude < -330 then ofRank negative 0
  else if 330 < magnitude then infinite negative
  else if 0 ≤ exponent then ofRatio negative (digits * pow10 exponent.toNat) 1
  else ofRatio negative digits (pow10 (-exponent).toNat)

/-- The exponent of the least power of ten above the positive value of rank `rank`. -/
def decimalPoint (rank : Nat) : Int :=
  let n := scaledRank rank
  if scale ≤ n then digitCount (n / scale) else 1 - digitCount ((scale - 1) / n)

/-- The multiple of ten to the power `exponent` nearest to the value of rank `rank`, of those
next to it that read back as this rank. -/
def readsBack? (rank : Nat) (exponent : Int) : Option Nat :=
  let num := scaledRank rank * pow10 (-exponent).toNat
  let den := scale * pow10 exponent.toNat
  let below := num / den
  let reads (digits : Nat) : Bool := ofDecimal false digits exponent = ofRank false rank
  let nearest := roundDiv num den
  if reads nearest then some nearest
  else if reads below then some below
  else if reads (below + 1) then some (below + 1)
  else none

/-- Digits and exponent of the value of rank `rank` with the fewest digits, at most
`count + budget` and more than `count`, that reads back; failing that, all its digits. -/
def shortestFrom (rank count : Nat) : Nat → Nat × Int
  | 0 => (scaledRank rank * pow5 1074, -1074)
  | budget + 1 =>
    let exponent := decimalPoint rank - (count + 1)
    match readsBack? rank exponent with
    | some digits => (digits, exponent)
    | none => shortestFrom rank (count + 1) budget

/-- Digits and exponent of the shortest decimal that reads back as rank `rank`. -/
def shortest (rank : Nat) : Nat × Int := shortestFrom rank 0 17

/-- The decimal text of digits that stand, as a fraction, to the right of a point moved by
`point` places: positional where the point stays near the digits, else with an exponent of at
least two digits. -/
def layOut (digits : Text) (point : Int) : Text :=
  if -4 < point ∧ point ≤ 16 then
    if point ≤ 0 then '0' :: '.' :: List.replicate (-point).toNat '0' ++ digits
    else
      let whole := point.toNat
      let fraction := digits.drop whole
      List.rightpad whole '0' (digits.take whole) ++
        '.' :: (if fraction.isEmpty then ['0'] else fraction)
  else
    let exponent := point - 1
    let sign := if exponent < 0 then '-' else '+'
    let fraction := digits.drop 1
    digits.take 1 ++ (if fraction.isEmpty then [] else '.' :: fraction) ++
      'e' :: sign :: List.leftpad 2 '0' (Text.ofNat exponent.natAbs)

/-- A minus sign for a negative number, before its magnitude. -/
def signed (negative : Bool) (magnitude : Text) : Text :=
  if negative then '-' :: magnitude else magnitude

/-- The shortest text of a finite magnitude. -/
def shortestText (rank : Nat) : Text :=
  if rank = 0 then "0.0".toList
  else
    let (digits, exponent) := shortest rank
    let text := Text.ofNat digits
    layOut (Text.dropEndWhile (· = '0') text) (text.length + exponent)

/-- The value times ten to the power `places`, rounded to a natural number. -/
def roundedTo (places rank : Nat) : Nat := roundDiv (scaledRank rank * pow10 places) scale

/-- The text of a finite magnitude with exactly `places` digits after the point. -/
def fixedText (places rank : Nat) : Text :=
  let n := roundedTo places rank
  Text.ofNat (n / pow10 places) ++ '.' :: List.leftpad places '0' (Text.ofNat (n % pow10 places))

/-- The text with exactly `places` digits after the point. -/
def fixed (places : Nat) : Double → Text
  | nan => "nan".toList
  | infinite negative => signed negative "inf".toList
  | finite negative rank => signed negative (fixedText places rank)

/-- The shortest text that reads back. -/
def text : Double → Text
  | nan => "nan".toList
  | infinite negative => signed negative "inf".toList
  | finite negative rank => signed negative (shortestText rank)

/-- The number nearest to the value rounded to `places` digits after the point. -/
def roundPlaces (places : Nat) : Double → Double
  | finite negative rank => ofRatio negative (roundedTo places rank) (pow10 places)
  | x => x

end Double

end PascalTokens
