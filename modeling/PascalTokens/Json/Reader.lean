import PascalTokens.Double.Decimal
import PascalTokens.Json.Basic

/-!
# Reading JSON text

The grammar is that of JSON with the three additional numbers `NaN`, `Infinity` and `-Infinity`.
A number without fraction and exponent is an integer. Half of a surrogate pair that stands alone
is no character and reads as U+FFFD.
-/

namespace PascalTokens

namespace Json

/-- The blanks between the parts of a JSON text. -/
def skipBlanks (t : Text) : Text :=
  t.dropWhile fun c => c = ' ' || c = '\t' || c = '\n' || c = '\r'

def hexValue? (c : Char) : Option Nat :=
  if c.isDigit then some (c.toNat - '0'.toNat)
  else if 'a' ≤ c ∧ c ≤ 'f' then some (c.toNat - 'a'.toNat + 10)
  else if 'A' ≤ c ∧ c ≤ 'F' then some (c.toNat - 'A'.toNat + 10)
  else none

/-- The value of four hexadecimal digits. -/
def hexUnit? (a b c d : Char) : Option Nat := do
  let a ← hexValue? a
  let b ← hexValue? b
  let c ← hexValue? c
  let d ← hexValue? d
  return ((a * 16 + b) * 16 + c) * 16 + d

/-- The character that a one-letter escape stands for. -/
def shortEscape? (c : Char) : Option Char :=
  [('\x22', '\x22'), ('\\', '\\'), ('/', '/'), ('b', '\x08'), ('f', '\x0C'), ('n', '\n'),
    ('r', '\r'), ('t', '\t')].lookup c

/-- The code values up to the closing quote, and the rest after it. An escape may give half of
a surrogate pair. -/
def readCodes : Text → Option (List Nat × Text)
  | [] => none
  | '\x22' :: rest => some ([], rest)
  | '\\' :: 'u' :: a :: b :: c :: d :: rest => do
    let unit ← hexUnit? a b c d
    let (codes, rest) ← readCodes rest
    return (unit :: codes, rest)
  | '\\' :: e :: rest => do
    let char ← shortEscape? e
    let (codes, rest) ← readCodes rest
    return (char.toNat :: codes, rest)
  | c :: rest =>
    if c.toNat < 0x20 ∨ c = '\\' then none
    else (readCodes rest).map fun (codes, rest) => (c.toNat :: codes, rest)

def isHighHalf (n : Nat) : Bool := 0xD800 ≤ n && n < 0xDC00

def isLowHalf (n : Nat) : Bool := 0xDC00 ≤ n && n < 0xE000

/-- The characters of code values, where two matching halves are one character. -/
def joinHalves : List Nat → Text
  | [] => []
  | [n] => [if isHighHalf n || isLowHalf n then '\uFFFD' else Char.ofNat n]
  | m :: n :: rest =>
    if isHighHalf m && isLowHalf n then
      Char.ofNat (0x10000 + (m - 0xD800) * 0x400 + (n - 0xDC00)) :: joinHalves rest
    else (if isHighHalf m || isLowHalf m then '\uFFFD' else Char.ofNat m) :: joinHalves (n :: rest)

/-- Read a string whose opening quote is already read. -/
def readString (t : Text) : Option (Text × Text) :=
  (readCodes t).map fun (codes, rest) => (joinHalves codes, rest)

/-- The run of digits at the start, and the rest. -/
def readDigits (t : Text) : Text × Text := t.span Char.isDigit

/-- The digits of a fraction, if a point and a digit stand here. -/
def readFraction? (t : Text) : Option (Text × Text) :=
  match t with
  | '.' :: rest =>
    match readDigits rest with
    | ([], _) => none
    | result => some result
  | _ => none

/-- The exponent, if the letter, an optional sign and a digit stand here. -/
def readExponent? (t : Text) : Option (Int × Text) :=
  match t with
  | e :: rest =>
    if e = 'e' ∨ e = 'E' then
      let (negative, rest) := match rest with
        | '-' :: rest => (true, rest)
        | '+' :: rest => (false, rest)
        | _ => (false, rest)
      match readDigits rest with
      | ([], _) => none
      | (digits, rest) =>
        let n : Int := Nat.ofDigitChars 10 digits 0
        some (if negative then -n else n, rest)
    else none
  | [] => none

/-- The digits before the point: a zero stands alone. -/
def readWhole? (t : Text) : Option (Text × Text) :=
  match t with
  | '0' :: rest => some (['0'], rest)
  | _ =>
    match readDigits t with
    | ([], _) => none
    | result => some result

/-- Read a number whose sign is already read. -/
def readMagnitude (negative : Bool) (t : Text) : Option (Json × Text) :=
  match readWhole? t with
  | none => none
  | some (whole, t) =>
    let fraction := readFraction? t
    let afterFraction := (fraction.map (·.2)).getD t
    let exponent := readExponent? afterFraction
    let rest := (exponent.map (·.2)).getD afterFraction
    if fraction.isNone && exponent.isNone then
      let n : Int := Nat.ofDigitChars 10 whole 0
      some (int (if negative then -n else n), rest)
    else
      let places := (fraction.map (·.1)).getD []
      let power := (exponent.map (·.1)).getD 0 - places.length
      some (double (.ofDecimal negative (Nat.ofDigitChars 10 (whole ++ places) 0) power), rest)

def readNumber : Text → Option (Json × Text)
  | '-' :: rest => readMagnitude true rest
  | t => readMagnitude false t

/-- The words that stand for a value. -/
def literals : List (Text × Json) :=
  [("null".toList, null), ("true".toList, bool true), ("false".toList, bool false),
    ("NaN".toList, double .nan), ("Infinity".toList, double (.infinite false)),
    ("-Infinity".toList, double (.infinite true))]

def readLiteral? (t : Text) : Option (Json × Text) :=
  literals.findSome? fun (word, v) =>
    if word.isPrefixOf t then some (v, t.drop word.length) else none

/-- Read a value that is neither text nor array nor object. -/
def readScalar (t : Text) : Option (Json × Text) :=
  match readLiteral? t with
  | some result => some result
  | none => readNumber t

mutual

/-- Read the value that starts here; `fuel` bounds the nesting and the number of elements. -/
def readValue : Nat → Text → Option (Json × Text)
  | 0, _ => none
  | fuel + 1, t =>
    match t with
    | '\x22' :: rest => (readString rest).map fun (s, rest) => (str s, rest)
    | '[' :: rest =>
      match skipBlanks rest with
      | ']' :: rest => some (arr [], rest)
      | rest => (readItems fuel rest).map fun (items, rest) => (arr items, rest)
    | '\x7b' :: rest =>
      match skipBlanks rest with
      | '\x7d' :: rest => some (obj [], rest)
      | rest => (readFields fuel [] rest).map fun (fields, rest) => (obj fields, rest)
    | _ => readScalar t

/-- Read one element and those after it, up to the closing bracket. -/
def readItems : Nat → Text → Option (List Json × Text)
  | 0, _ => none
  | fuel + 1, t =>
    match readValue fuel t with
    | none => none
    | some (v, rest) =>
      match skipBlanks rest with
      | ']' :: rest => some ([v], rest)
      | ',' :: rest =>
        (readItems fuel (skipBlanks rest)).map fun (items, rest) => (v :: items, rest)
      | _ => none

/-- Read one field and those after it, up to the closing brace, on top of the fields already
read. -/
def readFields : Nat → Fields → Text → Option (Fields × Text)
  | 0, _, _ => none
  | fuel + 1, done, t =>
    match t with
    | '\x22' :: rest =>
      match readString rest with
      | none => none
      | some (key, rest) =>
        match skipBlanks rest with
        | ':' :: rest =>
          match readValue fuel (skipBlanks rest) with
          | none => none
          | some (v, rest) =>
            let done := setField key v done
            match skipBlanks rest with
            | '\x7d' :: rest => some (done, rest)
            | ',' :: rest => readFields fuel done (skipBlanks rest)
            | _ => none
        | _ => none
    | _ => none

end

/-- The value of a JSON text. -/
def parse? (t : Text) : Option Json :=
  match readValue (2 * t.length + 2) (skipBlanks t) with
  | some (v, rest) => if (skipBlanks rest).isEmpty then some v else none
  | none => none

end Json

end PascalTokens
