import PascalTokens.Double.Decimal
import PascalTokens.Json.Basic

/-!
# JSON text of a value

Text is written in ASCII: what lies beyond is escaped, above U+FFFF as a surrogate pair. The
keys of every object come in the order of their code points. Without an indent all stands on one
line; with one, each element has a line of its own.
-/

namespace PascalTokens

namespace Json

/-- A 16-bit unit as an escape. -/
def unitEscape (n : Nat) : Text := '\\' :: 'u' :: Text.hex 4 n

/-- How one character is written inside a JSON string. -/
def escapedChar (c : Char) : Text :=
  let n := c.toNat
  if c = '\x22' then ['\\', '\x22']
  else if c = '\\' then ['\\', '\\']
  else if c = '\n' then ['\\', 'n']
  else if c = '\r' then ['\\', 'r']
  else if c = '\t' then ['\\', 't']
  else if n = 0x0C then ['\\', 'f']
  else if n = 0x08 then ['\\', 'b']
  else if 0x20 ≤ n ∧ n < 0x7F then [c]
  else if n < 0x10000 then unitEscape n
  else
    unitEscape (0xD800 + (n - 0x10000) / 0x400) ++ unitEscape (0xDC00 + (n - 0x10000) % 0x400)

def printString (t : Text) : Text := '\x22' :: t.flatMap escapedChar ++ ['\x22']

def printDouble : Double → Text
  | .nan => "NaN".toList
  | .infinite negative => Double.signed negative "Infinity".toList
  | x => x.text

/-- Put a field before the first one with a greater key. -/
def insertField (key : Text) (v : Json) : Fields → Fields
  | [] => [(key, v)]
  | (k, w) :: rest =>
    if Text.le key k then (key, v) :: (k, w) :: rest else (k, w) :: insertField key v rest

/-- The line break and indentation before an element at depth `depth`. -/
def lineBreak (indent : Option Nat) (depth : Nat) : Text :=
  match indent with
  | none => []
  | some n => '\n' :: List.replicate (n * depth) ' '

/-- What stands between two elements at depth `depth`. -/
def separator (indent : Option Nat) (depth : Nat) : Text :=
  match indent with
  | none => ", ".toList
  | some _ => ',' :: lineBreak indent depth

/-- Elements between brackets; nothing stands between the brackets of an empty list. -/
def bracketed (indent : Option Nat) (depth : Nat) (opening closing : Char) :
    List Text → Text
  | [] => [opening, closing]
  | elements =>
    opening :: lineBreak indent (depth + 1) ++
      Text.join (separator indent (depth + 1)) elements ++ lineBreak indent depth ++ [closing]

mutual

/-- The same value with the fields of every object in the order of their keys. -/
def sorted : Json → Json
  | arr items => arr (sortedItems items)
  | obj fields => obj (sortedFields fields)
  | v => v

def sortedItems : List Json → List Json
  | [] => []
  | v :: rest => sorted v :: sortedItems rest

def sortedFields : Fields → Fields
  | [] => []
  | (key, v) :: rest => insertField key (sorted v) (sortedFields rest)

end

mutual

/-- Print a value at depth `depth`, fields in their own order. -/
def printAt (indent : Option Nat) (depth : Nat) : Json → Text
  | null => "null".toList
  | bool true => "true".toList
  | bool false => "false".toList
  | int n => Text.ofInt n
  | double x => printDouble x
  | str t => printString t
  | arr items => bracketed indent depth '[' ']' (printItems indent (depth + 1) items)
  | obj fields =>
    bracketed indent depth '\x7b' '\x7d' (printFields indent (depth + 1) fields)

def printItems (indent : Option Nat) (depth : Nat) : List Json → List Text
  | [] => []
  | v :: rest => printAt indent depth v :: printItems indent depth rest

def printFields (indent : Option Nat) (depth : Nat) : Fields → List Text
  | [] => []
  | (key, v) :: rest =>
    (printString key ++ ": ".toList ++ printAt indent depth v) :: printFields indent depth rest

end

/-- The JSON text of a value, with sorted keys. -/
def print (indent : Option Nat) (v : Json) : Text := printAt indent 0 (sorted v)

end Json

end PascalTokens
