import PascalTokens.Double.Basic
import PascalTokens.Text.Basic

/-!
# JSON values

Integers are exact and stay apart from doubles. The fields of an object keep the order in which
their keys first appeared; a later value for the same key replaces the earlier one.

## Main definitions

* `Json.get?` looks a key up in an object.
* `Json.isTruthy` is false for null, false, zeros and everything empty.
* `Json.sameValue` compares by value: numbers and truth values as exact numbers, objects without
  regard to order.
-/

namespace PascalTokens

inductive Json where
  | null
  | bool (b : Bool)
  | int (n : Int)
  | double (x : Double)
  | str (t : Text)
  | arr (items : List Json)
  | obj (fields : List (Text × Json))
  deriving Inhabited

namespace Json

abbrev Fields := List (Text × Json)

/-- Give `key` the value `v`: in its place if the key is there, at the end otherwise. -/
def setField (key : Text) (v : Json) : Fields → Fields
  | [] => [(key, v)]
  | (k, w) :: rest => if k = key then (k, v) :: rest else (k, w) :: setField key v rest

def fieldOf (key : Text) : Fields → Option Json
  | [] => none
  | (k, v) :: rest => if k = key then some v else fieldOf key rest

/-- The value of `key`, if this is an object that has it. -/
def get? (key : Text) : Json → Option Json
  | obj fields => fieldOf key fields
  | _ => none

def isTruthy : Json → Bool
  | null => false
  | bool b => b
  | int n => n ≠ 0
  | double x => !x.isZero
  | str t => !t.isEmpty
  | arr items => !items.isEmpty
  | obj fields => !fields.isEmpty

/-- The integer a value counts as in a comparison. -/
def asInt? : Json → Option Int
  | bool b => some (if b then 1 else 0)
  | int n => some n
  | _ => none

/-- Comparison of two values that are not both arrays and not both objects. -/
def sameScalar (v w : Json) : Bool :=
  match asInt? v, asInt? w with
  | some m, some n => m = n
  | some m, none => match w with
    | double y => y.isInt m
    | _ => false
  | none, some n => match v with
    | double x => x.isInt n
    | _ => false
  | none, none => match v, w with
    | null, null => true
    | double x, double y => x.sameValue y
    | str s, str t => s = t
    | _, _ => false

mutual

/-- Equality of values. -/
def sameValue : Json → Json → Bool
  | arr xs, arr ys => sameItems xs ys
  | obj fields, obj others => fields.length = others.length && sameFields fields others
  | v, w => sameScalar v w

def sameItems : List Json → List Json → Bool
  | [], [] => true
  | x :: xs, y :: ys => sameValue x y && sameItems xs ys
  | _, _ => false

/-- Every field has a field of the same key and value among `others`. -/
def sameFields : Fields → Fields → Bool
  | [], _ => true
  | (key, v) :: rest, others =>
    (match fieldOf key others with
      | some w => sameValue v w
      | none => false) && sameFields rest others

end

end Json

end PascalTokens
