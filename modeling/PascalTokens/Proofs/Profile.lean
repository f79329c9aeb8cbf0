import Mathlib.Algebra.Ring.Int.Defs
import Mathlib.Data.List.Perm.Basic
import PascalTokens.Profile

/-!
# Charges

A charge is what one analysis adds to a profile, or one record made by hand. Charges may be added
in any order, and the counters of a profile that began at zero are the sums over its charges.

## Main definitions

* `Counters.chargeAll` adds charges one after the other.
* `Counters.total` sums charges field by field.

## Main statements

* `Counters.chargeAll_perm`: the order of the charges does not matter.
* `Counters.total_append`: adding charges to a sum of charges gives the sum of all of them.
-/

namespace PascalTokens

structure Charge where
  sourceLength : Int
  tokenCount : Int
  failed : Bool
  deriving DecidableEq, Repr

/-- An analysis is charged with the characters of its source and the tokens of its result. -/
def Charge.ofAnalysis (source : Text) (a : Analysis) : Charge :=
  ⟨source.length, a.tokenCount, a.isFailure⟩

namespace Counters

def charge (c : Counters) (x : Charge) : Counters := c.record x.sourceLength x.tokenCount x.failed

def chargeAll (c : Counters) (xs : List Charge) : Counters := xs.foldl charge c

/-- The sums over charges, and how many there are. -/
def total (xs : List Charge) : Counters where
  sourceLength := (xs.map Charge.sourceLength).sum
  tokenCount := (xs.map Charge.tokenCount).sum
  analyses := xs.length
  failures := xs.countP Charge.failed

theorem recordAnalysis_eq_charge (c : Counters) (source : Text) (a : Analysis) :
    c.recordAnalysis source a = c.charge (.ofAnalysis source a) := rfl

theorem charge_right_comm (c : Counters) (x y : Charge) :
    (c.charge x).charge y = (c.charge y).charge x := by
  unfold charge record
  cases x.failed <;> cases y.failed <;> simp [Int.add_right_comm]

instance : RightCommutative charge := ⟨charge_right_comm⟩

theorem chargeAll_cons (c : Counters) (x : Charge) (xs : List Charge) :
    c.chargeAll (x :: xs) = (c.charge x).chargeAll xs := rfl

theorem chargeAll_perm (c : Counters) {xs ys : List Charge} (h : xs.Perm ys) :
    c.chargeAll xs = c.chargeAll ys := h.foldl_eq c

/-- A charge may as well come before the others. -/
theorem charge_chargeAll (c : Counters) (x : Charge) (xs : List Charge) :
    (c.chargeAll xs).charge x = c.chargeAll (x :: xs) := by
  have hlast : (c.chargeAll xs).charge x = c.chargeAll (xs ++ [x]) := by
    simp [chargeAll]
  exact hlast.trans (c.chargeAll_perm List.perm_append_comm)

theorem charge_total (xs : List Charge) (x : Charge) : (total xs).charge x = total (xs ++ [x]) := by
  unfold total charge record
  cases h : x.failed <;> simp [h]

theorem total_append (xs ys : List Charge) : total (xs ++ ys) = (total xs).chargeAll ys := by
  induction ys generalizing xs with
  | nil => simp [chargeAll]
  | cons y ys ih =>
    rw [chargeAll_cons, charge_total, ← ih, List.append_assoc, List.singleton_append]

end Counters

end PascalTokens
