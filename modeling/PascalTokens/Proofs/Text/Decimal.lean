import Mathlib.Data.List.TakeWhile
import PascalTokens.Proofs.Double.Rounding
import PascalTokens.Text.Basic

/-!
# Decimal digits of a number

The digits of a number begin with a zero only if it is zero, and the zeros at their end stand for
a power of ten.

## Main definitions

* `Text.AllDigits` says that a text holds decimal digits only.

## Main statements

* `Text.ofNat_mul_pow10` and `Text.exists_significant` add zeros at the end and take them away.
-/

namespace PascalTokens

namespace Text

variable {t : Text}

def AllDigits (t : Text) : Prop := ∀ c ∈ t, c.isDigit = true

theorem AllDigits.append {a b : Text} (ha : AllDigits a) (hb : AllDigits b) :
    AllDigits (a ++ b) := fun c hc => (List.mem_append.mp hc).elim (ha c) (hb c)

theorem AllDigits.of_subset {a : Text} (h : AllDigits t) (sub : a ⊆ t) : AllDigits a :=
  fun c hc => h c (sub hc)

theorem allDigits_zeros (k : Nat) : AllDigits (List.replicate k '0') := by
  intro c hc
  rw [List.eq_of_mem_replicate hc]
  rfl

theorem allDigits_ofNat (n : Nat) : AllDigits (ofNat n) :=
  fun _ hc => Nat.isDigit_of_mem_toDigits (by decide) (by decide) hc

/-- The digits of a number are a single zero, or do not begin with one. -/
theorem ofNat_head (n : Nat) : n = 0 ∨ ∃ c t, ofNat n = c :: t ∧ c ≠ '0' := by
  induction n using Nat.strongRecOn with
  | ind n ih =>
    rw [ofNat, Nat.toDigits_eq_if (by decide)]
    split
    case isTrue single =>
      have : ∀ d < 10, d ≠ 0 → Nat.digitChar d ≠ '0' := by decide
      exact or_iff_not_imp_left.mpr fun nonzero => ⟨_, [], rfl, this n single nonzero⟩
    case isFalse several =>
      obtain zero | ⟨c, t, shape, nonzero⟩ := ih (n / 10) (by omega)
      · omega
      · rw [ofNat] at shape
        exact .inr ⟨c, t ++ [Nat.digitChar (n % 10)], by rw [shape]; rfl, nonzero⟩

/-- Dropping a run at the end leaves what stands before the run. -/
theorem exists_dropEndWhile (c : Char) (t : Text) :
    ∃ k, t = dropEndWhile (· = c) t ++ List.replicate k c := by
  refine ⟨(t.reverse.takeWhile (· = c)).length, ?_⟩
  have run : t.reverse.takeWhile (· = c) =
      List.replicate (t.reverse.takeWhile (· = c)).length c := by
    refine List.eq_replicate_of_mem fun d hd => ?_
    simpa using List.mem_takeWhile_imp hd
  have parts := congrArg List.reverse
    (List.takeWhile_append_dropWhile (p := (· = c)) (l := t.reverse))
  rw [List.reverse_append, List.reverse_reverse, run, List.reverse_replicate] at parts
  exact parts.symm

/-- Multiplying by a power of ten writes zeros at the end. -/
theorem ofNat_mul_pow10 {d : Nat} (hd : d ≠ 0) (k : Nat) :
    ofNat (d * pow10 k) = ofNat d ++ List.replicate k '0' := by
  induction k with
  | zero => simp [pow10]
  | succ k ih =>
    have positive : 0 < d * pow10 k := Nat.mul_pos (Nat.pos_of_ne_zero hd) (pow10_pos k)
    calc ofNat (d * pow10 (k + 1))
        = Nat.toDigits 10 (10 * (d * pow10 k) + 0) := by
          rw [ofNat, Nat.add_zero, pow10_add, Nat.mul_comm 10, Nat.mul_assoc]
          rfl
      _ = ofNat (d * pow10 k) ++ ['0'] :=
          (Nat.toDigits_append_toDigits (by decide) positive (by decide)).symm
      _ = ofNat d ++ List.replicate (k + 1) '0' := by
          rw [ih, List.append_assoc, ← List.replicate_succ']

/-- The digits of a positive number without the zeros at the end, and what these are worth. -/
theorem exists_significant {d : Nat} (hd : d ≠ 0) :
    ∃ c t zeros, dropEndWhile (· = '0') (ofNat d) = c :: t ∧ c ≠ '0' ∧ AllDigits (c :: t) ∧
      (ofNat d).length = (c :: t).length + zeros ∧
      Nat.ofDigitChars 10 (c :: t) 0 * pow10 zeros = d := by
  obtain ⟨zeros, shape⟩ := exists_dropEndWhile '0' (ofNat d)
  generalize dropEndWhile (· = '0') (ofNat d) = kept at shape ⊢
  have worth : Nat.ofDigitChars 10 kept 0 * pow10 zeros = d := by
    have spelled := congrArg (Nat.ofDigitChars 10 · 0) shape
    simp only [ofNat, Nat.ofDigitChars_ten_toDigits, Nat.ofDigitChars_append,
      Nat.ofDigitChars_replicate_zero] at spelled
    rw [spelled, Nat.mul_comm]
    rfl
  obtain ⟨c, t, rfl⟩ := List.exists_cons_of_ne_nil (l := kept) (by
    rintro rfl
    exact hd (by simpa using worth.symm))
  obtain zero | ⟨first, others, head, nonzero⟩ := ofNat_head d
  · exact absurd zero hd
  have digits := allDigits_ofNat d
  rw [shape] at digits
  rw [shape, List.cons_append, List.cons.injEq] at head
  refine ⟨c, t, zeros, rfl, head.1 ▸ nonzero, digits.of_subset (by simp), ?_, worth⟩
  rw [shape, List.length_append, List.length_replicate]

end Text

end PascalTokens
