import PascalTokens.Double.Basic

/-!
# Rounding to a double

Rounding a ratio depends on the value of the ratio alone, and the value of a double is its own
rounding.

## Main statements

* `Double.nearestRank_eq_of_cross` says the first, for two ratios with equal cross products.
* `Double.nearestRank_scaledRank` says the second, of the rank.
-/

namespace PascalTokens

theorem pow2_pos (n : Nat) : 0 < pow2 n := Nat.pow_pos (by decide)

theorem pow2_add (m n : Nat) : pow2 (m + n) = pow2 m * pow2 n := Nat.pow_add 2 m n

theorem pow2_le_pow2 {m n : Nat} (h : m ≤ n) : pow2 m ≤ pow2 n :=
  Nat.pow_le_pow_right (by decide) h

theorem pow10_pos (n : Nat) : 0 < pow10 n := Nat.pow_pos (by decide)

theorem pow10_add (m n : Nat) : pow10 (m + n) = pow10 m * pow10 n := Nat.pow_add 10 m n

/-! ## Quotients -/

theorem roundDiv_mul_left {k : Nat} (hk : 0 < k) (num den : Nat) :
    roundDiv (k * num) (k * den) = roundDiv num den := by
  have below : 2 * (k * (num % den)) < k * den ↔ 2 * (num % den) < den := by
    rw [Nat.mul_left_comm]
    exact Nat.mul_lt_mul_left hk
  have above : k * den < 2 * (k * (num % den)) ↔ den < 2 * (num % den) := by
    rw [Nat.mul_left_comm]
    exact Nat.mul_lt_mul_left hk
  simp only [roundDiv, Nat.mul_div_mul_left _ _ hk, Nat.mul_mod_mul_left, below, above]

theorem roundDiv_mul_self {den : Nat} (h : 0 < den) (n : Nat) : roundDiv (n * den) den = n := by
  simp [roundDiv, Nat.mul_div_cancel _ h, h]

namespace Double

/-! ## Ratios -/

theorem scale_pos : 0 < scale := by
  rw [scale_eq]
  exact pow2_pos 1074

theorem nearestRank_mul_left {k : Nat} (hk : 0 < k) (num den : Nat) :
    nearestRank (k * num) (k * den) = nearestRank num den := by
  simp only [nearestRank, Nat.mul_assoc, Nat.mul_div_mul_left _ _ hk, roundDiv_mul_left hk]

/-- The nearest rank depends on the value of the ratio alone. -/
theorem nearestRank_eq_of_cross {num den num' den' : Nat} (h : 0 < den) (h' : 0 < den')
    (cross : num * den' = num' * den) : nearestRank num den = nearestRank num' den' := by
  calc nearestRank num den
      = nearestRank (den' * num) (den' * den) := (nearestRank_mul_left h' num den).symm
    _ = nearestRank (den * num') (den * den') := by
        rw [Nat.mul_comm den' num, cross, Nat.mul_comm num' den, Nat.mul_comm den' den]
    _ = nearestRank num' den' := nearestRank_mul_left h num' den'

/-! ## Values of ranks -/

theorem log2_mul_pow2 {m : Nat} (hm : m ≠ 0) (k : Nat) :
    Nat.log2 (m * pow2 k) = Nat.log2 m + k := by
  have unit := pow2_pos k
  have bounds := (Nat.log2_eq_iff hm).mp rfl
  have low := Nat.mul_le_mul_right (pow2 k) bounds.1
  have high := Nat.mul_lt_mul_of_pos_right bounds.2 unit
  simp only [pow2, Nat.pow_eq, ← Nat.pow_add] at low high
  rw [Nat.log2_eq_iff (Nat.mul_ne_zero hm (by omega)), Nat.add_right_comm (Nat.log2 m) k 1]
  exact ⟨low, high⟩

/-- The unit of a rank doubles with each row of normal numbers after the first. -/
theorem log2_scaledRank (rank : Nat) :
    Nat.log2 (scaledRank rank) - 52 = rank / pow2 52 - 1 := by
  rcases Nat.lt_or_ge rank (pow2 52) with subnormal | normal
  · rw [scaledRank, if_pos subnormal, Nat.div_eq_of_lt subnormal]
    rcases Nat.eq_zero_or_pos rank with rfl | positive
    · simp
    · have := (Nat.log2_lt (Nat.ne_of_gt positive)).mpr subnormal
      omega
  · have digits := Nat.mod_lt rank (pow2_pos 52)
    have significand : Nat.log2 (pow2 52 + rank % pow2 52) = 52 := by
      simp only [pow2, Nat.pow_eq] at digits ⊢
      rw [Nat.log2_eq_iff (by omega)]
      omega
    have := pow2_pos 52
    rw [scaledRank, if_neg (Nat.not_lt.mpr normal), log2_mul_pow2 (by omega), significand]
    omega

/-- A finite value is its own rounding. -/
theorem nearestRank_scaledRank (rank : Nat) : nearestRank (scaledRank rank) scale = rank := by
  have unit := pow2_pos (rank / pow2 52 - 1)
  rw [nearestRank, Nat.mul_div_cancel _ scale_pos, log2_scaledRank,
    Nat.mul_comm _ scale, roundDiv_mul_left scale_pos, scaledRank]
  split
  case isTrue subnormal =>
    rw [Nat.div_eq_of_lt subnormal]
    simpa [pow2] using roundDiv_mul_self Nat.one_pos rank
  case isFalse normal =>
    rw [roundDiv_mul_self unit]
    have row := Nat.div_add_mod rank (pow2 52)
    have : 0 < rank / pow2 52 := Nat.div_pos (by omega) (pow2_pos 52)
    obtain ⟨q, hq⟩ : ∃ q, rank / pow2 52 = q + 1 := ⟨rank / pow2 52 - 1, by omega⟩
    rw [hq] at row ⊢
    rw [Nat.mul_add, Nat.mul_one, Nat.mul_comm] at row
    simp only [Nat.add_sub_cancel]
    omega

end Double

end PascalTokens
