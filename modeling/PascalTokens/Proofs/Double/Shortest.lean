import PascalTokens.Double.Decimal
import PascalTokens.Proofs.Double.Rounding
import PascalTokens.Proofs.Text.Decimal

/-!
# The shortest decimal

Trailing zeros that the exponent takes up change nothing in what a decimal reads as, the sign of
a decimal is the sign of what it reads as, and the shortest decimal of a rank reads as that rank.

## Main statements

* `Double.ofDecimal_mul_pow10` moves zeros between the digits and the exponent.
* `Double.ofDecimal_shortest` reads the shortest decimal back.
-/

namespace PascalTokens

namespace Double

theorem digitCount_mul_pow10 {d : Nat} (hd : d ≠ 0) (k : Nat) :
    digitCount (d * pow10 k) = digitCount d + k := by
  have := congrArg List.length (Text.ofNat_mul_pow10 hd k)
  rwa [List.length_append, List.length_replicate] at this

theorem digitCount_le {n k : Nat} (hk : 0 < k) (h : n < pow10 k) : digitCount n ≤ k :=
  (Nat.length_toDigits_le_iff (by decide) hk).mpr h

theorem lt_digitCount {n k : Nat} (h : pow10 k ≤ n) : k < digitCount n := by
  rcases Nat.eq_zero_or_pos k with rfl | hk
  · exact Nat.length_toDigits_pos
  · refine Nat.lt_of_not_le fun few => ?_
    exact Nat.not_lt.mpr h ((Nat.length_toDigits_le_iff (by decide) hk).mp few)

/-! ## Reading a decimal -/

theorem ofRank_inj {negative : Bool} {rank other : Nat} (h : rank < rankLimit)
    (same : ofRank negative other = ofRank negative rank) : other = rank := by
  rw [ofRank, ofRank, dif_pos h] at same
  split at same
  · simpa using same
  · cases same

/-- Both directions of the exponent in one ratio. -/
theorem ofDecimal_eq (negative : Bool) {d : Nat} (hd : d ≠ 0) (e : Int) :
    ofDecimal negative d e =
      if digitCount d + e < -330 then ofRank negative 0
      else if 330 < digitCount d + e then infinite negative
      else ofRatio negative (d * pow10 e.toNat) (pow10 (-e).toNat) := by
  have ratio : (if 0 ≤ e then ofRatio negative (d * pow10 e.toNat) 1
      else ofRatio negative d (pow10 (-e).toNat)) =
      ofRatio negative (d * pow10 e.toNat) (pow10 (-e).toNat) := by
    split
    case isTrue up => rw [show (-e).toNat = 0 by omega]; rfl
    case isFalse down => rw [show e.toNat = 0 by omega, show pow10 0 = 1 from rfl, Nat.mul_one]
  simp only [ofDecimal, hd, false_or, ratio]

/-- Zeros at the end of the digits may move to the exponent. -/
theorem ofDecimal_mul_pow10 (negative : Bool) {d : Nat} (hd : d ≠ 0) (e : Int) (k : Nat) :
    ofDecimal negative (d * pow10 k) (e - k) = ofDecimal negative d e := by
  have longer : d * pow10 k ≠ 0 := Nat.mul_ne_zero hd (Nat.ne_of_gt (pow10_pos k))
  have magnitude : ((digitCount d + k : Nat) : Int) + (e - k) = digitCount d + e := by omega
  have cross : d * pow10 k * pow10 (e - k).toNat * pow10 (-e).toNat =
      d * pow10 e.toNat * pow10 (-(e - k)).toNat := by
    have powers : k + (e - k).toNat + (-e).toNat = e.toNat + (-(e - k)).toNat := by omega
    simp only [Nat.mul_assoc, ← pow10_add]
    rw [powers]
  rw [ofDecimal_eq negative longer, ofDecimal_eq negative hd, digitCount_mul_pow10 hd, magnitude,
    ofRatio, ofRatio, nearestRank_eq_of_cross (pow10_pos _) (pow10_pos _) cross]

/-- A decimal with a sign reads as the number with that sign. -/
theorem ofDecimal_eq_ofRank {d rank : Nat} {e : Int} (h : rank < rankLimit)
    (reads : ofDecimal false d e = ofRank false rank) (negative : Bool) :
    ofDecimal negative d e = ofRank negative rank := by
  have finite : infinite false ≠ ofRank false rank := by simp [ofRank, h]
  simp only [ofDecimal] at reads ⊢
  split at reads
  case isTrue small => rw [if_pos small, ofRank_inj h reads]
  case isFalse notSmall =>
    rw [if_neg notSmall]
    split at reads
    case isTrue => exact absurd reads finite
    case isFalse notLarge =>
      rw [if_neg notLarge]
      split at reads
      · rw [if_pos ‹_›, ofRatio, ofRank_inj h reads]
      · rw [if_neg ‹_›, ofRatio, ofRank_inj h reads]

/-! ## The shortest decimal -/

theorem ofDecimal_of_readsBack? {rank d : Nat} {e : Int} (h : readsBack? rank e = some d) :
    ofDecimal false d e = ofRank false rank := by
  simp only [readsBack?] at h
  grind

theorem scaledRank_pos {rank : Nat} (h : 0 < rank) : 0 < scaledRank rank := by
  rw [scaledRank]
  split
  · exact h
  · exact Nat.mul_pos (Nat.add_pos_left (pow2_pos 52) _) (pow2_pos _)

theorem scaledRank_lt {rank : Nat} (h : rank < rankLimit) : scaledRank rank < pow2 2098 := by
  have digits := Nat.mod_lt rank (pow2_pos 52)
  have row : rank / pow2 52 < 2047 := Nat.div_lt_of_lt_mul (by rwa [Nat.mul_comm])
  rw [scaledRank]
  split
  case isTrue subnormal =>
    exact Nat.lt_of_lt_of_le subnormal (pow2_le_pow2 (by decide))
  case isFalse =>
    calc (pow2 52 + rank % pow2 52) * pow2 (rank / pow2 52 - 1)
        < pow2 53 * pow2 (rank / pow2 52 - 1) := by
          refine Nat.mul_lt_mul_of_pos_right ?_ (pow2_pos _)
          simp only [pow2, Nat.pow_eq] at digits ⊢
          omega
      _ ≤ pow2 53 * pow2 2045 :=
          Nat.mul_le_mul_left _ (pow2_le_pow2 (by omega))
      _ = pow2 2098 := (pow2_add 53 2045).symm

/-- All digits of the smallest positive number, and how many there are. -/
theorem pow5_bounds : pow5 1074 * scale = pow10 1074 ∧ pow10 743 ≤ pow5 1074 ∧
    pow2 2098 * pow5 1074 < pow10 1404 := by
  decide +kernel

/-- All digits of a rank read back. -/
theorem ofDecimal_allDigits {rank : Nat} (positive : 0 < rank) (h : rank < rankLimit) :
    ofDecimal false (scaledRank rank * pow5 1074) (-1074) = ofRank false rank := by
  obtain ⟨unit, low, high⟩ := pow5_bounds
  have many := Nat.mul_le_mul (scaledRank_pos positive) low
  have few := Nat.mul_le_mul_right (pow5 1074) (Nat.le_of_lt (scaledRank_lt h))
  generalize pow5 1074 = five at *
  have nonzero : scaledRank rank * five ≠ 0 := by
    have := pow10_pos 743
    omega
  have long : 743 < digitCount (scaledRank rank * five) :=
    lt_digitCount (by omega)
  have short : digitCount (scaledRank rank * five) ≤ 1404 :=
    digitCount_le (by decide) (Nat.lt_of_le_of_lt few high)
  have cross : scaledRank rank * five * pow10 (-1074 : Int).toNat * scale =
      scaledRank rank * pow10 (-(-1074 : Int)).toNat := by
    rw [show (-1074 : Int).toNat = 0 from rfl, show (-(-1074 : Int)).toNat = 1074 from rfl,
      show pow10 0 = 1 from rfl, Nat.mul_one, Nat.mul_assoc, unit]
  rw [ofDecimal_eq false nonzero, if_neg (by omega), if_neg (by omega), ofRatio,
    nearestRank_eq_of_cross (pow10_pos _) scale_pos cross, nearestRank_scaledRank]

theorem ofDecimal_shortestFrom {rank : Nat} (positive : 0 < rank) (h : rank < rankLimit)
    (count budget : Nat) :
    ofDecimal false (shortestFrom rank count budget).1 (shortestFrom rank count budget).2 =
      ofRank false rank := by
  induction budget generalizing count with
  | zero => exact ofDecimal_allDigits positive h
  | succ budget ih =>
    rw [shortestFrom]
    split
    case h_1 digits found => exact ofDecimal_of_readsBack? found
    case h_2 => exact ih (count + 1)

/-- The shortest decimal of a finite number, with its sign, reads back. -/
theorem ofDecimal_shortest {rank : Nat} (positive : 0 < rank) (h : rank < rankLimit)
    (negative : Bool) :
    ofDecimal negative (shortest rank).1 (shortest rank).2 = ofRank negative rank :=
  ofDecimal_eq_ofRank h (ofDecimal_shortestFrom positive h 0 17) negative

theorem shortest_ne_zero {rank : Nat} (positive : 0 < rank) (h : rank < rankLimit) :
    (shortest rank).1 ≠ 0 := by
  intro zero
  have reads := ofDecimal_shortest positive h false
  rw [ofDecimal, if_pos (.inl zero)] at reads
  exact Nat.ne_of_gt positive (ofRank_inj h reads).symm

end Double

end PascalTokens
