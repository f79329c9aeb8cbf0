import PascalTokens.Text.Utf8

/-!
# Decoding what was encoded

The bytes of a character lead the decoder from one character boundary to the next, and there it
gives the character. Bytes that follow a lead byte are met one at a time, each in the range that is
left for it.

## Main statements

* `Utf8.decodeFrom_encodeChar`: the bytes of one character, whatever comes behind them.
* `Utf8.decode_encode`: a text is read back from its bytes.
-/

namespace PascalTokens

namespace Utf8

variable {n position : Nat} {s : Sequence}

/-! ## One byte -/

theorem decodeFrom_single (h : n < 0x80) (rest : Bytes) :
    decodeFrom position none (UInt8.ofNat n :: rest) =
      (decodeFrom (position + 1) none rest).map (Char.ofNat n :: ·) := by
  have hbyte : n < 256 := by omega
  rw [decodeFrom, UInt8.toNat_ofNat_of_lt' hbyte]
  simp only [if_pos h]

theorem decodeFrom_lead (hlow : 0x80 ≤ n) (hhigh : n < 256) (h : lead? position n = some s)
    (rest : Bytes) :
    decodeFrom position none (UInt8.ofNat n :: rest) = decodeFrom (position + 1) (some s) rest := by
  rw [decodeFrom, UInt8.toNat_ofNat_of_lt' hhigh]
  simp only [if_neg (Nat.not_lt.2 hlow), h]

/-- A byte inside a sequence, in the range that is left for it, adds six bits. -/
theorem decodeFrom_further {start payload further low high : Nat} (hlow : low ≤ 0x80 + n)
    (hhigh : 0x80 + n ≤ high) (h : n < 0x40) (rest : Bytes) :
    decodeFrom position (some ⟨start, payload, further + 1, low, high⟩)
        (UInt8.ofNat (0x80 + n) :: rest) =
      decodeFrom (position + 1) (some ⟨start, payload * 0x40 + n, further, 0x80, 0xBF⟩) rest := by
  have hbyte : 0x80 + n < 256 := by omega
  have hbits : (0x80 + n) % 0x40 = n := by omega
  rw [decodeFrom, UInt8.toNat_ofNat_of_lt' hbyte]
  simp only [if_neg (by omega : ¬(0x80 + n < low ∨ high < 0x80 + n)), hbits]

/-- The last byte of a sequence gives its character. -/
theorem decodeFrom_last {start payload low high : Nat} (hlow : low ≤ 0x80 + n)
    (hhigh : 0x80 + n ≤ high) (h : n < 0x40) (rest : Bytes) :
    decodeFrom position (some ⟨start, payload, 0, low, high⟩) (UInt8.ofNat (0x80 + n) :: rest) =
      (decodeFrom (position + 1) none rest).map (Char.ofNat (payload * 0x40 + n) :: ·) := by
  have hbyte : 0x80 + n < 256 := by omega
  have hbits : (0x80 + n) % 0x40 = n := by omega
  rw [decodeFrom, UInt8.toNat_ofNat_of_lt' hbyte]
  simp only [if_neg (by omega : ¬(0x80 + n < low ∨ high < 0x80 + n)), hbits]

/-! ## Lead bytes -/

theorem lead?_two (position : Nat) (hlow : 0x80 ≤ n) (hhigh : n < 0x800) :
    lead? position (0xC0 + n / 0x40) = some ⟨position, n / 0x40, 0, 0x80, 0xBF⟩ := by
  unfold lead?
  rw [if_neg (by omega), if_pos (by omega), Nat.add_sub_cancel_left]

/-- The lead byte of three leaves out the surrogates, and what two bytes can say. -/
theorem lead?_three (position : Nat) (hlow : 0x800 ≤ n) (hhigh : n < 0x10000)
    (hvalid : n < 0xD800 ∨ 0xDFFF < n) :
    ∃ low high, lead? position (0xE0 + n / 0x1000) = some ⟨position, n / 0x1000, 1, low, high⟩ ∧
      low ≤ 0x80 + n / 0x40 % 0x40 ∧ 0x80 + n / 0x40 % 0x40 ≤ high := by
  unfold lead?
  rw [if_neg (by omega), if_neg (by omega)]
  by_cases hfirst : n / 0x1000 = 0
  · exact ⟨0xA0, 0xBF, by simp [hfirst], by omega, by omega⟩
  rw [if_neg (by omega)]
  by_cases hsurrogate : n / 0x1000 = 0xD
  · exact ⟨0x80, 0x9F, by simp [hsurrogate], by omega, by omega⟩
  rw [if_neg (by omega), if_pos (by omega), Nat.add_sub_cancel_left]
  exact ⟨0x80, 0xBF, rfl, by omega, by omega⟩

/-- The lead byte of four leaves out what is beyond U+10FFFF, and what three bytes can say. -/
theorem lead?_four (position : Nat) (hlow : 0x10000 ≤ n) (hhigh : n < 0x110000) :
    ∃ low high, lead? position (0xF0 + n / 0x40000) = some ⟨position, n / 0x40000, 2, low, high⟩ ∧
      low ≤ 0x80 + n / 0x1000 % 0x40 ∧ 0x80 + n / 0x1000 % 0x40 ≤ high := by
  unfold lead?
  rw [if_neg (by omega), if_neg (by omega), if_neg (by omega), if_neg (by omega),
    if_neg (by omega)]
  by_cases hfirst : n / 0x40000 = 0
  · exact ⟨0x90, 0xBF, by simp [hfirst], by omega, by omega⟩
  rw [if_neg (by omega)]
  by_cases hlast : n / 0x40000 = 4
  · exact ⟨0x80, 0x8F, by simp [hlast], by omega, by omega⟩
  rw [if_pos (by omega), Nat.add_sub_cancel_left]
  exact ⟨0x80, 0xBF, rfl, by omega, by omega⟩

/-! ## Characters and texts -/

theorem toNat_valid (c : Char) :
    (c.toNat < 0xD800 ∨ 0xDFFF < c.toNat) ∧ c.toNat < 0x110000 := by
  have hvalid : c.toNat < 0xD800 ∨ 0xDFFF < c.toNat ∧ c.toNat < 0x110000 := c.valid
  omega

theorem decodeFrom_encodeChar (position : Nat) (c : Char) (rest : Bytes) :
    decodeFrom position none (encodeChar c ++ rest) =
      (decodeFrom (position + (encodeChar c).length) none rest).map (c :: ·) := by
  obtain ⟨hvalid, hbound⟩ := toNat_valid c
  have hc : Char.ofNat c.toNat = c := Char.ofNat_toNat c
  unfold encodeChar
  generalize c.toNat = n at hvalid hbound hc
  dsimp only
  split
  · next hone => rw [List.singleton_append, decodeFrom_single hone, hc]; rfl
  split
  · next hone htwo =>
    have hpayload : n / 0x40 * 0x40 + n % 0x40 = n := by omega
    rw [List.cons_append, decodeFrom_lead (by omega) (by omega) (lead?_two _ (by omega) htwo),
      List.singleton_append, decodeFrom_last (by omega) (by omega) (by omega), hpayload, hc]
    rfl
  split
  · next hone htwo hthree =>
    have hpayload : (n / 0x1000 * 0x40 + n / 0x40 % 0x40) * 0x40 + n % 0x40 = n := by omega
    obtain ⟨low, high, hlead, hlow, hhigh⟩ := lead?_three position (by omega) hthree hvalid
    rw [List.cons_append, decodeFrom_lead (by omega) (by omega) hlead, List.cons_append,
      decodeFrom_further hlow hhigh (by omega), List.singleton_append,
      decodeFrom_last (by omega) (by omega) (by omega), hpayload, hc]
    rfl
  · next hone htwo hthree =>
    have hpayload :
        ((n / 0x40000 * 0x40 + n / 0x1000 % 0x40) * 0x40 + n / 0x40 % 0x40) * 0x40 + n % 0x40 =
          n := by omega
    obtain ⟨low, high, hlead, hlow, hhigh⟩ := lead?_four position (by omega) hbound
    rw [List.cons_append, decodeFrom_lead (by omega) (by omega) hlead, List.cons_append,
      decodeFrom_further hlow hhigh (by omega), List.cons_append,
      decodeFrom_further (by omega) (by omega) (by omega), List.singleton_append,
      decodeFrom_last (by omega) (by omega) (by omega), hpayload, hc]
    rfl

theorem decodeFrom_encode (position : Nat) (t : Text) :
    decodeFrom position none (encode t) = .ok t := by
  induction t generalizing position with
  | nil => rfl
  | cons c t ih =>
    have hencode : encode (c :: t) = encodeChar c ++ encode t := List.flatMap_cons
    rw [hencode, decodeFrom_encodeChar, ih]
    rfl

/-- A text is read back from its bytes. -/
theorem decode_encode (t : Text) : decode (encode t) = .ok t := decodeFrom_encode 0 t

end Utf8

end PascalTokens
