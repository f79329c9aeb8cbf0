import Mathlib.Data.List.TakeWhile
import PascalTokens.Proofs.Text.Utf8
import PascalTokens.Text.Codec

/-!
# What codecs keep

A codec encodes the texts whose characters it reaches, and no others, and what it has encoded it
decodes to the same text.

## Main statements

* `Codec.exists_encode_iff`: which texts a codec can encode.
* `Codec.decode_of_encode`: what was encoded is read back.
-/

namespace PascalTokens

theorem Text.drop_length_takeWhile {α : Type} (p : α → Bool) (l : List α) :
    l.drop (l.takeWhile p).length = l.dropWhile p := by
  have h : (l.takeWhile p ++ l.dropWhile p).drop (l.takeWhile p).length = l.dropWhile p :=
    List.drop_left
  rwa [List.takeWhile_append_dropWhile] at h

namespace Codec

variable {codec : Codec} {limit : Nat} {t : Text} {bytes : Bytes}

/-- The codec has bytes for the character. -/
def Reaches (codec : Codec) (c : Char) : Prop :=
  ∀ limit, codec.limit? = some limit → c.toNat < limit

theorem ofName?_name (codec : Codec) : ofName? codec.name = some codec := by
  cases codec <;> decide

theorem limit_le (h : codec.limit? = some limit) : limit ≤ 0x100 := by
  cases codec <;> cases h <;> decide

/-- A codec without a limit is UTF-8. -/
theorem encode_of_limit?_none (h : codec.limit? = none) (t : Text) :
    codec.encode t = .ok (Utf8.encode t) := by
  rw [encode, h]

theorem decode_utf8_eq_ok_iff : utf8.decode bytes = .ok t ↔ Utf8.decode bytes = .ok t := by
  have hlimit : utf8.limit? = none := rfl
  rw [decode, hlimit]
  cases Utf8.decode bytes <;> simp

/-- A one-byte codec writes each character as its code point, if all of them are small enough. -/
theorem encode_eq_ok_iff (h : codec.limit? = some limit) :
    codec.encode t = .ok bytes ↔
      (∀ c ∈ t, c.toNat < limit) ∧ bytes = t.map fun c => UInt8.ofNat c.toNat := by
  have hall : t.dropWhile (fun c => c.toNat < limit) = [] ↔ ∀ c ∈ t, c.toNat < limit := by
    simp [List.dropWhile_eq_nil_iff]
  rw [encode, h, ← hall]
  simp only [Text.drop_length_takeWhile]
  cases t.dropWhile fun c => c.toNat < limit with
  | nil => simp [eq_comm]
  | cons c rest => simp

theorem exists_encode_iff :
    (∃ bytes, codec.encode t = .ok bytes) ↔ ∀ c ∈ t, codec.Reaches c := by
  cases h : codec.limit? with
  | none => simp [encode_of_limit?_none h, Reaches, h]
  | some limit => simp [encode_eq_ok_iff h, Reaches, h]

/-- What was encoded is read back. -/
theorem decode_of_encode (h : codec.encode t = .ok bytes) : codec.decode bytes = .ok t := by
  cases hlimit : codec.limit? with
  | none =>
    rw [encode_of_limit?_none hlimit] at h
    obtain rfl := Except.ok.inj h
    rw [decode, hlimit, Utf8.decode_encode]
  | some limit =>
    obtain ⟨hsmall, rfl⟩ := (encode_eq_ok_iff hlimit).1 h
    have hbyte : ∀ c ∈ t, (UInt8.ofNat c.toNat).toNat = c.toNat := by
      intro c hc
      have hlt : c.toNat < 256 := Nat.lt_of_lt_of_le (hsmall c hc) (limit_le hlimit)
      exact UInt8.toNat_ofNat_of_lt' hlt
    have hgood :
        (t.map fun c => UInt8.ofNat c.toNat).dropWhile (fun b => b.toNat < limit) = [] := by
      rw [List.dropWhile_eq_nil_iff]
      intro b hb
      obtain ⟨c, hc, rfl⟩ := List.mem_map.1 hb
      simpa [hbyte c hc] using hsmall c hc
    have hchars : (t.map fun c => UInt8.ofNat c.toNat).map (fun b => Char.ofNat b.toNat) = t := by
      rw [List.map_map]
      refine (List.map_congr_left fun c hc => ?_).trans t.map_id
      simp [hbyte c hc]
    rw [decode, hlimit]
    simp only [Text.drop_length_takeWhile, hgood, hchars]

end Codec

end PascalTokens
