import PascalTokens.Json.Printer
import PascalTokens.Json.Reader

/-!
# Strings in JSON text

A character is written as one or two 16-bit units, each in the form of itself or of an escape.
Reading gives the units, and pairs of them become characters again.

## Main definitions

* `Json.units` are the units of a character.

## Main statements

* `Json.readCodes_escapedChar` reads the units of one character.
* `Json.readString_escaped` reads a whole string up to its closing quote.
-/

namespace PascalTokens

namespace Json

/-- The 16-bit units of a character: two halves for one beyond U+FFFF. -/
def units (c : Char) : List Nat :=
  if c.toNat < 0x10000 then [c.toNat]
  else [0xD800 + (c.toNat - 0x10000) / 0x400, 0xDC00 + (c.toNat - 0x10000) % 0x400]

variable {c : Char} {t rest : Text} {n : Nat}

theorem hexValue?_hexDigit (n : Nat) : hexValue? (Text.hexDigit n) = some (n % 16) := by
  have : ∀ d < 16, hexValue? (Nat.digitChar d) = some d := by decide
  exact this (n % 16) (Nat.mod_lt n (by decide))

/-! ## Reading one character -/

theorem readCodes_plain (h : ¬ c.toNat < 0x20) (quote : c ≠ '\x22') (backslash : c ≠ '\\') :
    readCodes (c :: t) =
      (readCodes t).map fun (codes, rest) => (c.toNat :: codes, rest) := by
  rw [readCodes, if_neg (not_or.mpr ⟨h, backslash⟩)]
  · exact quote
  · exact fun _ _ _ _ _ same => absurd same backslash
  · exact fun _ _ same => absurd same backslash

theorem readCodes_short {e : Char} (he : e ≠ 'u') (h : shortEscape? e = some c) :
    readCodes ('\\' :: e :: t) =
      (readCodes t).map fun (codes, rest) => (c.toNat :: codes, rest) := by
  rw [readCodes, h]
  · cases readCodes t <;> rfl
  · exact fun _ _ _ _ _ same => absurd same he

theorem hexUnit?_hexDigit (h : n < 0x10000) :
    hexUnit? (Text.hexDigit (n / 16 / 16 / 16)) (Text.hexDigit (n / 16 / 16))
      (Text.hexDigit (n / 16)) (Text.hexDigit n) = some n := by
  have unit : (((n / 16 / 16 / 16 % 16) * 16 + n / 16 / 16 % 16) * 16 + n / 16 % 16) * 16 +
      n % 16 = n := by omega
  simp [hexUnit?, hexValue?_hexDigit, unit]

theorem readCodes_unitEscape (h : n < 0x10000) :
    readCodes (unitEscape n ++ t) = (readCodes t).map fun (codes, rest) => (n :: codes, rest) := by
  have digits : unitEscape n ++ t = '\\' :: 'u' :: Text.hexDigit (n / 16 / 16 / 16) ::
      Text.hexDigit (n / 16 / 16) :: Text.hexDigit (n / 16) :: Text.hexDigit n :: t := rfl
  rw [digits, readCodes, hexUnit?_hexDigit h]
  cases readCodes t <;> rfl

/-- The four forms of a character: a named escape, itself, one unit, two units. -/
theorem escapedChar_cases (c : Char) :
    (∃ e, e ≠ 'u' ∧ shortEscape? e = some c ∧ c.toNat < 0x10000 ∧ escapedChar c = ['\\', e]) ∨
    (¬ c.toNat < 0x20 ∧ c ≠ '\x22' ∧ c ≠ '\\' ∧ c.toNat < 0x10000 ∧ escapedChar c = [c]) ∨
    (c.toNat < 0x10000 ∧ escapedChar c = unitEscape c.toNat) ∨
    (¬ c.toNat < 0x10000 ∧ escapedChar c =
      unitEscape (0xD800 + (c.toNat - 0x10000) / 0x400) ++
        unitEscape (0xDC00 + (c.toNat - 0x10000) % 0x400)) := by
  obtain ⟨form, h⟩ : ∃ form, escapedChar c = form := ⟨_, rfl⟩
  rw [h]
  simp only [escapedChar] at h
  split at h
  case isTrue quote => subst quote h; exact .inl ⟨_, by decide, rfl, by decide, rfl⟩
  split at h
  case isTrue backslash => subst backslash h; exact .inl ⟨_, by decide, rfl, by decide, rfl⟩
  split at h
  case isTrue lineFeed => subst lineFeed h; exact .inl ⟨_, by decide, rfl, by decide, rfl⟩
  split at h
  case isTrue carriage => subst carriage h; exact .inl ⟨_, by decide, rfl, by decide, rfl⟩
  split at h
  case isTrue tab => subst tab h; exact .inl ⟨_, by decide, rfl, by decide, rfl⟩
  split at h
  case isTrue formFeed =>
    obtain rfl : c = '\x0C' := Char.toNat_inj.mp formFeed
    exact .inl ⟨_, by decide, rfl, by decide, h.symm⟩
  split at h
  case isTrue backspace =>
    obtain rfl : c = '\x08' := Char.toNat_inj.mp backspace
    exact .inl ⟨_, by decide, rfl, by decide, h.symm⟩
  split at h
  case isTrue quote backslash _ _ _ _ _ printable =>
    exact .inr (.inl ⟨by omega, quote, backslash, by omega, h.symm⟩)
  split at h
  case isTrue single => exact .inr (.inr (.inl ⟨single, h.symm⟩))
  case isFalse pair => exact .inr (.inr (.inr ⟨pair, h.symm⟩))

/-- Reading takes exactly the units of a character off its escaped form. -/
theorem readCodes_escapedChar (c : Char) (t : Text) :
    readCodes (escapedChar c ++ t) =
      (readCodes t).map fun (codes, rest) => (units c ++ codes, rest) := by
  have valid : c.toNat < 0xD800 ∨ 0xDFFF < c.toNat ∧ c.toNat < 0x110000 := c.valid
  rw [units]
  obtain ⟨e, letter, stands, single, form⟩ | ⟨printable, quote, backslash, single, form⟩ |
    ⟨single, form⟩ | ⟨pair, form⟩ := escapedChar_cases c <;> rw [form]
  · rw [if_pos single]
    exact readCodes_short letter stands
  · rw [if_pos single]
    exact readCodes_plain printable quote backslash
  · rw [if_pos single]
    exact readCodes_unitEscape single
  · rw [if_neg pair, List.append_assoc, readCodes_unitEscape (by omega),
      readCodes_unitEscape (by omega), Option.map_map]
    rfl

/-! ## Reading a string -/

theorem joinHalves_units (c : Char) (codes : List Nat) :
    joinHalves (units c ++ codes) = c :: joinHalves codes := by
  have valid : c.toNat < 0xD800 ∨ 0xDFFF < c.toNat ∧ c.toNat < 0x110000 := c.valid
  have whole : Char.ofNat c.toNat = c := Char.ofNat_toNat c
  rw [units]
  split
  case isTrue single =>
    have high : isHighHalf c.toNat = false := by simp [isHighHalf]; omega
    have low : isLowHalf c.toNat = false := by simp [isLowHalf]; omega
    cases codes <;> simp [joinHalves, high, low, whole]
  case isFalse pair =>
    have high : isHighHalf (0xD800 + (c.toNat - 0x10000) / 0x400) = true := by
      simp [isHighHalf]; omega
    have low : isLowHalf (0xDC00 + (c.toNat - 0x10000) % 0x400) = true := by
      simp [isLowHalf]; omega
    have joined : 0x10000 + (c.toNat - 0x10000) / 0x400 * 0x400 + (c.toNat - 0x10000) % 0x400 =
        c.toNat := by omega
    simp [joinHalves, high, low, joined, whole]

theorem readCodes_escaped (t rest : Text) :
    readCodes (t.flatMap escapedChar ++ '\x22' :: rest) = some (t.flatMap units, rest) := by
  induction t with
  | nil => rfl
  | cons c t ih => simp [readCodes_escapedChar, ih]

theorem joinHalves_flatMap (t : Text) : joinHalves (t.flatMap units) = t := by
  induction t with
  | nil => rfl
  | cons c t ih => rw [List.flatMap_cons, joinHalves_units, ih]

/-- A string reads back up to its closing quote. -/
theorem readString_escaped (t rest : Text) :
    readString (t.flatMap escapedChar ++ '\x22' :: rest) = some (t, rest) := by
  rw [readString, readCodes_escaped]
  simp only [Option.map_some, joinHalves_flatMap]

end Json

end PascalTokens
