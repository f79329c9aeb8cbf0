import PascalTokens.Text.Basic

/-!
# UTF-8

The encoder writes each character in its shortest form. The decoder is a machine that reads one
byte at a time; inside a multi-byte sequence it knows the range the next byte must lie in, so
that overlong forms, surrogates and code points beyond U+10FFFF are refused at their second
byte. A refusal names the bytes from the start of the sequence up to the offending byte, or to
the end of the input.
-/

namespace PascalTokens

abbrev Bytes := List UInt8

namespace Utf8

/-- What is wrong with a byte sequence. -/
inductive Flaw where
  | start
  | continuation
  | cutOff
  deriving DecidableEq, Repr

/-- The bytes from `start` up to `stop` do not form a character. -/
structure Fault where
  flaw : Flaw
  start : Nat
  stop : Nat
  deriving DecidableEq, Repr

def encodeChar (c : Char) : Bytes :=
  let n := c.toNat
  if n < 0x80 then [UInt8.ofNat n]
  else if n < 0x800 then [UInt8.ofNat (0xC0 + n / 0x40), UInt8.ofNat (0x80 + n % 0x40)]
  else if n < 0x10000 then
    [UInt8.ofNat (0xE0 + n / 0x1000), UInt8.ofNat (0x80 + n / 0x40 % 0x40),
      UInt8.ofNat (0x80 + n % 0x40)]
  else
    [UInt8.ofNat (0xF0 + n / 0x40000), UInt8.ofNat (0x80 + n / 0x1000 % 0x40),
      UInt8.ofNat (0x80 + n / 0x40 % 0x40), UInt8.ofNat (0x80 + n % 0x40)]

def encode (t : Text) : Bytes := t.flatMap encodeChar

/-- A sequence that has begun: where it started, the payload so far, how many bytes are still
missing after the next one, and the range of the next one. -/
structure Sequence where
  start : Nat
  payload : Nat
  further : Nat
  low : Nat
  high : Nat
  deriving DecidableEq, Repr

/-- The sequence that the lead byte `n` at position `start` begins, if it can lead one. -/
def lead? (start n : Nat) : Option Sequence :=
  if n < 0xC2 then none
  else if n < 0xE0 then some ⟨start, n - 0xC0, 0, 0x80, 0xBF⟩
  else if n = 0xE0 then some ⟨start, 0, 1, 0xA0, 0xBF⟩
  else if n = 0xED then some ⟨start, 0xD, 1, 0x80, 0x9F⟩
  else if n < 0xF0 then some ⟨start, n - 0xE0, 1, 0x80, 0xBF⟩
  else if n = 0xF0 then some ⟨start, 0, 2, 0x90, 0xBF⟩
  else if n < 0xF4 then some ⟨start, n - 0xF0, 2, 0x80, 0xBF⟩
  else if n = 0xF4 then some ⟨start, 4, 2, 0x80, 0x8F⟩
  else none

/-- Decode the bytes from position `position` on, between two characters or inside the
sequence `pending`. -/
def decodeFrom (position : Nat) (pending : Option Sequence) : Bytes → Except Fault Text
  | [] =>
    match pending with
    | none => .ok []
    | some s => .error ⟨.cutOff, s.start, position⟩
  | byte :: rest =>
    let n := byte.toNat
    match pending with
    | none =>
      if n < 0x80 then (decodeFrom (position + 1) none rest).map (Char.ofNat n :: ·)
      else
        match lead? position n with
        | none => .error ⟨.start, position, position + 1⟩
        | some s => decodeFrom (position + 1) (some s) rest
    | some s =>
      if n < s.low ∨ s.high < n then .error ⟨.continuation, s.start, position⟩
      else
        let payload := s.payload * 0x40 + n % 0x40
        match s.further with
        | 0 => (decodeFrom (position + 1) none rest).map (Char.ofNat payload :: ·)
        | further + 1 =>
          decodeFrom (position + 1) (some ⟨s.start, payload, further, 0x80, 0xBF⟩) rest

def decode (bytes : Bytes) : Except Fault Text := decodeFrom 0 none bytes

end Utf8

end PascalTokens
