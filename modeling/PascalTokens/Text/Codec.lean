import PascalTokens.Text.Quoted
import PascalTokens.Text.Utf8

/-!
# Codecs

The three encodings in which source files are kept. Two of them store one byte for each
character and reach only the code points below a limit.
-/

namespace PascalTokens

/-- An encoding of text. -/
inductive Codec where
  | utf8
  | latin1
  | ascii
  deriving DecidableEq, Repr

/-- Bytes from `start` up to `stop`, the first of them `byte`, that stand for no text. -/
structure DecodeFault where
  codec : Codec
  byte : UInt8
  start : Nat
  stop : Nat
  reason : Text
  deriving DecidableEq, Repr

/-- Characters from `start` up to `stop`, the first of them `char`, that have no bytes. -/
structure EncodeFault where
  codec : Codec
  char : Char
  start : Nat
  stop : Nat
  reason : Text
  deriving DecidableEq, Repr

namespace Codec

def name : Codec → Text
  | utf8 => "utf-8".toList
  | latin1 => "latin-1".toList
  | ascii => "ascii".toList

def ofName? (t : Text) : Option Codec := [utf8, latin1, ascii].find? fun c => c.name = t

/-- The number of code points that a one-byte codec reaches. -/
def limit? : Codec → Option Nat
  | utf8 => none
  | latin1 => some 0x100
  | ascii => some 0x80

/-- The reason a one-byte codec gives for a character or byte beyond its limit. -/
def beyond (limit : Nat) : Text := "ordinal not in range(".toList ++ Text.ofNat limit ++ [')']

def encode (codec : Codec) (t : Text) : Except EncodeFault Bytes :=
  match codec.limit? with
  | none => .ok (Utf8.encode t)
  | some limit =>
    let good := t.takeWhile fun c => c.toNat < limit
    match t.drop good.length with
    | [] => .ok (t.map fun c => UInt8.ofNat c.toNat)
    | c :: rest =>
      let bad := rest.takeWhile fun d => limit ≤ d.toNat
      .error ⟨codec, c, good.length, good.length + 1 + bad.length, beyond limit⟩

def decode (codec : Codec) (bytes : Bytes) : Except DecodeFault Text :=
  match codec.limit? with
  | none =>
    match Utf8.decode bytes with
    | .ok t => .ok t
    | .error fault =>
      let reason := match fault.flaw with
        | .start => "invalid start byte"
        | .continuation => "invalid continuation byte"
        | .cutOff => "unexpected end of data"
      .error ⟨codec, bytes.getD fault.start 0, fault.start, fault.stop, reason.toList⟩
  | some limit =>
    let good := bytes.takeWhile fun b => b.toNat < limit
    match bytes.drop good.length with
    | [] => .ok (bytes.map fun b => Char.ofNat b.toNat)
    | b :: _ => .error ⟨codec, b, good.length, good.length + 1, beyond limit⟩

end Codec

/-- Positions from `start` up to `stop` for a message, where the last one is included. -/
def positionRange (start stop : Nat) : Text :=
  Text.ofNat start ++ '-' :: Text.ofNat (stop - 1)

/-- The message of a decoding failure; a single byte is shown, several are counted. -/
def DecodeFault.message (fault : DecodeFault) : Text :=
  let range :=
    if fault.stop = fault.start + 1 then
      "byte 0x".toList ++ Text.hex 2 fault.byte.toNat ++ " in position ".toList
        ++ Text.ofNat fault.start
    else "bytes in position ".toList ++ positionRange fault.start fault.stop
  fault.codec.name.quoted ++ " codec can't decode ".toList ++ range ++ ": ".toList ++ fault.reason

/-- The message of an encoding failure; a single character is shown, several are counted. -/
def EncodeFault.message (fault : EncodeFault) : Text :=
  let range :=
    if fault.stop = fault.start + 1 then
      "character ".toList ++ Text.singleQuote :: Text.codeEscape fault.char
        ++ Text.singleQuote :: " in position ".toList ++ Text.ofNat fault.start
    else "characters in position ".toList ++ positionRange fault.start fault.stop
  fault.codec.name.quoted ++ " codec can't encode ".toList ++ range ++ ": ".toList ++ fault.reason

end PascalTokens
