/-
# Hexadecimal text

Bytes are written as lower-case digit pairs, high digit first. Reading accepts
both cases and says which byte of the text is at fault, because claim ids are
typed by people.
-/

import ClaimLedger.Bytes

namespace ClaimLedger

namespace Hex

/-- The lower-case digit of a value below sixteen. -/
def digit (value : Nat) : Char :=
  if value < 10 then Char.ofNat (value + 48) else Char.ofNat (value + 87)

/-- The value of a digit in either case, given as an ASCII byte. -/
def value? (b : UInt8) : Option UInt8 :=
  if 48 ≤ b ∧ b ≤ 57 then some (b - 48)
  else if 97 ≤ b ∧ b ≤ 102 then some (b - 87)
  else if 65 ≤ b ∧ b ≤ 70 then some (b - 55)
  else none

/-- Two digits per byte, high digit first. -/
def chars (bytes : Bytes) : List Char :=
  bytes.flatMap fun b => [digit (b.toNat / 16), digit (b.toNat % 16)]

/-- The text of a byte string. -/
def encode (bytes : Bytes) : String :=
  String.ofList (chars bytes)

/-- The lower-case digits of a number without leading zeros. -/
def ofNat (value : Nat) : String :=
  String.ofList (Nat.toDigits 16 value)

/-- What reading digit pairs can end in: the bytes, or the first byte of the
text that is no digit, with its index. -/
def decodePairs : Nat → Bytes → Except (UInt8 × Nat) Bytes
  | index, high :: low :: rest =>
    match value? high, value? low with
    | none, _ => .error (high, index)
    | some _, none => .error (low, index + 1)
    | some h, some l => (decodePairs (index + 2) rest).map ((h * 16 + l) :: ·)
  | _, _ => .ok []

/-- Read a text of digit pairs; `none` for an odd length or a foreign
character. -/
def decode? (text : String) : Option Bytes :=
  let bytes := text.toUTF8.data.toList
  if bytes.length % 2 = 0 then (decodePairs 0 bytes).toOption else none

end Hex

end ClaimLedger
