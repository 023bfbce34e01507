/-
# Reading claim ids

A typed claim id is forty hexadecimal digits in either case, last byte of the
hash first. The three ways to get it wrong are checked in a fixed order: a
half byte, a wrong length, and only then the first foreign character.
-/

import ClaimLedger.OutPoint
import ClaimLedger.Text.Quoted

namespace ClaimLedger

/-- Why a text is no claim id. -/
inductive ClaimIdError where
  | oddLength
  | wrongLength
  | foreignCharacter (byte : UInt8) (index : Nat)
  deriving DecidableEq

/-- The wording of a refused claim id. A foreign byte is shown as the character
of the same number. -/
def ClaimIdError.message : ClaimIdError → String
  | .oddLength => "Odd number of digits"
  | .wrongLength => "Invalid string length"
  | .foreignCharacter byte index =>
    "Invalid character " ++ Quoted.char (Char.ofNat byte.toNat) ++ " at position " ++
      toString index

/-- Read a claim id, given by the bytes of its text. -/
def ClaimHash.parse (text : Bytes) : Except ClaimIdError ClaimHash :=
  if text.length % 2 = 1 then .error .oddLength
  else if text.length ≠ 40 then .error .wrongLength
  else
    match Hex.decodePairs 0 text with
    | .error (byte, index) => .error (.foreignCharacter byte index)
    | .ok bytes =>
      match Digest.ofBytes? 20 bytes.reverse with
      | none => .error .wrongLength
      | some hash => .ok hash

end ClaimLedger
