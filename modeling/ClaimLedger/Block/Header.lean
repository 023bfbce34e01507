/-
# Block headers

A header is 112 bytes: the usual fields of a chain of blocks, plus the root of
the claims after the block. Its hash names the block.
-/

import ClaimLedger.Wire

namespace ClaimLedger

/-- The hash of a header, which names its block. -/
abbrev BlockHash := Digest 32

instance : Std.TransOrd BlockHash :=
  inferInstanceAs (Std.TransOrd (Digest 32))

instance : Std.LawfulEqOrd BlockHash :=
  inferInstanceAs (Std.LawfulEqOrd (Digest 32))

/-- The header of a block. -/
structure Header where
  version : Int32
  /-- The block before this one; zero for the first. -/
  previous : BlockHash
  /-- What the header says of the transactions. -/
  merkleRoot : Digest 32
  /-- What the header says of the claims. -/
  claimRoot : Digest 32
  time : UInt32
  bits : UInt32
  nonce : UInt32
  deriving DecidableEq

namespace Header

/-- The length of every header in bytes. -/
def size : Nat := 112

/-- The wire form. -/
def encode (header : Header) : Bytes :=
  Encode.word header.version.toUInt32 ++ header.previous.bytes ++ header.merkleRoot.bytes ++
    header.claimRoot.bytes ++ Encode.word header.time ++ Encode.word header.bits ++
    Encode.word header.nonce

/-- Read a header off the front of a byte string. -/
def decoder : Decoder Header := do
  return {
    version := Int32.ofUInt32 (← Decoder.word)
    previous := ← Decoder.digest 32
    merkleRoot := ← Decoder.digest 32
    claimRoot := ← Decoder.digest 32
    time := ← Decoder.word
    bits := ← Decoder.word
    nonce := ← Decoder.word }

/-- The hash of the header. -/
def hash (header : Header) : BlockHash :=
  sha256Twice header.encode

/-- Every header has the same length. -/
@[simp] theorem length_encode (header : Header) : header.encode.length = size := by
  simp [encode, Encode.word, header.previous.length_eq, header.merkleRoot.length_eq,
    header.claimRoot.length_eq, size]

end Header

end ClaimLedger
