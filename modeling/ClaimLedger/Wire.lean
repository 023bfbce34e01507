/-
# Reading and writing the chain's binary format

A decoder takes a value off the front of a byte string and leaves the rest, or
says why it cannot. Numbers are little-endian with a fixed width; counts use
the compact form, which has one spelling per number, so a longer spelling than
necessary is refused.
-/

import ClaimLedger.Height
import ClaimLedger.OutPoint

namespace ClaimLedger

/-- Why bytes do not decode. -/
inductive WireError where
  /-- The input ran out. -/
  | endOfInput
  /-- A count has a longer spelling than it needs. -/
  | nonMinimalCount
  /-- No inputs, and a marker byte that announces no known form. -/
  | unknownMarker (marker : UInt8)
  /-- The witness form is used, but every witness is empty. -/
  | missingWitness
  /-- A witness asks for more room than any block has. -/
  | oversized (requested : Nat)
  /-- Bytes are left over after a complete value. -/
  | trailingBytes
  deriving DecidableEq

namespace WireError

/-- The most items and the most bytes that a single witness may announce. -/
def roomLimit : Nat := 4000000

/-- The wording of a failed decoding. -/
def message : WireError → String
  | endOfInput => "IO error"
  | nonMinimalCount => "non-minimal varint"
  | unknownMarker marker => "unsupported segwit version: " ++ toString marker.toNat
  | missingWitness => "parse failed: witness flag set but no witnesses present"
  | oversized requested =>
    "allocation of oversized vector: requested " ++ toString requested ++ ", maximum " ++
      toString roomLimit
  | trailingBytes => "parse failed: data not consumed entirely when explicitly deserializing"

end WireError

/-- A reader of values off the front of a byte string. -/
abbrev Decoder (α : Type) := StateT Bytes (Except WireError) α

namespace Decoder

/-- Exactly `n` bytes. -/
def bytes (n : Nat) : Decoder Bytes := fun input =>
  match Bytes.splitExact? n input with
  | none => .error .endOfInput
  | some result => .ok result

/-- A number of `n` bytes. -/
def nat (n : Nat) : Decoder Nat := do
  return Bytes.toNatLE (← bytes n)

/-- A single byte. -/
def byte : Decoder UInt8 := do
  return UInt8.ofNat (← nat 1)

/-- A word of four bytes. -/
def word : Decoder UInt32 := do
  return UInt32.ofNat (← nat 4)

/-- A word of eight bytes. -/
def longWord : Decoder UInt64 := do
  return UInt64.ofNat (← nat 8)

/-- A digest of `n` bytes in internal order. -/
def digest (n : Nat) : Decoder (Digest n) := fun input =>
  match Bytes.splitExact? n input with
  | none => .error .endOfInput
  | some (taken, rest) =>
    match Digest.ofBytes? n taken with
    | none => .error .endOfInput
    | some d => .ok (d, rest)

/-- A number of `n` bytes that a shorter spelling could not hold. -/
def atLeast (least n : Nat) : Decoder Nat := do
  let value ← nat n
  if value < least then throw .nonMinimalCount
  return value

/-- A count in the compact form. -/
def count : Decoder Nat := do
  let marker ← nat 1
  if marker < 0xfd then return marker
  else if marker = 0xfd then atLeast 0xfd 2
  else if marker = 0xfe then atLeast 0x10000 4
  else atLeast 0x100000000 8

/-- The same decoder `n` times in a row. -/
def times {α : Type} (item : Decoder α) : Nat → Decoder (List α)
  | 0 => return []
  | n + 1 => do
    let first ← item
    let rest ← times item n
    return first :: rest

/-- A compact count and that many items. -/
def counted {α : Type} (item : Decoder α) : Decoder (List α) := do
  times item (← count)

/-- A compact count and that many bytes. -/
def countedBytes : Decoder Bytes := do
  bytes (← count)

/-- Decode the whole of an input. -/
def all {α : Type} (item : Decoder α) (input : Bytes) : Except WireError α :=
  match item input with
  | .error e => .error e
  | .ok (value, []) => .ok value
  | .ok (_, _ :: _) => .error .trailingBytes

end Decoder

namespace Encode

/-- A count in the compact form. -/
def count (n : Nat) : Bytes :=
  if n < 0xfd then Bytes.ofNatLE 1 n
  else if n < 0x10000 then 0xfd :: Bytes.ofNatLE 2 n
  else if n < 0x100000000 then 0xfe :: Bytes.ofNatLE 4 n
  else 0xff :: Bytes.ofNatLE 8 n

/-- A word of four bytes. -/
def word (w : UInt32) : Bytes :=
  Bytes.ofNatLE 4 w.toNat

/-- A word of eight bytes. -/
def longWord (w : UInt64) : Bytes :=
  Bytes.ofNatLE 8 w.toNat

/-- A byte string behind its length. -/
def countedBytes (bytes : Bytes) : Bytes :=
  count bytes.length ++ bytes

/-- Items behind their number. -/
def counted {α : Type} (item : α → Bytes) (items : List α) : Bytes :=
  count items.length ++ items.flatMap item

end Encode

end ClaimLedger
