/-
# Fixed-length digests

Transaction ids, block hashes, merkle nodes and claim hashes are byte strings
whose length never varies, so the length is part of the type. Internally a
digest is in the order in which it is hashed and stored; people read and type
it with its bytes reversed.
-/

import ClaimLedger.Bytes.Hex

namespace ClaimLedger

/-- A byte string of exactly `n` bytes. -/
structure Digest (n : Nat) where
  bytes : Bytes
  length_eq : bytes.length = n
  deriving DecidableEq

namespace Digest

variable {n : Nat}

@[ext] theorem ext {a b : Digest n} (h : a.bytes = b.bytes) : a = b := by
  cases a; cases b; cases h; rfl

/-- Digests are ordered by their bytes, first byte first. -/
instance : Ord (Digest n) where
  compare := compareOn bytes

instance : Std.TransOrd (Digest n) :=
  inferInstanceAs (Std.TransCmp (compareOn (bytes : Digest n → Bytes)))

instance : Std.LawfulEqOrd (Digest n) where
  eq_of_compare h := ext (Std.LawfulEqCmp.eq_of_compare h)

/-- The digest with the given bytes; `none` unless there are exactly `n`. -/
def ofBytes? (n : Nat) (bytes : Bytes) : Option (Digest n) :=
  if h : bytes.length = n then some ⟨bytes, h⟩ else none

theorem ofBytes?_eq_some_iff {bytes : Bytes} {d : Digest n} :
    ofBytes? n bytes = some d ↔ bytes = d.bytes := by
  unfold ofBytes?
  split
  · simp [Digest.ext_iff]
  · rename_i h
    simp only [reduceCtorEq, false_iff]
    rintro rfl
    exact h d.length_eq

/-- The digest of zero bytes, which stands for "none" in the chain's format. -/
def zero (n : Nat) : Digest n :=
  ⟨List.replicate n 0, List.length_replicate⟩

/-- The digest with the same byte throughout. -/
def filled (n : Nat) (byte : UInt8) : Digest n :=
  ⟨List.replicate n byte, List.length_replicate⟩

/-- The bytes back to front. -/
def reverse (d : Digest n) : Digest n :=
  ⟨d.bytes.reverse, by simp [d.length_eq]⟩

/-- The form that people read: hexadecimal, last byte first. -/
def display (d : Digest n) : String :=
  Hex.encode d.bytes.reverse

end Digest

end ClaimLedger
