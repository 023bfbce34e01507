/-
# RIPEMD-160

The second half of the hash that names a claim. Two lines of eighty steps run
side by side over the same block, with their own word order, rotations and
constants, and are combined at the end.
-/

import ClaimLedger.Digest.Sha256

namespace ClaimLedger

namespace Ripemd160

/-- The five chaining words. -/
structure State where
  a : UInt32
  b : UInt32
  c : UInt32
  d : UInt32
  e : UInt32

/-- The chaining words before the first block. -/
def start : State :=
  ⟨0x67452301, 0xefcdab89, 0x98badcfe, 0x10325476, 0xc3d2e1f0⟩

/-- The five mixing functions, by number. -/
def mix : Nat → UInt32 → UInt32 → UInt32 → UInt32
  | 0, x, y, z => x ^^^ y ^^^ z
  | 1, x, y, z => (x &&& y) ||| (~~~x &&& z)
  | 2, x, y, z => (x ||| ~~~y) ^^^ z
  | 3, x, y, z => (x &&& z) ||| (y &&& ~~~z)
  | _, x, y, z => x ^^^ (y ||| ~~~z)

/-- A run of sixteen steps: the mixing function, the constant, and for each
step the word it takes and the rotation it makes. -/
structure Pass where
  mixing : Nat
  constant : UInt32
  steps : List (Nat × UInt32)

/-- The left line. -/
def leftLine : List Pass :=
  [⟨0, 0x00000000, List.zip
      [0, 1, 2, 3, 4, 5, 6, 7, 8, 9, 10, 11, 12, 13, 14, 15]
      [11, 14, 15, 12, 5, 8, 7, 9, 11, 13, 14, 15, 6, 7, 9, 8]⟩,
   ⟨1, 0x5a827999, List.zip
      [7, 4, 13, 1, 10, 6, 15, 3, 12, 0, 9, 5, 2, 14, 11, 8]
      [7, 6, 8, 13, 11, 9, 7, 15, 7, 12, 15, 9, 11, 7, 13, 12]⟩,
   ⟨2, 0x6ed9eba1, List.zip
      [3, 10, 14, 4, 9, 15, 8, 1, 2, 7, 0, 6, 13, 11, 5, 12]
      [11, 13, 6, 7, 14, 9, 13, 15, 14, 8, 13, 6, 5, 12, 7, 5]⟩,
   ⟨3, 0x8f1bbcdc, List.zip
      [1, 9, 11, 10, 0, 8, 12, 4, 13, 3, 7, 15, 14, 5, 6, 2]
      [11, 12, 14, 15, 14, 15, 9, 8, 9, 14, 5, 6, 8, 6, 5, 12]⟩,
   ⟨4, 0xa953fd4e, List.zip
      [4, 0, 5, 9, 7, 12, 2, 10, 14, 1, 3, 8, 11, 6, 15, 13]
      [9, 15, 5, 11, 6, 8, 13, 12, 5, 12, 13, 14, 11, 8, 5, 6]⟩]

/-- The right line, which takes the mixing functions in reverse order. -/
def rightLine : List Pass :=
  [⟨4, 0x50a28be6, List.zip
      [5, 14, 7, 0, 9, 2, 11, 4, 13, 6, 15, 8, 1, 10, 3, 12]
      [8, 9, 9, 11, 13, 15, 15, 5, 7, 7, 8, 11, 14, 14, 12, 6]⟩,
   ⟨3, 0x5c4dd124, List.zip
      [6, 11, 3, 7, 0, 13, 5, 10, 14, 15, 8, 12, 4, 9, 1, 2]
      [9, 13, 15, 7, 12, 8, 9, 11, 7, 7, 12, 7, 6, 15, 13, 11]⟩,
   ⟨2, 0x6d703ef3, List.zip
      [15, 5, 1, 3, 7, 14, 6, 9, 11, 8, 12, 2, 10, 0, 4, 13]
      [9, 7, 15, 11, 8, 6, 6, 14, 12, 13, 5, 14, 13, 13, 7, 5]⟩,
   ⟨1, 0x7a6d76e9, List.zip
      [8, 6, 4, 1, 3, 11, 15, 0, 5, 12, 2, 13, 9, 7, 10, 14]
      [15, 5, 8, 11, 14, 14, 6, 14, 6, 9, 12, 9, 12, 5, 15, 8]⟩,
   ⟨0, 0x00000000, List.zip
      [12, 15, 10, 4, 1, 5, 8, 7, 6, 2, 13, 14, 0, 3, 9, 11]
      [8, 5, 12, 9, 12, 5, 14, 6, 8, 13, 6, 5, 15, 13, 11, 11]⟩]

/-- One step of a line. -/
def step (words : Array UInt32) (pass : Pass) (s : State) (wordAndTurn : Nat × UInt32) : State :=
  let (word, turn) := wordAndTurn
  let sum := s.a + mix pass.mixing s.b s.c s.d + words.getD word 0 + pass.constant
  ⟨s.e, rotateLeft sum turn + s.e, s.b, rotateLeft s.c 10, s.d⟩

/-- Run one line over a block. -/
def runLine (words : Array UInt32) (line : List Pass) (s : State) : State :=
  line.foldl (fun s pass => pass.steps.foldl (step words pass) s) s

/-- Fold one block of 64 bytes into the chaining words. -/
def compress (s : State) (block : Bytes) : State :=
  let words := ((block.groups 4).map fun word => UInt32.ofNat (Bytes.toNatLE word)).toArray
  let l := runLine words leftLine s
  let r := runLine words rightLine s
  ⟨s.b + l.c + r.d, s.c + l.d + r.e, s.d + l.e + r.a, s.e + l.a + r.b, s.a + l.b + r.c⟩

/-- The five words, each least significant byte first. -/
def State.digest (s : State) : Digest 20 :=
  ⟨[s.a, s.b, s.c, s.d, s.e].flatMap fun word => Bytes.ofNatLE 4 word.toNat, by simp⟩

end Ripemd160

/-- The RIPEMD-160 digest of a message. -/
def ripemd160 (message : Bytes) : Digest 20 :=
  let padded := message.padded (Bytes.ofNatLE 8)
  ((padded.groups 64).foldl Ripemd160.compress Ripemd160.start).digest

/-- RIPEMD-160 of SHA-256, the twenty-byte hash that names a claim. -/
def hash160 (message : Bytes) : Digest 20 :=
  ripemd160 (sha256 message).bytes

end ClaimLedger
