/-
# Text in a byte string

Names are raw bytes, and most of them are UTF-8 text. A message shows the text
of a name with one replacement character for every maximal malformed part;
a settings file is text only if no part of it is malformed. Both readings go
through one step that takes the next character, or the next malformed part,
off the front.
-/

import ClaimLedger.Bytes

namespace ClaimLedger

namespace Utf8

/-- The character that stands for a malformed part. -/
def replacement : Char := '\ufffd'

/-- What a first byte announces: the payload bits it carries, and the range
that each following byte has to lie in. The narrowed ranges of the second byte
exclude overlong forms, surrogates and values above U+10FFFF. -/
def lead? (b : UInt8) : Option (Nat × List (UInt8 × UInt8)) :=
  let any : UInt8 × UInt8 := (0x80, 0xbf)
  if b ≤ 0x7f then some (b.toNat, [])
  else if 0xc2 ≤ b ∧ b ≤ 0xdf then some (b.toNat - 0xc0, [any])
  else if b = 0xe0 then some (0, [(0xa0, 0xbf), any])
  else if b = 0xed then some (0xd, [(0x80, 0x9f), any])
  else if 0xe1 ≤ b ∧ b ≤ 0xef then some (b.toNat - 0xe0, [any, any])
  else if b = 0xf0 then some (0, [(0x90, 0xbf), any, any])
  else if 0xf1 ≤ b ∧ b ≤ 0xf3 then some (b.toNat - 0xf0, [any, any, any])
  else if b = 0xf4 then some (4, [(0x80, 0x8f), any, any])
  else none

/-- Collect the payload of the announced following bytes. The character is
absent when one of them is missing or out of its range; that byte then stays
in front of the rest. -/
def follow : List (UInt8 × UInt8) → Nat → Bytes → Option Char × Bytes
  | [], code, rest => (some (Char.ofNat code), rest)
  | _ :: _, _, [] => (none, [])
  | (low, high) :: more, code, b :: rest =>
    if low ≤ b ∧ b ≤ high then follow more (code * 64 + (b.toNat - 128)) rest
    else (none, b :: rest)

/-- The step for a nonempty byte string: a character or a malformed part, and
what comes after it. -/
def next (b : UInt8) (rest : Bytes) : Option Char × Bytes :=
  match lead? b with
  | none => (none, rest)
  | some (code, ranges) => follow ranges code rest

theorem length_follow_le (ranges : List (UInt8 × UInt8)) (code : Nat) (bytes : Bytes) :
    (follow ranges code bytes).2.length ≤ bytes.length := by
  induction ranges generalizing code bytes with
  | nil => simp [follow]
  | cons range more ih =>
    cases bytes with
    | nil => simp [follow]
    | cons b rest =>
      obtain ⟨low, high⟩ := range
      unfold follow
      split
      · exact Nat.le_trans (ih _ _) (by simp)
      · simp

theorem length_next_le (b : UInt8) (rest : Bytes) :
    (next b rest).2.length ≤ rest.length := by
  unfold next
  split
  · simp
  · exact length_follow_le _ _ _

/-- The parts of a byte string in order: characters, and `none` for each
malformed part. -/
def parts : Bytes → List (Option Char)
  | [] => []
  | b :: rest => (next b rest).1 :: parts (next b rest).2
termination_by bytes => bytes.length
decreasing_by exact Nat.lt_succ_of_le (length_next_le b rest)

/-- The text of a byte string, with every malformed part replaced. -/
def lossy (bytes : Bytes) : List Char :=
  (parts bytes).map (·.getD replacement)

/-- The text of a byte string that has no malformed part. -/
def decode? (bytes : Bytes) : Option (List Char) :=
  (parts bytes).mapM id

end Utf8

end ClaimLedger
