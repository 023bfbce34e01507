/-
# Numbers in byte strings

Writing a number as `n` bytes keeps it modulo `256 ^ n`, and no number of `n`
bytes reaches that bound. Together with `ofNatLE_toNatLE` this makes the byte
strings of a length and the numbers below the bound two names for the same
things.
-/

import Mathlib.Algebra.Group.Nat.Defs
import ClaimLedger.Bytes

namespace ClaimLedger

namespace Bytes

/-- Writing and reading back keeps exactly the bits that fit into `n` bytes. -/
theorem toNatLE_ofNatLE (n value : Nat) :
    toNatLE (ofNatLE n value) = value % 256 ^ n := by
  induction n generalizing value with
  | zero => simp [ofNatLE, toNatLE, Nat.mod_one]
  | succ n ih =>
    simp only [ofNatLE, toNatLE, ih, UInt8.toNat_ofNat']
    rw [show 2 ^ 8 = 256 from rfl, Nat.pow_succ, Nat.mul_comm (256 ^ n) 256, Nat.mod_mul]

/-- The number spelled by `n` bytes is below `256 ^ n`. -/
theorem toNatLE_lt (bytes : Bytes) : toNatLE bytes < 256 ^ bytes.length := by
  induction bytes with
  | nil => simp [toNatLE]
  | cons b rest ih =>
    have hb := b.toNat_lt
    simp only [toNatLE, List.length_cons, Nat.pow_succ]
    omega

end Bytes

end ClaimLedger
