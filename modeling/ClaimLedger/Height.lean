/-
# Heights and amounts

Block heights are 32-bit words and amounts are 64-bit words, as the chain
writes them. Sums of heights that say how long something lives stop at the
largest height instead of wrapping round, and a height difference stops at
zero; every other sum is taken in the word. A block in which such a sum would
leave the word is refused, so the sums that an applied block rests on are exact.
-/

namespace ClaimLedger

/-- The number of blocks before a block on its chain. -/
abbrev Height := UInt32

/-- A value in the chain's smallest unit of money. -/
abbrev Amount := UInt64

namespace Amount

/-- The least number that is no amount. -/
def bound : Nat := 0x10000000000000000

/-- The sum of amounts as a word. It wraps like every sum of 64-bit words. -/
def total (amounts : List Amount) : Amount :=
  amounts.foldr (· + ·) 0

/-- The exact sum of amounts. -/
def exactTotal (amounts : List Amount) : Nat :=
  amounts.foldr (fun amount sum => amount.toNat + sum) 0

end Amount

namespace Height

/-- The largest height. -/
def top : Height := 0xffffffff

/-- The height after this one, or genesis when there is none yet. The height
after the largest one is zero. -/
def next : Option Height → Height
  | none => 0
  | some h => h + 1

/-- A sum that stops at the largest height. -/
def plus (a b : Height) : Height :=
  if a ≤ top - b then a + b else top

/-- A difference that stops at zero. -/
def minus (a b : Height) : Height :=
  if b ≤ a then a - b else 0

theorem toNat_minus (a b : Height) : (minus a b).toNat = a.toNat - b.toNat := by
  unfold minus
  split
  · rename_i h
    exact UInt32.toNat_sub_of_le _ _ h
  · rename_i h
    rw [UInt32.le_iff_toNat_le] at h
    simp only [UInt32.toNat_zero]
    omega

end Height

end ClaimLedger
