/-
# Byte strings and the numbers they spell

Names, scripts, transactions and block records are all byte strings. This
module fixes the representation (`List UInt8`, so that a parser can recurse on
its input), the two byte orders in which the chain writes numbers, and the one
primitive every reader is built from: cutting off exactly `n` bytes, or
refusing when fewer are left.
-/

namespace ClaimLedger

/-- A byte string. Names compare in the lexicographic order of this type. -/
abbrev Bytes := List UInt8

namespace Bytes

/-- The `n` low-order bytes of a number, least significant first. Higher bytes
are dropped. -/
def ofNatLE : Nat → Nat → Bytes
  | 0, _ => []
  | n + 1, value => UInt8.ofNat value :: ofNatLE n (value / 256)

/-- The number that a byte string spells, least significant byte first. -/
def toNatLE : Bytes → Nat
  | [] => 0
  | b :: rest => b.toNat + 256 * toNatLE rest

/-- The `n` low-order bytes of a number, most significant first. -/
def ofNatBE (n value : Nat) : Bytes :=
  (ofNatLE n value).reverse

/-- The number that a byte string spells, most significant byte first. -/
def toNatBE (bytes : Bytes) : Nat :=
  toNatLE bytes.reverse

@[simp] theorem length_ofNatLE (n value : Nat) : (ofNatLE n value).length = n := by
  induction n generalizing value with
  | zero => rfl
  | succ n ih => simp [ofNatLE, ih]

@[simp] theorem length_ofNatBE (n value : Nat) : (ofNatBE n value).length = n := by
  simp [ofNatBE]

/-- A byte string is determined by its length and the number it spells. -/
theorem ofNatLE_toNatLE (bytes : Bytes) : ofNatLE bytes.length (toNatLE bytes) = bytes := by
  induction bytes with
  | nil => rfl
  | cons b rest ih =>
    have hb := b.toNat_lt
    have low : UInt8.ofNat (b.toNat + 256 * toNatLE rest) = b := by
      apply UInt8.toNat_inj.mp
      simp only [UInt8.toNat_ofNat']
      omega
    have high : (b.toNat + 256 * toNatLE rest) / 256 = toNatLE rest := by omega
    simp only [List.length_cons, toNatLE, ofNatLE, low, high, ih]

/-- Cut off exactly `n` bytes; `none` when fewer are left. -/
def splitExact? : Nat → Bytes → Option (Bytes × Bytes)
  | 0, rest => some ([], rest)
  | _ + 1, [] => none
  | n + 1, b :: rest => (splitExact? n rest).map fun (taken, left) => (b :: taken, left)

/-- A cut succeeds exactly at a decomposition whose first part has the asked
length. -/
theorem splitExact?_eq_some_iff {n : Nat} {bytes taken left : Bytes} :
    splitExact? n bytes = some (taken, left) ↔ bytes = taken ++ left ∧ taken.length = n := by
  induction n generalizing bytes taken with
  | zero =>
    simp only [splitExact?, Option.some.injEq, Prod.mk.injEq, List.length_eq_zero_iff]
    constructor
    · rintro ⟨rfl, rfl⟩; simp
    · rintro ⟨rfl, rfl⟩; simp
  | succ n ih =>
    cases bytes with
    | nil =>
      simp only [splitExact?, reduceCtorEq, false_iff, not_and]
      intro h
      obtain ⟨rfl, rfl⟩ := List.append_eq_nil_iff.mp h.symm
      simp
    | cons b rest =>
      simp only [splitExact?, Option.map_eq_some_iff, Prod.mk.injEq, Prod.exists]
      constructor
      · rintro ⟨t, l, h, rfl, rfl⟩
        obtain ⟨rfl, rfl⟩ := ih.mp h
        simp
      · rintro ⟨h, hlen⟩
        cases taken with
        | nil => simp at hlen
        | cons c t =>
          simp only [List.cons_append, List.cons.injEq] at h
          obtain ⟨rfl, rfl⟩ := h
          exact ⟨t, left, ih.mpr ⟨rfl, by simpa using hlen⟩, rfl, rfl⟩

/-- A cut of the right length off an append returns its two parts. -/
theorem splitExact?_append (taken left : Bytes) :
    splitExact? taken.length (taken ++ left) = some (taken, left) :=
  splitExact?_eq_some_iff.mpr ⟨rfl, rfl⟩

end Bytes

end ClaimLedger
