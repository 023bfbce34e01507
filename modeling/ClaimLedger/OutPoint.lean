/-
# Outputs and the claims they create

An output is named by the id of its transaction and its index there. The
output that creates a claim also names the claim for good: the claim hash is a
digest of that outpoint, and stays the same when the claim moves on.
-/

import ClaimLedger.Digest.Ripemd160

namespace ClaimLedger

/-- The id of a transaction. -/
abbrev Txid := Digest 32

/-- The name of a transaction output. -/
structure OutPoint where
  txid : Txid
  vout : UInt32
  deriving DecidableEq

namespace OutPoint

/-- Outputs are ordered by transaction id, then by index. -/
instance : Ord OutPoint where
  compare := compareLex (compareOn txid) (compareOn vout)

instance : Std.TransOrd OutPoint :=
  inferInstanceAs (Std.TransCmp (compareLex (compareOn txid) (compareOn vout)))

instance : Std.LawfulEqOrd OutPoint where
  eq_of_compare {a b} h := by
    obtain ⟨htxid, hvout⟩ := compareLex_eq_eq.mp h
    cases a; cases b
    simp only [OutPoint.mk.injEq]
    exact ⟨Std.LawfulEqCmp.eq_of_compare htxid, Std.LawfulEqCmp.eq_of_compare hvout⟩

/-- The outpoint that names no output: the single input of a coinbase spends
it. -/
def null : OutPoint := ⟨Digest.zero 32, 0xffffffff⟩

end OutPoint

/-- The name of a claim: the hash of the outpoint that created it. -/
abbrev ClaimHash := Digest 20

instance : Std.TransOrd ClaimHash :=
  inferInstanceAs (Std.TransOrd (Digest 20))

instance : Std.LawfulEqOrd ClaimHash :=
  inferInstanceAs (Std.LawfulEqOrd (Digest 20))

namespace ClaimHash

/-- The claim that an output creates: transaction id, then the index with its
most significant byte first, hashed to twenty bytes. -/
def ofOutPoint (outpoint : OutPoint) : ClaimHash :=
  hash160 (outpoint.txid.bytes ++ Bytes.ofNatBE 4 outpoint.vout.toNat)

/-- The form in which people read and type a claim hash. -/
def claimId (hash : ClaimHash) : String :=
  hash.display

/-- The form that marks a claim id as one among other texts. -/
def tagged (hash : ClaimHash) : String :=
  "ClaimHash(" ++ hash.claimId ++ ")"

end ClaimHash

end ClaimLedger
