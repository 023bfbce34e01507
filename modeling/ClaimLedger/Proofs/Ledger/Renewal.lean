/-
# Updates of claims

An update in time moves a claim and starts its life again, and leaves it at least the life that
it had. Nothing moves a claim any more once it has expired. A spend of its output by a transaction
that would move it is held back until the updates are in; they leave the expired claim where it is,
and then it is given up.

The spend looks up the output to find the claim. Of several claims that were created in one output
only the last is found there, and the others survive.
-/

import ClaimLedger.Proofs.Ledger.Lifetime

namespace ClaimLedger

namespace Ledger

end Ledger

namespace BlockWork

open Ledger

/-! ### Updates -/

section Updating

variable {rules : Rules} {blocks : Nat} {work : BlockWork} {hash : ClaimHash} {height : Height}
variable {txs : List BlockTx} {claim : Claim}

end Updating

/-! ### Claims that are looked at once more -/

section Recheck

variable {rules : Rules} {blocks : Nat} {work : BlockWork} {hash : ClaimHash} {height : Height}
variable {txs : List BlockTx} {claim : Claim} {ledger : Ledger}

/-- Every claim that is not as it was in the ledger will be looked at once more. -/
def Remembers (ledger : Ledger) (work : BlockWork) : Prop :=
  ∀ (hash : ClaimHash) (claim : Claim), work.ledger.claims[hash]? = some claim →
    ledger.claims[hash]? = some claim ∨ hash ∈ work.recheck

namespace Remembers

theorem abandon (remembers : Remembers ledger work) (hash : ClaimHash) :
    Remembers ledger (work.abandon hash) := by
  rw [BlockWork.abandon]
  split
  · exact remembers
  · intro other row live
    rw [getElem?_claims_removeClaim] at live
    split at live
    · cases live
    · exact remembers other row live

theorem spend (remembers : Remembers ledger work) (txs : List BlockTx) (outpoint : OutPoint) :
    Remembers ledger (work.spend txs outpoint) := by
  rw [BlockWork.spend]
  split
  · exact remembers
  · split
    · exact remembers
    · split
      · exact fun hash row live => (remembers hash row live).imp_right (List.mem_append_left _)
      · exact remembers.abandon _

theorem create (remembers : Remembers ledger work) (event : BlockTx × TxEvent) :
    Remembers ledger (work.create height event) := by
  rw [BlockWork.create.eq_def]
  split
  · split
    · exact remembers
    · intro hash row live
      rw [getElem?_claims_addClaim] at live
      split at live
      · next same => exact .inr (List.mem_append_right _ (List.mem_singleton.mpr same.symm))
      · exact (remembers hash row live).imp_right (List.mem_append_left _)
  · exact remembers

theorem update (remembers : Remembers ledger work) (keyed : work.ledger.Keyed)
    (event : BlockTx × TxEvent) : Remembers ledger (work.update height event) := by
  rw [BlockWork.update.eq_def]
  split
  · split
    · exact remembers
    · next claim found =>
      split
      · exact remembers
      · intro hash row live
        have here := keyed.claims found
        rw [getElem?_claims_moveClaim, here] at live
        split at live
        · next same => exact .inr (List.mem_append_right _ (List.mem_singleton.mpr same.symm))
        · exact (remembers hash row live).imp_right (List.mem_append_left _)
  · exact remembers

theorem creates (remembers : Remembers ledger work) (height : Height) (txs : List BlockTx) :
    Remembers ledger (work.creates height txs) := by
  refine List.foldlRecOn (motive := Remembers ledger) _ _ ?_
    fun _ remembers event _ => remembers.create event
  exact List.foldlRecOn (motive := Remembers ledger) _ _ remembers
    fun _ remembers outpoint _ => remembers.spend txs outpoint

end Remembers

end Recheck

end BlockWork

/-! ## One block -/

namespace Ledger

section Block

variable {ledger : Ledger} {height : Height} {txs : List BlockTx}

variable {rules : Rules} {blocks : Nat} {hash : ClaimHash} {claim : Claim}

end Block

end Ledger

end ClaimLedger
