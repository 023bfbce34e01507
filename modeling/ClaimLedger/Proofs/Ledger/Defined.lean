/-
# When the rules have a value

A newcomer waits for a share of the time that the controller has been in place.
That share is undefined for a delay factor of zero, and in the upper half of all
heights the end of the wait may be beyond the last one. Anywhere else no block
is refused for want of a number.
-/

import ClaimLedger.Ledger.Apply

namespace ClaimLedger

/-- Nobody waits longer than the chain is high. -/
theorem Rules.toNat_activationDelay_le (rules : Rules) (height takeover : Height) :
    (rules.activationDelay height takeover).toNat ≤ height.toNat := by
  have share : (Height.minus height takeover / rules.delayFactor).toNat ≤ height.toNat := by
    rw [UInt32.toNat_div, Height.toNat_minus]
    exact Nat.le_trans (Nat.div_le_self _ _) (Nat.sub_le _ _)
  rw [activationDelay]
  change (if _ ≤ _ then _ else _ : Height).toNat ≤ _
  split
  · exact share
  · next longer =>
    have capped := UInt32.lt_iff_toNat_lt.mp (UInt32.not_le.mp longer)
    omega

namespace Ledger

theorem toNat_newcomerDelay_le (ledger : Ledger) (name : Bytes) (height : Height) :
    (ledger.newcomerDelay name height).toNat ≤ height.toNat := by
  rw [newcomerDelay]
  split
  · exact ledger.rules.toNat_activationDelay_le _ _
  · exact Nat.zero_le _

theorem startFault?_eq_none {ledger : Ledger} {height : Height}
    (defined : ledger.rules.delayFactor ≠ 0) (low : height.toNat < 0x80000000) (name : Bytes) :
    ledger.startFault? name height = none := by
  have short := ledger.toNat_newcomerDelay_le name height
  have exact : ¬ height + ledger.newcomerDelay name height < height := by
    rw [UInt32.lt_iff_toNat_lt, UInt32.toNat_add]
    omega
  rw [startFault?]
  rw [if_neg (by simp [defined]), if_neg exact]

end Ledger

namespace BlockWork

open Ledger

/-- The block runs under the given rules, and no number was missing so far. -/
structure Faultless (rules : Rules) (work : BlockWork) : Prop where
  rules : work.ledger.rules = rules
  fault : work.fault = none

namespace Faultless

variable {rules : Rules} {height : Height} {work : BlockWork}

theorem abandon (faultless : work.Faultless rules) (hash : ClaimHash) :
    (work.abandon hash).Faultless rules := by
  rw [BlockWork.abandon]
  split
  · exact faultless
  · exact ⟨faultless.rules, faultless.fault⟩

theorem spend (faultless : work.Faultless rules) (txs : List BlockTx) (outpoint : OutPoint) :
    (work.spend txs outpoint).Faultless rules := by
  rw [BlockWork.spend]
  split
  · exact ⟨faultless.rules, faultless.fault⟩
  · split
    · exact faultless
    · split
      · exact ⟨faultless.rules, faultless.fault⟩
      · exact faultless.abandon _

theorem recheckClaim (faultless : work.Faultless rules) (spent : Std.ExtTreeSet OutPoint)
    (hash : ClaimHash) : (work.recheckClaim spent hash).Faultless rules := by
  rw [BlockWork.recheckClaim]
  split
  · exact faultless
  · split
    · exact faultless.abandon hash
    · exact faultless

theorem update (faultless : work.Faultless rules) (event : BlockTx × TxEvent) :
    (work.update height event).Faultless rules := by
  unfold BlockWork.update
  split
  · split
    · exact faultless
    · split
      · exact faultless
      · exact ⟨faultless.rules, faultless.fault⟩
  · exact faultless

variable (defined : rules.delayFactor ≠ 0) (low : height.toNat < 0x80000000)

include defined low

theorem create (faultless : work.Faultless rules) (event : BlockTx × TxEvent) :
    (work.create height event).Faultless rules := by
  have fine := startFault?_eq_none (faultless.rules ▸ defined) low
  unfold BlockWork.create
  split
  · split
    · exact faultless
    · exact ⟨faultless.rules, by simp only [faultless.fault, fine]; rfl⟩
  · exact faultless

theorem support (faultless : work.Faultless rules) (spent : Std.ExtTreeSet OutPoint)
    (event : BlockTx × TxEvent) : (work.support height spent event).Faultless rules := by
  have fine := startFault?_eq_none (faultless.rules ▸ defined) low
  unfold BlockWork.support
  split
  · split
    · exact faultless
    · exact ⟨faultless.rules, by simp only [faultless.fault, fine, ite_self]; rfl⟩
  · exact faultless

/-- The phases of a block find every number that they need. -/
theorem run (faultless : work.Faultless rules) (txs : List BlockTx) :
    (work.run height txs).Faultless rules := by
  rw [BlockWork.run]
  refine List.foldlRecOn _ _ ?_ fun _ faultless event _ =>
    faultless.support defined low _ event
  refine List.foldlRecOn _ _ ?_ fun _ faultless hash _ => faultless.recheckClaim _ hash
  refine List.foldlRecOn _ _ ?_ fun _ faultless event _ => faultless.update event
  refine List.foldlRecOn _ _ ?_ fun _ faultless event _ => faultless.create defined low event
  exact List.foldlRecOn _ _ faultless fun _ faultless outpoint _ => faultless.spend txs outpoint

end Faultless

theorem fault_run {ledger : Ledger} {height : Height}
    (defined : ledger.rules.delayFactor ≠ 0) (low : height.toNat < 0x80000000)
    (txs : List BlockTx) : ((start ledger height).run height txs).fault = none :=
  (Faultless.run defined low ⟨rfl, rfl⟩ txs).fault

end BlockWork

end ClaimLedger
