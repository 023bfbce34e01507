/-
# The marks of a ledger

Whatever a block does to a ledger, its marks keep account of all differences to
the store that was written last. The one thing to watch is a row that comes in:
a stored row of that key would keep its old name and place, so the key must not
be stored. On a chain that never repeats an output or a claim it is not.

`TrackedBy` leaves open which columns of a stored row a write keeps. Where it keeps none, the
marks keep account of every block.
-/

import ClaimLedger.Ledger.Apply
import ClaimLedger.Ledger.Lemmas
import ClaimLedger.Proofs.Ledger.Changes
import ClaimLedger.Proofs.RowStore.Commit

namespace ClaimLedger

/-- The store has the rows of the ledger. -/
structure RowStore.Mirrors (store : RowStore) (ledger : Ledger) : Prop where
  claims : store.claims = ledger.claims
  supports : store.supports = ledger.supports
  takeovers : ∀ name : Bytes, store.takeovers[name]? = ledger.takeover? name

/-! ## Marks and what a write keeps -/

/-- The marks of the ledger account for everything in which it differs from the store, where
writing a row over another one leaves what the merges say. -/
structure TrackedBy (mergeClaim : Claim → Claim → Claim)
    (mergeSupport : Support → Support → Support) (store : RowStore) (ledger : Ledger) : Prop where
  claims : Marked mergeClaim store.claims ledger.claims ledger.dirty.claims
    ledger.dirty.deletedClaims
  supports : Marked mergeSupport store.supports ledger.supports ledger.dirty.supports
    ledger.dirty.deletedSupports
  takeovers : ∀ {name : Bytes}, name ∉ ledger.dirty.takeovers →
    store.takeovers[name]? = ledger.takeover? name
  claim_hash : ∀ {hash : ClaimHash} {claim : Claim},
    ledger.claims[hash]? = some claim → claim.hash = hash
  support_outpoint : ∀ {outpoint : OutPoint} {support : Support},
    ledger.supports[outpoint]? = some support → support.outpoint = outpoint

/-- What a write keeps of a row is what never changes while the row is live. -/
structure Steady (mergeClaim : Claim → Claim → Claim)
    (mergeSupport : Support → Support → Support) : Prop where
  claim : ∀ {a b c : Claim}, mergeClaim a b = b → mergeClaim b c = c → mergeClaim a c = c
  support : ∀ {a b c : Support}, mergeSupport a b = b → mergeSupport b c = c →
    mergeSupport a c = c
  moved : ∀ (rules : Rules) (height : Height) (outpoint : OutPoint) (amount : Amount)
    (owner : Bytes) (claim : Claim),
    mergeClaim claim (claim.moved rules height outpoint amount owner) =
      claim.moved rules height outpoint amount owner
  admittedClaim : ∀ (height : Height) (claim : Claim),
    mergeClaim claim (claim.admitted height) = claim.admitted height
  refreshed : ∀ (claim : Claim) (effective : Amount),
    mergeClaim claim { claim with effective } = { claim with effective }
  admittedSupport : ∀ (height : Height) (support : Support),
    mergeSupport support (support.admitted height) = support.admitted height

theorem steady_merge : Steady Claim.merge Support.merge where
  claim := Claim.merge_steady
  support := Support.merge_steady
  moved _ _ _ _ _ _ := rfl
  admittedClaim _ _ := rfl
  refreshed _ _ := rfl
  admittedSupport _ _ := rfl

/-- A write that keeps nothing at all. -/
theorem steady_overwrite : Steady (fun _ claim => claim) fun _ support => support where
  claim _ _ := rfl
  support _ _ := rfl
  moved _ _ _ _ _ _ := rfl
  admittedClaim _ _ := rfl
  refreshed _ _ := rfl
  admittedSupport _ _ := rfl

namespace TrackedBy

variable {mergeClaim : Claim → Claim → Claim} {mergeSupport : Support → Support → Support}
variable {store : RowStore} {ledger other before after : Ledger} {claim old : Claim}
variable {added kept : Support} {height : Height} {txs : List BlockTx}

/-- A ledger without marks is tracked by a store that mirrors it. -/
theorem of_mirrors (mirrors : store.Mirrors ledger)
    (claim_hash : ∀ {hash : ClaimHash} {claim : Claim},
      ledger.claims[hash]? = some claim → claim.hash = hash)
    (support_outpoint : ∀ {outpoint : OutPoint} {support : Support},
      ledger.supports[outpoint]? = some support → support.outpoint = outpoint)
    (clean : ledger.dirty = {}) : TrackedBy mergeClaim mergeSupport store ledger where
  claims := by
    rw [mirrors.claims, clean]
    exact Marked.refl mergeClaim ledger.claims
  supports := by
    rw [mirrors.supports, clean]
    exact Marked.refl mergeSupport ledger.supports
  takeovers := fun _ => mirrors.takeovers _
  claim_hash := claim_hash
  support_outpoint := support_outpoint

/-- Only the rows, the marks and control count. -/
theorem congr (tracked : TrackedBy mergeClaim mergeSupport store ledger)
    (claims : other.claims = ledger.claims) (supports : other.supports = ledger.supports)
    (dirty : other.dirty = ledger.dirty)
    (takeovers : ∀ name, other.takeover? name = ledger.takeover? name) :
    TrackedBy mergeClaim mergeSupport store other where
  claims := by
    rw [claims, dirty]
    exact tracked.claims
  supports := by
    rw [supports, dirty]
    exact tracked.supports
  takeovers := by
    intro name
    rw [dirty, takeovers]
    exact tracked.takeovers
  claim_hash := by
    rw [claims]
    exact tracked.claim_hash
  support_outpoint := by
    rw [supports]
    exact tracked.support_outpoint

/-- A claim may come in that agrees with the stored one in what a write keeps. -/
theorem addClaim (tracked : TrackedBy mergeClaim mergeSupport store ledger)
    (agrees : ∀ {old : Claim}, store.claims[claim.hash]? = some old →
      mergeClaim old claim = claim) :
    TrackedBy mergeClaim mergeSupport store (ledger.addClaim claim) where
  claims := tracked.claims.put claim agrees
  supports := tracked.supports
  takeovers unmarked := (tracked.takeovers unmarked).trans (Ledger.takeover?_addClaim claim _).symm
  claim_hash := by
    intro hash row live
    rw [Ledger.getElem?_claims_addClaim] at live
    split at live
    · next same =>
      cases live
      exact same
    · exact tracked.claim_hash live
  support_outpoint := tracked.support_outpoint

/-- A support may come in that agrees with the stored one in what a write keeps. -/
theorem addSupport (tracked : TrackedBy mergeClaim mergeSupport store ledger)
    (agrees : ∀ {old : Support}, store.supports[added.outpoint]? = some old →
      mergeSupport old added = added) :
    TrackedBy mergeClaim mergeSupport store (ledger.addSupport added) where
  claims := tracked.claims
  supports := tracked.supports.put added agrees
  takeovers unmarked :=
    (tracked.takeovers unmarked).trans (Ledger.takeover?_addSupport added _).symm
  claim_hash := tracked.claim_hash
  support_outpoint := by
    intro outpoint row live
    rw [Ledger.getElem?_supports_addSupport] at live
    split at live
    · next same =>
      cases live
      exact same
    · exact tracked.support_outpoint live

theorem removeClaim (tracked : TrackedBy mergeClaim mergeSupport store ledger) (claim : Claim) :
    TrackedBy mergeClaim mergeSupport store (ledger.removeClaim claim) where
  claims := tracked.claims.erase claim.hash
  supports := tracked.supports
  takeovers unmarked :=
    (tracked.takeovers unmarked).trans (Ledger.takeover?_removeClaim claim _).symm
  claim_hash := by
    intro hash row live
    rw [Ledger.getElem?_claims_removeClaim] at live
    split at live
    · cases live
    · exact tracked.claim_hash live
  support_outpoint := tracked.support_outpoint

theorem removeSupport (tracked : TrackedBy mergeClaim mergeSupport store ledger)
    (support : Support) :
    TrackedBy mergeClaim mergeSupport store (ledger.removeSupport support) where
  claims := tracked.claims
  supports := tracked.supports.erase support.outpoint
  takeovers unmarked :=
    (tracked.takeovers unmarked).trans (Ledger.takeover?_removeSupport support _).symm
  claim_hash := tracked.claim_hash
  support_outpoint := by
    intro outpoint row live
    rw [Ledger.getElem?_supports_removeSupport] at live
    split at live
    · cases live
    · exact tracked.support_outpoint live

/-- A live claim may change in what a write does not keep. -/
theorem putClaim (tracked : TrackedBy mergeClaim mergeSupport store ledger)
    (steady : Steady mergeClaim mergeSupport) (live : ledger.claims[claim.hash]? = some old)
    (agrees : mergeClaim old claim = claim) :
    TrackedBy mergeClaim mergeSupport store (ledger.putClaim claim) where
  claims := tracked.claims.rewrite steady.claim live agrees
  supports := tracked.supports
  takeovers := tracked.takeovers
  claim_hash := by
    intro hash row live
    rw [Ledger.getElem?_claims_putClaim] at live
    split at live
    · next same =>
      cases live
      exact same
    · exact tracked.claim_hash live
  support_outpoint := tracked.support_outpoint

/-- A live support may change in what a write does not keep. -/
theorem putSupport (tracked : TrackedBy mergeClaim mergeSupport store ledger)
    (steady : Steady mergeClaim mergeSupport)
    (live : ledger.supports[added.outpoint]? = some kept)
    (agrees : mergeSupport kept added = added) :
    TrackedBy mergeClaim mergeSupport store (ledger.putSupport added) where
  claims := tracked.claims
  supports := tracked.supports.rewrite steady.support live agrees
  takeovers := tracked.takeovers
  claim_hash := tracked.claim_hash
  support_outpoint := by
    intro outpoint row live
    rw [Ledger.getElem?_supports_putSupport] at live
    split at live
    · next same =>
      cases live
      exact same
    · exact tracked.support_outpoint live

theorem setTakeover (tracked : TrackedBy mergeClaim mergeSupport store ledger) (name : Bytes)
    (takeover : Option Takeover) :
    TrackedBy mergeClaim mergeSupport store (ledger.setTakeover name takeover) where
  claims := tracked.claims
  supports := tracked.supports
  takeovers := by
    intro other unmarked
    have unmarked : other ∉ ledger.dirty.takeovers.insert name := unmarked
    rw [mem_insert_iff, not_or] at unmarked
    rw [Ledger.takeover?_setTakeover, if_neg unmarked.1]
    exact tracked.takeovers unmarked.2
  claim_hash := tracked.claim_hash
  support_outpoint := tracked.support_outpoint

/-- One change of a block is accounted for, as long as what it brings in agrees with the stored
row of its key. -/
theorem change (steady : Steady mergeClaim mergeSupport)
    (newClaims : ∀ hash ∈ BlockTx.allCreated txs, ∀ {old claim : Claim},
      store.claims[hash]? = some old → mergeClaim old claim = claim)
    (newSupports : ∀ outpoint ∈ BlockTx.allOutputs txs, ∀ {old support : Support},
      store.supports[outpoint]? = some old → mergeSupport old support = support)
    (step : Ledger.Change height txs before after)
    (tracked : TrackedBy mergeClaim mergeSupport store before) :
    TrackedBy mergeClaim mergeSupport store after := by
  cases step with
  | unseen claims supports dirty takeovers => exact tracked.congr claims supports dirty takeovers
  | addClaim listed =>
    exact tracked.addClaim (newClaims _ (List.mem_filterMap.mpr ⟨_, listed, rfl⟩))
  | moveClaim outpoint amount owner live =>
    have here := tracked.claim_hash live
    have moved : TrackedBy mergeClaim mergeSupport store
        (before.putClaim (Claim.moved before.rules height outpoint amount owner _)) :=
      tracked.putClaim steady (here.symm ▸ live) (steady.moved _ _ _ _ _ _)
    exact moved.congr rfl rfl rfl fun _ => rfl
  | removeClaim claim => exact tracked.removeClaim claim
  | addSupport listed =>
    exact tracked.addSupport (newSupports _ (List.mem_filterMap.mpr ⟨_, listed, rfl⟩))
  | removeSupport support => exact tracked.removeSupport support
  | admitClaim live =>
    have here := tracked.claim_hash live
    exact tracked.putClaim steady (here.symm ▸ live) (steady.admittedClaim _ _)
  | admitSupport live =>
    have here := tracked.support_outpoint live
    exact tracked.putSupport steady (here.symm ▸ live) (steady.admittedSupport _ _)
  | refreshClaim effective live =>
    have here := tracked.claim_hash live
    exact tracked.putClaim steady (here.symm ▸ live) (steady.refreshed _ _)
  | setTakeover name takeover => exact tracked.setTakeover name takeover

/-- Where a write keeps nothing, the marks account for every block. -/
theorem applyBlock_overwrite
    (tracked : TrackedBy (fun _ claim => claim) (fun _ support => support) store ledger)
    (height : Height) (txs : List BlockTx) :
    TrackedBy (fun _ claim => claim) (fun _ support => support) store
      (ledger.applyBlock height txs).1 :=
  (ledger.changed_applyBlock height txs).keep
    (change steady_overwrite (fun _ _ _ _ _ => rfl) fun _ _ _ _ _ => rfl) tracked

/-- Writing the marked records of control makes them those of the ledger. -/
theorem takeovers_commit (tracked : TrackedBy mergeClaim mergeSupport store ledger)
    (file : UInt32) (height : Height) (name : Bytes) :
    (store.commit ⟨file, height, ledger.changes⟩).takeovers[name]? = ledger.takeover? name := by
  rw [RowStore.takeovers_commit]
  apply (getElem?_foldl_putRow store.takeovers ledger.dirty.takeovers.toList name
    ledger.takeover?).trans
  by_cases marked : name ∈ ledger.dirty.takeovers
  · rw [if_pos (Std.ExtTreeSet.mem_toList.mpr marked)]
  · rw [if_neg (mt Std.ExtTreeSet.mem_toList.mp marked), tracked.takeovers marked]

end TrackedBy

/-- The marks of the ledger account for everything in which it differs from the
store. -/
abbrev Tracked (store : RowStore) (ledger : Ledger) : Prop :=
  TrackedBy Claim.merge Support.merge store ledger

namespace Tracked

variable {store : RowStore} {ledger : Ledger} {height : Height} {txs : List BlockTx}

/-- A block keeps account of what it does, whether or not it is accepted, as long as it creates
no stored claim and adds no stored support. -/
theorem applyBlock (tracked : Tracked store ledger)
    (newClaims : ∀ hash ∈ BlockTx.allCreated txs, store.claims[hash]? = none)
    (newSupports : ∀ outpoint ∈ BlockTx.allOutputs txs, store.supports[outpoint]? = none) :
    Tracked store (ledger.applyBlock height txs).1 := by
  refine (ledger.changed_applyBlock height txs).keep
    (TrackedBy.change steady_merge (fun hash created old claim stored => ?_)
      fun outpoint produced old support stored => ?_) tracked
  · rw [newClaims hash created] at stored
    cases stored
  · rw [newSupports outpoint produced] at stored
    cases stored

/-! ## Writing -/

/-- Writing the marked rows makes the store mirror the ledger. -/
theorem mirrors_commit (tracked : Tracked store ledger) (file : UInt32) (height : Height) :
    (store.commit ⟨file, height, ledger.changes⟩).Mirrors ledger where
  claims := by
    rw [RowStore.claims_commit]
    exact tracked.claims.writeTable_eq tracked.claim_hash
  supports := by
    rw [RowStore.supports_commit]
    exact tracked.supports.writeTable_eq tracked.support_outpoint
  takeovers := tracked.takeovers_commit file height

end Tracked

end ClaimLedger
