/-
# What holds of every row

Some facts about a ledger are facts about its rows one by one: a row is kept
under its own key, and no claim competes before the block that created it. Such
a property holds of every row after a block if new rows have it and every change
of a row keeps it, whatever the events of the block are and whether or not the
indexes follow from the rows. `Upheld` lists what has to be shown of a property,
and `EachRow.applyBlock` is the way through a block.
-/

import ClaimLedger.Proofs.Ledger.Changes

namespace ClaimLedger

namespace Ledger

/-- Every claim has one property, and every support another, each together with
the key that it is kept under. -/
structure EachRow (P : ClaimHash → Claim → Prop) (Q : OutPoint → Support → Prop)
    (ledger : Ledger) : Prop where
  claims : ∀ {hash : ClaimHash} {claim : Claim}, ledger.claims[hash]? = some claim → P hash claim
  supports : ∀ {outpoint : OutPoint} {support : Support},
    ledger.supports[outpoint]? = some support → Q outpoint support

/-- Everything that a block does to rows upholds the properties. Where
`faultless` holds, a new row may rely on the start of its term being a height. -/
structure Upheld (faultless : Prop) (height : Height) (txs : List BlockTx)
    (P : ClaimHash → Claim → Prop) (Q : OutPoint → Support → Prop) : Prop where
  claim_hash : ∀ {hash : ClaimHash} {claim : Claim}, P hash claim → claim.hash = hash
  support_outpoint : ∀ {outpoint : OutPoint} {support : Support},
    Q outpoint support → support.outpoint = outpoint
  newClaim : ∀ (ledger : Ledger) {tx : BlockTx} {outpoint : OutPoint} {name : Bytes}
    {hash : ClaimHash} {amount : Amount} {owner : Bytes},
    (tx, TxEvent.create outpoint name hash amount owner) ∈ BlockTx.allEvents txs →
      (faultless → ledger.startFault? name height = none) →
        P hash (ledger.newClaim height tx.index outpoint name hash amount owner)
  moved : ∀ (rules : Rules) {tx : BlockTx} {outpoint : OutPoint} {name : Bytes}
    {hash : ClaimHash} {amount : Amount} {owner : Bytes} {claim : Claim},
    (tx, TxEvent.update outpoint name hash amount owner) ∈ BlockTx.allEvents txs →
      P hash claim → P hash (claim.moved rules height outpoint amount owner)
  newSupport : ∀ (ledger : Ledger) {tx : BlockTx} {outpoint : OutPoint} {name : Bytes}
    {hash : ClaimHash} {amount : Amount},
    (tx, TxEvent.support outpoint name hash amount) ∈ BlockTx.allEvents txs →
      Q outpoint (ledger.newSupport height outpoint name hash amount)
  admittedClaim : ∀ {hash : ClaimHash} {claim : Claim},
    P hash claim → P hash (claim.admitted height)
  admittedSupport : ∀ {outpoint : OutPoint} {support : Support},
    Q outpoint support → Q outpoint (support.admitted height)
  refreshed : ∀ {hash : ClaimHash} {claim : Claim} (effective : Amount),
    P hash claim → P hash { claim with effective }

namespace EachRow

variable {P P' : ClaimHash → Claim → Prop} {Q Q' : OutPoint → Support → Prop}
variable {ledger other : Ledger} {claim : Claim} {support : Support}

theorem empty (rules : Rules) : EachRow P Q (empty rules) where
  claims := by simp [Ledger.empty]
  supports := by simp [Ledger.empty]

theorem mono (rows : EachRow P Q ledger)
    (claims : ∀ {hash : ClaimHash} {claim : Claim}, P hash claim → P' hash claim)
    (supports : ∀ {outpoint : OutPoint} {support : Support},
      Q outpoint support → Q' outpoint support) : EachRow P' Q' ledger where
  claims := fun live => claims (rows.claims live)
  supports := fun live => supports (rows.supports live)

/-- Only the rows count. -/
theorem congr (rows : EachRow P Q ledger) (claims : other.claims = ledger.claims)
    (supports : other.supports = ledger.supports) : EachRow P Q other where
  claims := fun live => rows.claims (claims ▸ live)
  supports := fun live => rows.supports (supports ▸ live)

/-! ## Changes of rows -/

theorem putClaim (rows : EachRow P Q ledger) {hash : ClaimHash} (here : claim.hash = hash)
    (fine : P hash claim) : EachRow P Q (ledger.putClaim claim) where
  claims := by
    intro other row live
    rw [getElem?_claims_putClaim, here] at live
    split at live
    · next same =>
      cases live
      exact same ▸ fine
    · exact rows.claims live
  supports := rows.supports

theorem putSupport (rows : EachRow P Q ledger) {outpoint : OutPoint}
    (here : support.outpoint = outpoint) (fine : Q outpoint support) :
    EachRow P Q (ledger.putSupport support) where
  claims := rows.claims
  supports := by
    intro other row live
    rw [getElem?_supports_putSupport, here] at live
    split at live
    · next same =>
      cases live
      exact same ▸ fine
    · exact rows.supports live

theorem removeClaim (rows : EachRow P Q ledger) (claim : Claim) :
    EachRow P Q (ledger.removeClaim claim) where
  claims := by
    intro hash row live
    rw [getElem?_claims_removeClaim] at live
    split at live
    · cases live
    · exact rows.claims live
  supports := rows.supports

theorem removeSupport (rows : EachRow P Q ledger) (support : Support) :
    EachRow P Q (ledger.removeSupport support) where
  claims := rows.claims
  supports := by
    intro outpoint row live
    rw [getElem?_supports_removeSupport] at live
    split at live
    · cases live
    · exact rows.supports live

theorem prune (rows : EachRow P Q ledger) (name : Bytes) : EachRow P Q (ledger.prune name) :=
  rows.congr (ledger.claims_prune name) (ledger.supports_prune name)

/-! ## Settling -/

section Settling

variable {faultless : Prop} {height : Height} {txs : List BlockTx}
variable (upheld : Upheld faultless height txs P Q)

include upheld

theorem settling (rows : EachRow P Q ledger) (step : Settling height ledger other) :
    EachRow P Q other := by
  cases step with
  | unseen claims supports _ _ => exact rows.congr claims supports
  | admitClaim live =>
    have fine := upheld.admittedClaim (rows.claims live)
    exact rows.putClaim (upheld.claim_hash fine) fine
  | admitSupport live =>
    have fine := upheld.admittedSupport (rows.supports live)
    exact rows.putSupport (upheld.support_outpoint fine) fine
  | refreshClaim effective live =>
    have fine := upheld.refreshed effective (rows.claims live)
    exact rows.putClaim (upheld.claim_hash fine) fine
  | setTakeover _ _ => exact rows.congr rfl rfl

theorem settles (rows : EachRow P Q ledger) (settles : Settles height ledger other) :
    EachRow P Q other :=
  settles.keep (fun step rows => rows.settling upheld step) rows

theorem settle (rows : EachRow P Q ledger) (name : Bytes) :
    EachRow P Q (ledger.settle name height).1 :=
  rows.settles upheld (Settles.refl.settle name)

theorem settleAll (rows : EachRow P Q ledger) (names : List Bytes) :
    EachRow P Q (Ledger.settleAll height names ledger).1 :=
  rows.settles upheld (Settles.refl.settleAll names)

end Settling

end EachRow

end Ledger

/-! ## A whole block -/

namespace BlockWork

open Ledger (EachRow Upheld)

variable {faultless : Prop} {height : Height} {txs : List BlockTx} {work : BlockWork}
variable {P : ClaimHash → Claim → Prop} {Q : OutPoint → Support → Prop}

/-- The rows of a block on its way have the properties, as far as these rely on
numbers that were not missing. -/
def RowsSoFar (faultless : Prop) (P : ClaimHash → Claim → Prop) (Q : OutPoint → Support → Prop)
    (work : BlockWork) : Prop :=
  (faultless → work.fault = none) → EachRow P Q work.ledger

namespace RowsSoFar

theorem abandon (rows : RowsSoFar faultless P Q work) (hash : ClaimHash) :
    RowsSoFar faultless P Q (work.abandon hash) := by
  rw [BlockWork.abandon]
  split
  · exact rows
  · exact fun fine => (rows fine).removeClaim _

theorem spend (rows : RowsSoFar faultless P Q work) (txs : List BlockTx) (outpoint : OutPoint) :
    RowsSoFar faultless P Q (work.spend txs outpoint) := by
  rw [BlockWork.spend]
  split
  · exact fun fine => (rows fine).removeSupport _
  · split
    · exact rows
    · split
      · exact rows
      · exact rows.abandon _

theorem recheckClaim (rows : RowsSoFar faultless P Q work) (spent : Std.ExtTreeSet OutPoint)
    (hash : ClaimHash) : RowsSoFar faultless P Q (work.recheckClaim spent hash) := by
  rw [BlockWork.recheckClaim]
  split
  · exact rows
  · split
    · exact rows.abandon hash
    · exact rows

variable (upheld : Upheld faultless height txs P Q) {event : BlockTx × TxEvent}

include upheld

theorem create (rows : RowsSoFar faultless P Q work) (listed : event ∈ BlockTx.allEvents txs) :
    RowsSoFar faultless P Q (work.create height event) := by
  unfold BlockWork.create
  split
  · next tx outpoint name hash amount owner =>
    split
    · exact rows
    · intro fine
      have none (needed : faultless) :
          work.fault = none ∧ work.ledger.startFault? name height = none := by
        have fine : (work.fault <|> work.ledger.startFault? name height) = none := fine needed
        simpa using fine
      have new := upheld.newClaim work.ledger listed fun needed => (none needed).2
      exact ((rows fun needed => (none needed).1).putClaim rfl new).congr rfl rfl
  · exact rows

theorem update (rows : RowsSoFar faultless P Q work) (listed : event ∈ BlockTx.allEvents txs) :
    RowsSoFar faultless P Q (work.update height event) := by
  unfold BlockWork.update
  split
  · next tx outpoint name hash amount owner =>
    split
    · exact rows
    · next claim live =>
      split
      · exact rows
      · intro fine
        have moved := upheld.moved work.ledger.rules listed ((rows fine).claims live)
        exact ((rows fine).putClaim (upheld.claim_hash moved) moved).congr rfl rfl
  · exact rows

theorem support (rows : RowsSoFar faultless P Q work) (spent : Std.ExtTreeSet OutPoint)
    (listed : event ∈ BlockTx.allEvents txs) :
    RowsSoFar faultless P Q (work.support height spent event) := by
  unfold BlockWork.support
  split
  · next tx outpoint name hash amount =>
    split
    · exact rows
    · intro fine
      have before (needed : faultless) : work.fault = none := by
        have fine : (work.fault <|> _) = none := fine needed
        simp only [Option.orElse_eq_orElse, Option.orElse_eq_or, Option.or_eq_none_iff] at fine
        exact fine.1
      have new := upheld.newSupport work.ledger listed
      exact ((rows before).putSupport rfl new).congr rfl rfl
  · exact rows

/-- The phases of a block uphold the properties of rows. -/
theorem run (rows : RowsSoFar faultless P Q work) :
    RowsSoFar faultless P Q (work.run height txs) := by
  rw [BlockWork.run]
  refine List.foldlRecOn _ _ ?_ fun _ rows event listed => rows.support upheld _ listed
  refine List.foldlRecOn _ _ ?_ fun _ rows hash _ => rows.recheckClaim _ hash
  refine List.foldlRecOn _ _ ?_ fun _ rows event listed => rows.update upheld listed
  refine List.foldlRecOn _ _ ?_ fun _ rows event listed => rows.create upheld listed
  exact List.foldlRecOn _ _ rows fun _ rows outpoint _ => rows.spend txs outpoint

end RowsSoFar

end BlockWork

namespace Ledger.EachRow

variable {faultless : Prop} {height : Height} {txs : List BlockTx} {ledger : Ledger}
variable {P : ClaimHash → Claim → Prop} {Q : OutPoint → Support → Prop}

/-- What is left of a block before names are settled. -/
theorem run (upheld : Upheld faultless height txs P Q) (rows : EachRow P Q ledger)
    (fine : faultless → ((BlockWork.start ledger height).run height txs).fault = none) :
    EachRow P Q ((BlockWork.start ledger height).run height txs).ledger := by
  have start : BlockWork.RowsSoFar faultless P Q (BlockWork.start ledger height) :=
    fun _ => rows.congr rfl rfl
  exact start.run upheld fine

/-- Whether or not a block is accepted, its rows have the properties in the end. -/
theorem applyBlock (upheld : Upheld faultless height txs P Q) (rows : EachRow P Q ledger)
    (fine : faultless → ((BlockWork.start ledger height).run height txs).fault = none) :
    EachRow P Q (ledger.applyBlock height txs).1 := by
  have ran := rows.run upheld fine
  have settled := ran.settleAll upheld
    ((BlockWork.start ledger height).run height txs).touched.toList
  rw [Ledger.applyBlock]
  split
  · exact rows
  · simp only
    split
    · exact rows
    · split
      · exact ran
      · split
        · next after failure result =>
          rw [result] at settled
          exact settled
        · next after takeovers result =>
          rw [result] at settled
          exact settled.congr rfl rfl

end Ledger.EachRow

end ClaimLedger
