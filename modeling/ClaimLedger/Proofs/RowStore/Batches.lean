/-
# Batches

A ledger takes in blocks, and now and then what changed is handed out and
written as one batch. However the blocks are split into batches, the rows on
disk are those in memory after each of them: the marks of the ledger account for
every difference to what was written last, whatever became of the blocks. All it
takes is that no output and no claim comes twice, as a row that is stored
already keeps some of its columns.
-/

import ClaimLedger.Proofs.Ledger.EachRow
import ClaimLedger.Proofs.Ledger.Restart
import ClaimLedger.Proofs.RowStore.Tables

namespace ClaimLedger

/-- A ledger and its store, together with the tables that the store is kept in:
the blocks that were offered in order, the height of the last batch, and the
state of all three. A block that is refused for its events counts as offered. -/
inductive Followed (rules : Rules) :
    List (List BlockTx) → Option Height → Ledger → RowStore → Tables → Prop
  | start : Followed rules [] none (Ledger.empty rules) RowStore.empty Tables.empty
  | block {blocks : List (List BlockTx)} {last : Option Height} {ledger : Ledger}
      {store : RowStore} {tables : Tables}
      (followed : Followed rules blocks last ledger store tables) (txs : List BlockTx) :
      Followed rules (blocks ++ [txs]) last
        (ledger.applyBlock (Height.next ledger.height) txs).1 store tables
  | gap {blocks : List (List BlockTx)} {last : Option Height} {ledger : Ledger}
      {store : RowStore} {tables : Tables}
      (followed : Followed rules blocks last ledger store tables) {height : Height}
      (gap : height ≠ Height.next ledger.height) (txs : List BlockTx) :
      Followed rules blocks last (ledger.applyBlock height txs).1 store tables
  | batch {blocks : List (List BlockTx)} {last : Option Height} {ledger : Ledger}
      {store : RowStore} {tables : Tables}
      (followed : Followed rules blocks last ledger store tables) (file : UInt32)
      {height : Height} (later : ∀ earlier, last = some earlier → earlier ≤ height) :
      Followed rules blocks (some height) ledger.takeChanges.2
        (store.commit ⟨file, height, ledger.takeChanges.1⟩)
        (tables.commit ⟨file, height, ledger.takeChanges.1⟩)

/-! ## Rows and where they come from -/

variable {blocks : List (List BlockTx)} {txs : List BlockTx} {height : Height}
variable {ledger : Ledger} {store : RowStore}

/-- Every row is kept under its own key, and the key comes from the blocks. -/
abbrev Ledger.Known (blocks : List (List BlockTx)) : Ledger → Prop :=
  EachRow (fun hash claim => claim.hash = hash ∧ hash ∈ blocks.flatMap BlockTx.allCreated)
    fun outpoint support =>
      support.outpoint = outpoint ∧ outpoint ∈ blocks.flatMap BlockTx.allOutputs

namespace Ledger

theorem upheld_known (faultless : Prop) (height : Height) (blocks : List (List BlockTx))
    (txs : List BlockTx) :
    Upheld faultless height txs
      (fun hash claim =>
        claim.hash = hash ∧ hash ∈ (blocks ++ [txs]).flatMap BlockTx.allCreated)
      fun outpoint support =>
        support.outpoint = outpoint ∧ outpoint ∈ (blocks ++ [txs]).flatMap BlockTx.allOutputs where
  claim_hash := And.left
  support_outpoint := And.left
  newClaim := by
    intro _ _ _ _ _ _ _ listed _
    refine ⟨rfl, ?_⟩
    rw [List.flatMap_append, List.flatMap_singleton]
    exact List.mem_append_right _ (List.mem_filterMap.mpr ⟨_, listed, rfl⟩)
  moved := by
    intro _ _ _ _ _ _ _ _ _ fine
    exact fine
  newSupport := by
    intro _ _ _ _ _ _ listed
    refine ⟨rfl, ?_⟩
    rw [List.flatMap_append, List.flatMap_singleton]
    exact List.mem_append_right _ (List.mem_filterMap.mpr ⟨_, listed, rfl⟩)
  admittedClaim := id
  admittedSupport := id
  refreshed := fun _ => id

theorem Known.applyBlock (known : ledger.Known blocks) (height : Height) (txs : List BlockTx) :
    (ledger.applyBlock height txs).1.Known (blocks ++ [txs]) := by
  have known : ledger.Known (blocks ++ [txs]) := by
    refine known.mono (And.imp_right fun listed => ?_) (And.imp_right fun listed => ?_)
    all_goals
      rw [List.flatMap_append]
      exact List.mem_append_left _ listed
  exact EachRow.applyBlock (upheld_known False height blocks txs) known False.elim

end Ledger

/-- A fresh block brings in nothing that is stored, if all that is stored comes
from the blocks before it. -/
theorem Tracked.applyBlock_of_fresh (tracked : Tracked store ledger)
    (fresh : Fresh (blocks ++ [txs]))
    (claims : ∀ {hash : ClaimHash} {claim : Claim}, store.claims[hash]? = some claim →
      hash ∈ blocks.flatMap BlockTx.allCreated)
    (supports : ∀ {outpoint : OutPoint} {support : Support},
      store.supports[outpoint]? = some support → outpoint ∈ blocks.flatMap BlockTx.allOutputs)
    (height : Height) : Tracked store (ledger.applyBlock height txs).1 := by
  apply tracked.applyBlock
  · intro hash created
    rw [Option.eq_none_iff_forall_ne_some]
    intro claim stored
    exact (List.nodup_append.mp fresh.hashes_concat).2.2 hash (claims stored) hash created rfl
  · intro outpoint produced
    rw [Option.eq_none_iff_forall_ne_some]
    intro support stored
    exact (List.nodup_append.mp fresh.outputs_concat).2.2 outpoint (supports stored) outpoint
      produced rfl

/-! ## From batch to batch -/

/-- Between two batches the marks of the ledger account for everything in which
it differs from the store, and both have their rows from the blocks. -/
structure Following (blocks : List (List BlockTx)) (last : Option Height) (ledger : Ledger)
    (store : RowStore) : Prop where
  known : ledger.Known blocks
  tracked : Tracked store ledger
  claims : ∀ {hash : ClaimHash} {claim : Claim}, store.claims[hash]? = some claim →
    hash ∈ blocks.flatMap BlockTx.allCreated
  supports : ∀ {outpoint : OutPoint} {support : Support},
    store.supports[outpoint]? = some support → outpoint ∈ blocks.flatMap BlockTx.allOutputs
  last : store.lastSynced = last

namespace Following

variable {last : Option Height}

theorem start (rules : Rules) : Following [] none (Ledger.empty rules) RowStore.empty where
  known := Ledger.EachRow.empty rules
  tracked := by
    refine TrackedBy.of_mirrors ⟨rfl, rfl, fun name => ?_⟩ ?_ ?_ rfl
    · rw [Ledger.takeover?, Ledger.empty, RowStore.empty, Std.ExtTreeMap.getElem?_empty,
        Std.ExtTreeMap.getElem?_empty]
      rfl
    · simp [Ledger.empty]
    · simp [Ledger.empty]
  claims := by simp [RowStore.empty]
  supports := by simp [RowStore.empty]
  last := rfl

/-- A block keeps account of what it does, even if it is refused half way. -/
theorem block (following : Following blocks last ledger store) (fresh : Fresh (blocks ++ [txs]))
    (height : Height) :
    Following (blocks ++ [txs]) last (ledger.applyBlock height txs).1 store where
  known := following.known.applyBlock height txs
  tracked := following.tracked.applyBlock_of_fresh fresh following.claims following.supports height
  claims := by
    intro hash claim stored
    rw [List.flatMap_append]
    exact List.mem_append_left _ (following.claims stored)
  supports := by
    intro outpoint support stored
    rw [List.flatMap_append]
    exact List.mem_append_left _ (following.supports stored)
  last := following.last

/-- A block that is not the next one does nothing. -/
theorem gap (following : Following blocks last ledger store)
    (gap : height ≠ Height.next ledger.height) (txs : List BlockTx) :
    Following blocks last (ledger.applyBlock height txs).1 store := by
  rw [ledger.applyBlock_of_ne_next gap txs]
  exact following

/-- Once the changes are written, the store has the rows of the ledger. -/
theorem batch (following : Following blocks last ledger store) (file : UInt32)
    (later : ∀ earlier, last = some earlier → earlier ≤ height) :
    Following blocks (some height) ledger.takeChanges.2
      (store.commit ⟨file, height, ledger.takeChanges.1⟩) := by
  have mirrors : (store.commit ⟨file, height, ledger.takeChanges.1⟩).Mirrors ledger :=
    following.tracked.mirrors_commit file height
  exact {
    known := following.known.congr rfl rfl
    tracked := TrackedBy.of_mirrors ⟨mirrors.claims, mirrors.supports, mirrors.takeovers⟩
      following.tracked.claim_hash following.tracked.support_outpoint rfl
    claims := fun stored => (following.known.claims (mirrors.claims ▸ stored)).2
    supports := fun stored => (following.known.supports (mirrors.supports ▸ stored)).2
    last := RowStore.lastSynced_commit fun earlier reached =>
      later earlier (following.last.symm.trans reached) }

/-- The changes never name a claim both as written and as deleted, nor a
support. -/
theorem disjoint_changes (following : Following blocks last ledger store) :
    (ledger.takeChanges.1.claims.map Claim.hash).Disjoint ledger.takeChanges.1.deletedClaims ∧
      (ledger.takeChanges.1.supports.map Support.outpoint).Disjoint
        ledger.takeChanges.1.deletedSupports := by
  constructor
  · intro hash written deleted
    obtain ⟨claim, listed, rfl⟩ := List.mem_map.mp written
    obtain ⟨hash, changed, live⟩ := List.mem_filterMap.mp listed
    rw [following.tracked.claim_hash live] at deleted
    exact following.tracked.claims.apart (Std.ExtTreeSet.mem_toList.mp changed)
      (Std.ExtTreeSet.mem_toList.mp deleted)
  · intro outpoint written deleted
    obtain ⟨support, listed, rfl⟩ := List.mem_map.mp written
    obtain ⟨outpoint, changed, live⟩ := List.mem_filterMap.mp listed
    rw [following.tracked.support_outpoint live] at deleted
    exact following.tracked.supports.apart (Std.ExtTreeSet.mem_toList.mp changed)
      (Std.ExtTreeSet.mem_toList.mp deleted)

end Following

namespace Followed

variable {rules : Rules} {last : Option Height} {tables : Tables}

theorem tables_eq (followed : Followed rules blocks last ledger store tables) :
    tables = store.tables := by
  induction followed with
  | start => exact RowStore.tables_empty.symm
  | block _ _ ih => exact ih
  | gap _ _ _ ih => exact ih
  | batch _ _ _ ih => rw [ih, RowStore.tables_commit]

theorem following (followed : Followed rules blocks last ledger store tables)
    (fresh : Fresh blocks) : Following blocks last ledger store := by
  induction followed with
  | start => exact Following.start rules
  | block _ _ ih => exact (ih fresh.left).block fresh _
  | gap _ gap txs ih => exact (ih fresh).gap gap txs
  | batch _ file later ih => exact (ih fresh).batch file later

/-- After every batch, whatever the blocks were and however they were split into
batches, loading the tables gives the rows of the ledger at the height of the
batch, each of them once. What was written of claims and of supports has nothing
in common with what was deleted. -/
theorem load_commit (followed : Followed rules blocks last ledger store tables)
    (fresh : Fresh blocks) (later : ∀ earlier, last = some earlier → earlier ≤ height)
    (file : UInt32) :
    ∃ snapshot, (tables.commit ⟨file, height, ledger.takeChanges.1⟩).load = some snapshot ∧
      snapshot = (store.commit ⟨file, height, ledger.takeChanges.1⟩).snapshot ∧
      Snapshot.Same { ledger.snapshot with height := some height } snapshot ∧
      (snapshot.claims.map Claim.hash).Nodup ∧
      (snapshot.supports.map Support.outpoint).Nodup ∧
      (snapshot.takeovers.map Prod.fst).Nodup ∧
      (ledger.takeChanges.1.claims.map Claim.hash).Disjoint ledger.takeChanges.1.deletedClaims ∧
      (ledger.takeChanges.1.supports.map Support.outpoint).Disjoint
        ledger.takeChanges.1.deletedSupports := by
  have following := followed.following fresh
  have written := following.batch file later
  have mirrors : (store.commit ⟨file, height, ledger.takeChanges.1⟩).Mirrors ledger :=
    following.tracked.mirrors_commit file height
  -- a batch may carry any height that is not lower, so the height is the store's
  have same := RowStore.same_snapshot mirrors
  rw [written.last] at same
  refine ⟨(store.commit ⟨file, height, ledger.takeChanges.1⟩).snapshot, ?_, rfl, same, ?_, ?_, ?_,
    following.disjoint_changes⟩
  · rw [followed.tables_eq, ← RowStore.tables_commit]
    apply RowStore.load_tables
    · rw [mirrors.claims]
      exact following.tracked.claim_hash
    · rw [mirrors.supports]
      exact following.tracked.support_outpoint
  · exact (same.claims.map Claim.hash).nodup_iff.mpr
      (List.pairwise_map.mpr (pairwise_values_of_keyed following.tracked.claim_hash))
  · exact (same.supports.map Support.outpoint).nodup_iff.mpr
      (List.pairwise_map.mpr (pairwise_values_of_keyed following.tracked.support_outpoint))
  · exact (same.takeovers.map Prod.fst).nodup_iff.mpr
      (List.pairwise_map.mpr ledger.pairwise_snapshot_takeovers)

/-- Two claims, the first of them near the largest amount and supported; then a
third one while the second is spent, and at last the third one spent as well and
the first one moved. -/
def hoard : List (List BlockTx) :=
  let output (index : UInt32) : OutPoint := ⟨Digest.zero 32, index⟩
  let claim (digit : UInt8) : ClaimHash := ⟨List.replicate 20 digit, List.length_replicate⟩
  [[⟨Digest.zero 32, 0, [.create (output 0) [0x61] (claim 1) 0x8000000000000001 [],
      .create (output 1) [0x62] (claim 2) 5 [], .support (output 2) [0x61] (claim 1) 7]⟩],
    [⟨Digest.zero 32, 0, [.spend (output 1), .create (output 3) [0x62] (claim 3) 9 []]⟩],
    [⟨Digest.zero 32, 0, [.spend (output 3), .spend (output 0),
      .update (output 4) [0x61] (claim 1) 0xfffffffffffffff0 []]⟩]]

theorem load_commit_hoard :
    ∃ ledger store tables snapshot,
      Followed Rules.regtest hoard (some 0) ledger store tables ∧
      (tables.commit ⟨3, 0xffffffff, ledger.takeChanges.1⟩).load = some snapshot ∧
      snapshot.height = some 0xffffffff ∧
      (snapshot.claims.map fun claim => (claim.amount, claim.effective)) =
        [(0xfffffffffffffff0, 0xfffffffffffffff7)] ∧
      ledger.takeChanges.1.deletedClaims.length = 2 := by
  have empty : Followed Rules.regtest _ _ _ _ _ := .start
  have opened := empty.block (hoard.getD 0 [])
  have missed := opened.gap (show (9 : Height) ≠ _ by decide +kernel) []
  have first (earlier : Height) (reached : none = some earlier) : earlier ≤ 0 := nomatch reached
  have kept := missed.batch 0 first
  have followed := (kept.block (hoard.getD 1 [])).block (hoard.getD 2 [])
  have fresh : Fresh hoard := ⟨by decide +kernel, by decide +kernel⟩
  have later (earlier : Height) : earlier ≤ 0xffffffff :=
    UInt32.le_iff_toNat_le.mpr (Nat.le_of_lt_succ earlier.toNat_lt)
  obtain ⟨snapshot, loads, -, same, -⟩ :=
    followed.load_commit fresh (fun earlier _ => later earlier) 3
  refine ⟨_, _, _, snapshot, followed, loads, same.height, ?_, by decide +kernel⟩
  rw [← List.perm_singleton]
  refine (same.claims.map _).trans ?_
  rw [List.perm_singleton]
  decide +kernel

end Followed

end ClaimLedger
