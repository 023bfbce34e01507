/-
# A ledger on its way along a chain

Between two writes the ledger in memory runs ahead of the stored rows. `Carried`
says how far apart they can be: the ledger answers like one that took in the
chain from its first block on, and its marks account for every difference to the
store. Each block that a run applies keeps that, and writing the marked rows
makes the store reflect the chain up to the new height.
-/

import ClaimLedger.Proofs.Ledger.InTurn
import ClaimLedger.Proofs.RowStore.Batches
import ClaimLedger.Sync.Stage

namespace ClaimLedger

/-- The number of blocks up to a height. -/
def Height.count (last : Option Height) : Nat :=
  last.elim 0 fun last => last.toNat + 1

/-- The store holds the rows that the blocks up to its own height lead to, each
of them applied once and in order. -/
def RowStore.Reflects (rules : Rules) (blocks : List (List BlockTx)) (store : RowStore) : Prop :=
  ∃ ledger summaries,
    Engine.replay Ledger.applyBlock rules (blocks.take (Height.count store.lastSynced)) =
      .ok (ledger, summaries) ∧
    ledger.height = store.lastSynced ∧ store.Mirrors ledger

/-- Without rows, a store reflects every chain. -/
theorem RowStore.reflects_empty (rules : Rules) (blocks : List (List BlockTx)) :
    RowStore.empty.Reflects rules blocks := by
  refine ⟨Ledger.empty rules, [], rfl, rfl, rfl, rfl, fun name => ?_⟩
  rw [Ledger.takeover?, Ledger.empty, RowStore.empty, Std.ExtTreeMap.getElem?_empty,
    Std.ExtTreeMap.getElem?_empty]
  rfl

/-- The ledger stands on the chain, not lower than the store, and its marks
account for all differences to it. -/
structure Carried (rules : Rules) (blocks : List (List BlockTx)) (store : RowStore)
    (ledger : Ledger) : Prop where
  stands : Ledger.Stands rules (blocks.take (Height.count ledger.height)) ledger
  later : ∀ last, store.lastSynced = some last → ∃ height, ledger.height = some height ∧
    last ≤ height
  tracked : Tracked store ledger
  /-- What is stored was created on the chain by now. -/
  claims : ∀ {hash : ClaimHash} {claim : Claim}, store.claims[hash]? = some claim →
    hash ∈ (blocks.take (Height.count ledger.height)).flatMap BlockTx.allCreated
  supports : ∀ {outpoint : OutPoint} {support : Support},
    store.supports[outpoint]? = some support →
      outpoint ∈ (blocks.take (Height.count ledger.height)).flatMap BlockTx.allOutputs

namespace Carried

variable {rules : Rules} {blocks : List (List BlockTx)} {store : RowStore}
variable {ledger after : Ledger} {height : Height} {txs : List BlockTx}

/-- What mirrors the chain knows nothing that the chain did not create. -/
theorem known_of_mirrors (fresh : Fresh blocks) {summaries : List BlockSummary}
    (run : Engine.replay Ledger.applyBlock rules blocks = .ok (ledger, summaries))
    (mirrors : store.Mirrors ledger) :
    (∀ {hash : ClaimHash} {claim : Claim}, store.claims[hash]? = some claim →
      hash ∈ blocks.flatMap BlockTx.allCreated) ∧
    ∀ {outpoint : OutPoint} {support : Support}, store.supports[outpoint]? = some support →
      outpoint ∈ blocks.flatMap BlockTx.allOutputs := by
  rw [mirrors.claims, mirrors.supports]
  exact ⟨Ledger.mem_created_of_replay fresh run,
    (Ledger.sound_and_grounded_of_replay fresh run).2.supports⟩

/-- A ledger that is loaded from the rows of a store that reflects the chain is
carried by it. -/
theorem of_reflects (fresh : Fresh blocks) (reflects : store.Reflects rules blocks)
    {snapshot : Snapshot} (same : store.snapshot.Same snapshot) :
    Carried rules blocks store (Ledger.ofSnapshot rules snapshot) ∧
      (Ledger.ofSnapshot rules snapshot).height = store.lastSynced := by
  obtain ⟨replica, summaries, run, last, mirrors⟩ := reflects
  have fresh := fresh.take (Height.count store.lastSynced)
  have sound := (Ledger.sound_and_grounded_of_replay fresh run).1
  have same : replica.snapshot.Same snapshot := by
    apply Snapshot.Same.trans _ same
    have listed := RowStore.same_snapshot mirrors
    rw [← last] at listed
    exact listed
  have alike := Ledger.alike_ofSnapshot_of_same sound same
  have stands : Ledger.Stands rules (blocks.take (Height.count store.lastSynced))
      (Ledger.ofSnapshot replica.rules snapshot) :=
    Ledger.Stands.ofSnapshot ⟨⟨replica, summaries, run, Ledger.Alike.refl replica⟩, sound⟩ same
  rw [Ledger.rules_of_replay fresh run] at alike stands
  have height : (Ledger.ofSnapshot rules snapshot).height = store.lastSynced :=
    alike.height.trans last
  have known := known_of_mirrors fresh run mirrors
  have mirrors : store.Mirrors (Ledger.ofSnapshot rules snapshot) := {
    claims := mirrors.claims.trans alike.claims.symm
    supports := mirrors.supports.trans alike.supports.symm
    takeovers := fun name => (mirrors.takeovers name).trans (alike.takeover?_eq name).symm }
  refine ⟨?_, height⟩
  rw [← height] at stands known
  exact {
    stands := stands
    later := fun last isLast => ⟨last, height.trans isLast, UInt32.le_refl last⟩
    tracked := TrackedBy.of_mirrors mirrors stands.sound.indexed.claim_hash
      stands.sound.indexed.support_outpoint (Ledger.dirty_ofSnapshot rules snapshot)
    claims := known.1
    supports := known.2 }

/-- A block of the chain takes the ledger one block further. -/
theorem applyBlock (carried : Carried rules blocks store ledger) (fresh : Fresh blocks)
    (listed : blocks[height.toNat]? = some txs) {summary : BlockSummary}
    (done : ledger.applyBlock height txs = (after, .ok summary)) :
    Carried rules blocks store after ∧ after.height = some height := by
  obtain ⟨notTop, next, -, settled, -, isAfter⟩ := Ledger.applyBlock_ok done
  have isHeight : after.height = some height := by rw [isAfter]
  have isNext : height.toNat = Height.count ledger.height := by
    rw [next]
    exact Ledger.toNat_next_height notTop
  have further : blocks.take (Height.count after.height) =
      blocks.take (Height.count ledger.height) ++ [txs] := by
    rw [isHeight, ← isNext]
    exact (List.take_add_one).trans (by rw [listed]; rfl)
  have longer := fresh.take (Height.count after.height)
  rw [further] at longer
  have tracked : Tracked store (ledger.applyBlock height txs).1 :=
    carried.tracked.applyBlock_of_fresh longer carried.claims carried.supports height
  rw [done] at tracked
  refine ⟨⟨?_, ?_, tracked, ?_, ?_⟩, isHeight⟩
  · rw [further]
    exact carried.stands.concat longer done
  · intro last isLast
    obtain ⟨current, isCurrent, earlier⟩ := carried.later last isLast
    rw [isCurrent] at isNext
    refine ⟨height, isHeight, UInt32.le_iff_toNat_le.mpr ?_⟩
    have earlier := UInt32.le_iff_toNat_le.mp earlier
    have isNext : height.toNat = current.toNat + 1 := isNext
    omega
  · intro hash claim stored
    rw [further, List.flatMap_append]
    exact List.mem_append_left _ (carried.claims stored)
  · intro outpoint support stored
    rw [further, List.flatMap_append]
    exact List.mem_append_left _ (carried.supports stored)

/-- Writing the marked rows makes the store reflect the chain up to the height of
the ledger, and carry it on from there. -/
theorem commit (carried : Carried rules blocks store ledger) (fresh : Fresh blocks)
    (reached : ledger.height = some height) (file : UInt32) :
    (store.commit ⟨file, height, ledger.changes⟩).lastSynced = some height ∧
      (store.commit ⟨file, height, ledger.changes⟩).Reflects rules blocks ∧
      Carried rules blocks (store.commit ⟨file, height, ledger.changes⟩)
        ledger.takeChanges.2 := by
  have last : (store.commit ⟨file, height, ledger.changes⟩).lastSynced = some height :=
    RowStore.lastSynced_commit fun last isLast => by
      obtain ⟨current, isCurrent, earlier⟩ := carried.later last isLast
      rw [reached] at isCurrent
      cases isCurrent
      exact earlier
  have mirrors := carried.tracked.mirrors_commit file height
  have fresh := fresh.take (Height.count ledger.height)
  obtain ⟨replica, summaries, run, alike⟩ := carried.stands.replayed
  have mirrors' : (store.commit ⟨file, height, ledger.changes⟩).Mirrors replica := {
    claims := mirrors.claims.trans alike.claims
    supports := mirrors.supports.trans alike.supports
    takeovers := fun name => (mirrors.takeovers name).trans (alike.takeover?_eq name) }
  have known := known_of_mirrors fresh run mirrors'
  refine ⟨last, ⟨replica, summaries, ?_, ?_, mirrors'⟩, ?_⟩
  · rw [last, ← reached]
    exact run
  · rw [last, ← reached]
    exact alike.height.symm
  · have stands := carried.stands.takeChanges
    have mirrors : (store.commit ⟨file, height, ledger.changes⟩).Mirrors ledger.takeChanges.2 :=
      ⟨mirrors.claims, mirrors.supports, mirrors.takeovers⟩
    exact {
      stands := stands
      later := fun current isCurrent =>
        ⟨current, reached.trans (last.symm.trans isCurrent), UInt32.le_refl current⟩
      tracked := TrackedBy.of_mirrors mirrors stands.sound.indexed.claim_hash
        stands.sound.indexed.support_outpoint rfl
      claims := known.1
      supports := known.2 }

end Carried

end ClaimLedger
