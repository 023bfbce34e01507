/-
# Who controls a name

After every block, and for every name, the recorded controller is a competing
claim of the name that no other outranks, every claim shows exactly what it
competes with, and the recorded height is that of the block that last changed
the controller. Most names are not looked at by a block, so this is a statement
about what a block may leave out.
-/

import Mathlib.Algebra.BigOperators.Group.List.Basic
import Mathlib.Data.List.Nodup
import ClaimLedger.Proofs.Ledger.Replay
import ClaimLedger.Proofs.Maps

namespace ClaimLedger

namespace Ledger

/-- The supports that count at a height, of a claim under a name, wherever they
are in the ledger. -/
def countingSupports (ledger : Ledger) (name : Bytes) (claim : ClaimHash) (height : Height) :
    List Support :=
  ledger.supports.values.filter fun support =>
    support.claim == claim && support.term.isActiveAt height && support.name == name

section Supports

variable {ledger : Ledger}

theorem nodup_supports (indexed : ledger.Indexed) : ledger.supports.values.Nodup :=
  (pairwise_values_of_keyed indexed.support_outpoint).imp fun apart same =>
    apart (congrArg Support.outpoint same)

theorem nodup_standing_supports (indexed : ledger.Indexed) (name : Bytes) :
    (ledger.standing name).supports.Nodup :=
  (pairwise_standing_supports indexed.support_outpoint name).imp fun apart same =>
    apart (congrArg Support.outpoint same)

/-- The supports under a name are all the supports of that name. -/
theorem perm_standing_supports (indexed : ledger.Indexed) (name : Bytes) :
    List.Perm (ledger.standing name).supports
      (ledger.supports.values.filter fun support => support.name == name) := by
  rw [List.perm_ext_iff_of_nodup (nodup_standing_supports indexed name)
    ((nodup_supports indexed).filter _)]
  intro support
  rw [mem_standing_supports indexed, List.mem_filter, mem_values, beq_iff_eq]
  refine and_congr_left fun named => ⟨fun live => ⟨_, live⟩, ?_⟩
  rintro ⟨outpoint, live⟩
  rw [indexed.support_outpoint live]
  exact live

theorem exactTotal_backing (indexed : ledger.Indexed) (name : Bytes) (height : Height)
    (claim : ClaimHash) :
    Amount.exactTotal ((ledger.standing name).backing height claim) =
      ((ledger.countingSupports name claim height).map fun support =>
        support.amount.toNat).sum := by
  have perm := (perm_standing_supports indexed name).filter fun support =>
    support.claim == claim && support.term.isActiveAt height
  rw [List.filter_filter] at perm
  rw [Amount.exactTotal_eq_sum, Standing.backing, List.map_map]
  exact (perm.map _).sum_eq

end Supports

/-! ## Control after a run of blocks -/

/-- After these blocks the recorded controller of the name is the given one,
`none` standing for nobody. -/
def ControlledBy (rules : Rules) (blocks : List (List BlockTx)) (name : Bytes)
    (controller : Option ClaimHash) : Prop :=
  ∃ ledger summaries, Engine.replay applyBlock rules blocks = .ok (ledger, summaries) ∧
    (ledger.takeover? name).map Takeover.claim = controller

/-- What a name has to satisfy in the ledger that blocks led to, the last of
them at the given height. -/
structure Controlled (rules : Rules) (blocks : List (List BlockTx)) (ledger : Ledger)
    (height : Height) (name : Bytes) : Prop where
  /-- Somebody controls the name exactly while some claim competes for it. -/
  contested : (ledger.takeover? name).isSome = true ↔
    ∃ (hash : ClaimHash) (claim : Claim), ledger.claims[hash]? = some claim ∧ claim.name = name ∧
      claim.term.isActiveAt height = true
  /-- The controller competes for the name, and no competing claim outranks it by
  the amounts that they show. -/
  best : ∀ takeover, ledger.takeover? name = some takeover →
    ∃ controller, ledger.claims[takeover.claim]? = some controller ∧ controller.name = name ∧
      controller.term.isActiveAt height = true ∧
      ∀ (hash : ClaimHash) (other : Claim), ledger.claims[hash]? = some other → other.name = name →
        other.term.isActiveAt height = true →
        Claim.compareRank (other, other.effective) (controller, controller.effective) ≠ .lt
  /-- A competing claim shows its own amount with all supports that count for it
  under its name, exactly, and every other claim shows zero. -/
  effective : ∀ (hash : ClaimHash) (claim : Claim), ledger.claims[hash]? = some claim →
    claim.name = name →
    claim.effective.toNat =
      if claim.term.isActiveAt height then
        claim.amount.toNat +
          ((ledger.countingSupports name hash height).map fun support =>
            support.amount.toNat).sum
      else 0
  /-- The recorded height is that of the last block that changed the controller:
  another one, or nobody, was in control before it, and the recorded one after it
  and after every later block. -/
  since : ∀ takeover, ledger.takeover? name = some takeover →
    takeover.height.toNat < blocks.length ∧
    (∃ earlier, earlier ≠ some takeover.claim ∧
      ControlledBy rules (blocks.take takeover.height.toNat) name earlier) ∧
    ∀ count, takeover.height.toNat < count → count ≤ blocks.length →
      ControlledBy rules (blocks.take count) name (some takeover.claim)

section Controlled

variable {rules : Rules} {blocks : List (List BlockTx)} {ledger : Ledger} {height : Height}
variable {summaries : List BlockSummary} {name : Bytes}

theorem contested_of_settled (indexed : ledger.Indexed)
    (settled : (ledger.standing name).Settled height) :
    (ledger.takeover? name).isSome = true ↔
      ∃ (hash : ClaimHash) (claim : Claim), ledger.claims[hash]? = some claim ∧ claim.name = name ∧
        claim.term.isActiveAt height = true := by
  have control := settled.control
  rw [takeover?_eq_standing]
  cases best : (ledger.standing name).best? height with
  | none =>
    rw [best, eq_comm, Standing.controller?, Option.map_eq_none_iff] at control
    rw [control]
    refine iff_of_false (by simp) ?_
    rintro ⟨hash, claim, live, named, active⟩
    have member := ((getElem?_claims_eq_some_iff indexed).mp live).2
    rw [named] at member
    exact (Standing.best?_eq_none_iff _ _).mp best claim member active
  | some hash =>
    rw [best, eq_comm, Standing.controller?, Option.map_eq_some_iff] at control
    obtain ⟨takeover, recorded, -⟩ := control
    rw [recorded]
    refine iff_of_true rfl ?_
    obtain ⟨claim, member, -, active, -⟩ := Standing.best?_eq_some _ _ best
    obtain ⟨live, named⟩ := (mem_standing_claims indexed).mp member
    exact ⟨claim.hash, claim, live, named, active⟩

theorem best_of_settled (indexed : ledger.Indexed)
    (settled : (ledger.standing name).Settled height) {takeover : Takeover}
    (recorded : ledger.takeover? name = some takeover) :
    ∃ controller, ledger.claims[takeover.claim]? = some controller ∧ controller.name = name ∧
      controller.term.isActiveAt height = true ∧
      ∀ (hash : ClaimHash) (other : Claim), ledger.claims[hash]? = some other → other.name = name →
        other.term.isActiveAt height = true →
        Claim.compareRank (other, other.effective) (controller, controller.effective) ≠ .lt := by
  have shown {claim : Claim} (member : claim ∈ (ledger.standing name).claims)
      (active : claim.term.isActiveAt height = true) :
      (ledger.standing name).worth height claim = claim.effective := by
    rw [settled.effective claim member, Standing.effective, if_pos active]
  have control := settled.control
  rw [takeover?_eq_standing] at recorded
  rw [Standing.controller?, recorded, Option.map_some] at control
  obtain ⟨controller, member, isController, active, below⟩ := Standing.best?_eq_some _ _ control
  obtain ⟨live, named⟩ := (mem_standing_claims indexed).mp member
  rw [isController] at live
  refine ⟨controller, live, named, active, fun hash other liveOther isName activeOther => ?_⟩
  have listed := ((getElem?_claims_eq_some_iff indexed).mp liveOther).2
  rw [isName] at listed
  rw [← shown member active, ← shown listed activeOther]
  exact below other listed activeOther

theorem effective_of_settled (indexed : ledger.Indexed)
    (settled : (ledger.standing name).Settled height) {hash : ClaimHash} {claim : Claim}
    (live : ledger.claims[hash]? = some claim) (named : claim.name = name) :
    claim.effective.toNat =
      if claim.term.isActiveAt height then
        claim.amount.toNat +
          ((ledger.countingSupports name hash height).map fun support =>
            support.amount.toNat).sum
      else 0 := by
  obtain ⟨isHash, member⟩ := (getElem?_claims_eq_some_iff indexed).mp live
  rw [named] at member
  rw [settled.effective claim member, Standing.effective]
  split
  · next active =>
    rw [Standing.toNat_worth settled.fits member active, exactTotal_backing indexed, isHash]
  · rfl

/-- A block that leaves the controller of a name alone leaves the record alone;
otherwise it records its own height. -/
theorem since_of_replay (fresh : Fresh blocks)
    (run : Engine.replay applyBlock rules blocks = .ok (ledger, summaries)) {takeover : Takeover}
    (recorded : ledger.takeover? name = some takeover) :
    takeover.height.toNat < blocks.length ∧
    (∃ earlier, earlier ≠ some takeover.claim ∧
      ControlledBy rules (blocks.take takeover.height.toNat) name earlier) ∧
    ∀ count, takeover.height.toNat < count → count ≤ blocks.length →
      ControlledBy rules (blocks.take count) name (some takeover.claim) := by
  induction blocks using List.reverseRecOn generalizing ledger summaries with
  | nil =>
    cases run
    simp [empty, takeover?] at recorded
  | append_singleton blocks txs ih =>
    have now : ControlledBy rules (blocks ++ [txs]) name (some takeover.claim) :=
      ⟨ledger, summaries, run, by rw [recorded]; rfl⟩
    obtain ⟨before, earlier, height, work, shorter, sound, taken⟩ := taken_of_replay fresh run
    have edits : (work.ledger.standing name).takeover = (before.standing name).takeover :=
      taken.reached.edits.takeover_eq (BlockWork.indexed_start sound.indexed height) name
    rw [takeover?_eq_standing, taken.standing_eq sound] at recorded
    rw [List.length_append, List.length_singleton]
    rcases (work.ledger.standing name).takeover_settled height with same | ⟨changed, atHeight⟩
    · rw [same, edits, ← takeover?_eq_standing] at recorded
      obtain ⟨within, other, after⟩ := ih fresh.init shorter recorded
      refine ⟨by omega, ?_, fun count later upTo => ?_⟩
      · rw [List.take_append_of_le_length (by omega)]
        exact other
      · by_cases last : count ≤ blocks.length
        · rw [List.take_append_of_le_length last]
          exact after count later last
        · rw [List.take_of_length_le (by simp; omega)]
          exact now
    · have count := height_of_replay shorter
      have isHeight : takeover.height.toNat = blocks.length := by
        rw [atHeight takeover recorded, taken.next, ← count]
        exact toNat_next_height taken.notTop
      rw [isHeight]
      refine ⟨by omega, ⟨(before.standing name).controller?, ?_, ?_⟩, fun count later upTo => ?_⟩
      · rw [Standing.controller?, recorded, Standing.controller?, edits] at changed
        exact changed.symm
      · rw [List.take_append_of_le_length (Nat.le_refl _), List.take_length]
        exact ⟨before, earlier, shorter, by rw [takeover?_eq_standing]; rfl⟩
      · rw [List.take_of_length_le (by simp; omega)]
        exact now

/-- After every block of a chain that never repeats an output or a claim, every
name is controlled as the rules say, touched by the block or not. -/
theorem controlled_of_replay (fresh : Fresh blocks)
    (run : Engine.replay applyBlock rules blocks = .ok (ledger, summaries))
    (last : ledger.height = some height) (name : Bytes) :
    Controlled rules blocks ledger height name := by
  have sound := (sound_and_grounded_of_replay fresh run).1
  have settled := sound.settled last name
  exact {
    contested := contested_of_settled sound.indexed settled
    best := fun _ recorded => best_of_settled sound.indexed settled recorded
    effective := fun _ _ live named => effective_of_settled sound.indexed settled live named
    since := fun _ recorded => since_of_replay fresh run recorded }

/-- A claim on a name, a larger claim on it that takes over, and a support that
gives control back. -/
def contest : List (List BlockTx) :=
  let output (index : UInt32) : OutPoint := ⟨Digest.zero 32, index⟩
  let rival : ClaimHash := ⟨List.replicate 20 1, List.length_replicate⟩
  [[⟨Digest.zero 32, 0, [.create (output 0) [0x61] (Digest.zero 20) 5 []]⟩],
    [⟨Digest.zero 32, 0, [.create (output 1) [0x61] rival 8 []]⟩],
    [⟨Digest.zero 32, 0, [.support (output 2) [0x61] (Digest.zero 20) 4]⟩]]

theorem controlled_contest :
    ∃ ledger summaries,
      Engine.replay applyBlock Rules.regtest contest = .ok (ledger, summaries) ∧
        Controlled Rules.regtest contest ledger 2 [0x61] := by
  have height : (Engine.replay applyBlock Rules.regtest contest).toOption.map
      (fun state => state.1.height) = some (some 2) := by decide +kernel
  cases run : Engine.replay applyBlock Rules.regtest contest with
  | error failure =>
    rw [run] at height
    cases height
  | ok state =>
    rw [run] at height
    have last : state.1.height = some 2 := Option.some.inj height
    exact ⟨state.1, state.2, rfl,
      controlled_of_replay ⟨by decide +kernel, by decide +kernel⟩ run last [0x61]⟩

end Controlled

end Ledger

end ClaimLedger
