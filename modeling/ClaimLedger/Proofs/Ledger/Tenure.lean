/-
# The controller in hindsight

The record of a name says who controls it and since when. The controller has competed for the
name from no later than that height on, and does to this day, so at every height in between the
record speaks the truth about the past as well.

Looking up a name at a height does not compare that height with the record. It reports the
controller of today at every height from which its claim competed, also at those before it
took control, where another claim or nobody was in control.
-/

import ClaimLedger.Ledger.View
import ClaimLedger.Proofs.Ledger.Control
import ClaimLedger.Proofs.Ledger.Lasting

namespace ClaimLedger

namespace Ledger

variable {rules : Rules} {blocks : List (List BlockTx)} {ledger : Ledger} {last height : Height}
variable {summaries : List BlockSummary} {name : Bytes} {takeover : Takeover} {claim : Claim}

/-! ## The time in control -/

/-- Blocks leave one controller behind. -/
theorem ControlledBy.unique {controller other : Option ClaimHash}
    (controlled : ControlledBy rules blocks name controller)
    (controlled' : ControlledBy rules blocks name other) : controller = other := by
  obtain ⟨ledger, summaries, run, rfl⟩ := controlled
  obtain ⟨ledger', summaries', run', rfl⟩ := controlled'
  rw [run, Except.ok.injEq, Prod.mk.injEq] at run'
  rw [run'.1]

/-- After blocks up to a height the ledger is at that height. -/
theorem height_of_replay_take {ledger : Ledger}
    (run : Engine.replay applyBlock rules (blocks.take (height.toNat + 1)) =
      .ok (ledger, summaries))
    (within : height.toNat < blocks.length) : ledger.height = some height := by
  have count := height_of_replay run
  rw [List.length_take_of_le within] at count
  cases reached : ledger.height with
  | none =>
    rw [reached] at count
    cases count
  | some last =>
    rw [reached, Option.elim_some] at count
    exact congrArg some (UInt32.toNat_inj.mp (Nat.succ.inj count))

/-- The claim has competed for the name since a height, and does up to the last one. -/
structure Reigns (name : Bytes) (since last : Height) (claim : Claim) : Prop where
  named : claim.name = name
  activation : claim.term.activation ≤ since
  expiration : last < claim.term.expiration

/-- The claim that controls a name has competed for it since it took control. -/
theorem reigns_of_replay (fresh : Fresh blocks)
    (run : Engine.replay applyBlock rules blocks = .ok (ledger, summaries))
    (reached : ledger.height = some last) (recorded : ledger.takeover? name = some takeover) :
    ∃ controller, ledger.claims[takeover.claim]? = some controller ∧
      controller.hash = takeover.claim ∧ Reigns name takeover.height last controller := by
  have sound := (sound_and_grounded_of_replay fresh run).1
  obtain ⟨controller, live, named, active, -⟩ :=
    best_of_settled sound.indexed (sound.settled reached name) recorded
  have isHash := sound.indexed.claim_hash live
  simp only [Term.isActiveAt, Bool.and_eq_true, decide_eq_true_eq] at active
  obtain ⟨within, -, since⟩ := since_of_replay fresh run recorded
  -- the ledger right after the block that gave control away
  obtain ⟨start, began, runStart, controlled⟩ :=
    since (takeover.height.toNat + 1) (Nat.lt_succ_self _) within
  obtain ⟨recordedStart, recordedThen, sameClaim⟩ := Option.map_eq_some_iff.mp controlled
  have soundStart := (sound_and_grounded_of_replay (fresh.take _) runStart).1
  obtain ⟨old, liveThen, -, activeThen, -⟩ := best_of_settled soundStart.indexed
    (soundStart.settled (height_of_replay_take runStart within) name) recordedThen
  rw [sameClaim] at liveThen
  simp only [Term.isActiveAt, Bool.and_eq_true, decide_eq_true_eq] at activeThen
  rw [← List.take_append_drop (takeover.height.toNat + 1) blocks] at fresh run
  have noLater := activation_le_of_replay fresh runStart run liveThen live
  exact ⟨controller, live, isHash, named, UInt32.le_trans noLater activeThen.1, active.2⟩

/-- Since then it has competed at every height. -/
theorem Reigns.isActiveAt_iff {since : Height} (reigns : Reigns name since last claim)
    (past : height ≤ last) :
    claim.term.isActiveAt height = true ↔ claim.term.activation ≤ height := by
  simp only [Term.isActiveAt, Bool.and_eq_true, decide_eq_true_eq]
  exact and_iff_left (UInt32.lt_of_le_of_lt past reigns.expiration)

/-! ## Looking a name up at an earlier height -/

/-- What the state of a name at an earlier height says about its controller. -/
structure SeenBack (rules : Rules) (blocks : List (List BlockTx)) (ledger : Ledger) (name : Bytes)
    (height : Height) : Prop where
  /-- It is the controller of today, at every height from which its claim competed. -/
  controlling : ∀ claim, (ledger.nameState name height).controlling = some claim ↔
    ∃ takeover, ledger.takeover? name = some takeover ∧
      ledger.claims[takeover.claim]? = some claim ∧ claim.term.activation ≤ height
  /-- It is in control after all blocks. -/
  today : ∀ claim, (ledger.nameState name height).controlling = some claim →
    ControlledBy rules blocks name (some claim.hash)
  /-- Since the recorded height there is one, and it was in control right after the block of the
  height. -/
  since : ∀ takeover, ledger.takeover? name = some takeover → takeover.height ≤ height →
    ∃ claim, (ledger.nameState name height).controlling = some claim ∧
      ControlledBy rules (blocks.take (height.toNat + 1)) name (some claim.hash)
  /-- Right before the recorded height it was not in control, reported or not. -/
  before : ∀ takeover claim, ledger.takeover? name = some takeover →
    height.toNat + 1 = takeover.height.toNat →
    (ledger.nameState name height).controlling = some claim →
    ¬ ControlledBy rules (blocks.take (height.toNat + 1)) name (some claim.hash)

theorem controlling_nameState_iff (fresh : Fresh blocks)
    (run : Engine.replay applyBlock rules blocks = .ok (ledger, summaries))
    (reached : ledger.height = some last) (past : height ≤ last) (name : Bytes) (claim : Claim) :
    (ledger.nameState name height).controlling = some claim ↔
      ∃ takeover, ledger.takeover? name = some takeover ∧
        ledger.claims[takeover.claim]? = some claim ∧ claim.term.activation ≤ height := by
  simp only [nameState, controlling?, Option.filter_eq_some_iff, Option.bind_eq_some_iff]
  constructor
  · rintro ⟨⟨takeover, recorded, live⟩, active⟩
    obtain ⟨controller, live', -, reigns⟩ := reigns_of_replay fresh run reached recorded
    rw [live, Option.some.injEq] at live'
    subst live'
    exact ⟨takeover, recorded, live, (reigns.isActiveAt_iff past).mp active⟩
  · rintro ⟨takeover, recorded, live, begun⟩
    obtain ⟨controller, live', -, reigns⟩ := reigns_of_replay fresh run reached recorded
    rw [live, Option.some.injEq] at live'
    subst live'
    exact ⟨⟨takeover, recorded, live⟩, (reigns.isActiveAt_iff past).mpr begun⟩

/-- Looked up at an earlier height, a name shows the controller of today wherever its claim
competed. That is who was in control there if the record is no younger than the height. -/
theorem seenBack_of_replay (fresh : Fresh blocks)
    (run : Engine.replay applyBlock rules blocks = .ok (ledger, summaries))
    (reached : ledger.height = some last) (past : height ≤ last) (name : Bytes) :
    SeenBack rules blocks ledger name height := by
  have shown := controlling_nameState_iff fresh run reached past name
  have within : height.toNat < blocks.length := by
    have count := height_of_replay run
    rw [reached, Option.elim_some] at count
    have := UInt32.le_iff_toNat_le.mp past
    omega
  -- the claim that is shown is the recorded one
  have isRecorded {takeover : Takeover} {claim : Claim}
      (recorded : ledger.takeover? name = some takeover)
      (seen : (ledger.nameState name height).controlling = some claim) :
      claim.hash = takeover.claim := by
    obtain ⟨same, recorded', live, -⟩ := (shown _).mp seen
    rw [recorded, Option.some.injEq] at recorded'
    subst recorded'
    exact (sound_and_grounded_of_replay fresh run).1.indexed.claim_hash live
  refine ⟨shown, ?today, ?since, ?before⟩
  case today =>
    intro claim seen
    obtain ⟨takeover, recorded, -⟩ := (shown _).mp seen
    exact ⟨ledger, summaries, run, by rw [recorded, isRecorded recorded seen]; rfl⟩
  case since =>
    intro takeover recorded begun
    obtain ⟨controller, live, isHash, reigns⟩ := reigns_of_replay fresh run reached recorded
    obtain ⟨-, -, after⟩ := since_of_replay fresh run recorded
    refine ⟨controller, (shown _).mpr ⟨takeover, recorded, live, ?_⟩, ?_⟩
    · exact UInt32.le_trans reigns.activation begun
    · rw [isHash]
      exact after _ (Nat.lt_succ_of_le (UInt32.le_iff_toNat_le.mp begun)) within
  case before =>
    intro takeover claim recorded next seen controlled
    obtain ⟨-, ⟨other, different, controlled'⟩, -⟩ := since_of_replay fresh run recorded
    rw [next, isRecorded recorded seen] at controlled
    exact different (controlled'.unique controlled)

/-- A claim that is in control for one block, next to a smaller one that competes from the same
block on. -/
def forfeited : List (List BlockTx) :=
  let output (index : UInt32) : OutPoint := ⟨Digest.zero 32, index⟩
  let heir : ClaimHash := ⟨List.replicate 20 9, List.length_replicate⟩
  [[⟨Digest.zero 32, 0, [.create (output 0) [0x61] (Digest.zero 20) 10 [],
      .create (output 1) [0x61] heir 5 []]⟩],
    [⟨Digest.zero 32, 0, [.spend (output 0)]⟩], []]

theorem seenBack_forfeited :
    ∃ ledger summaries,
      Engine.replay applyBlock Rules.regtest forfeited = .ok (ledger, summaries) ∧
        SeenBack Rules.regtest forfeited ledger [0x61] 1 := by
  have height : (Engine.replay applyBlock Rules.regtest forfeited).toOption.map
      (fun state => state.1.height) = some (some 2) := by decide +kernel
  obtain ⟨⟨ledger, summaries⟩, run, reached⟩ := exists_of_map_toOption height
  exact ⟨ledger, summaries, run, seenBack_of_replay ⟨by decide +kernel, by decide +kernel⟩ run
    reached (by decide) [0x61]⟩

/-- Looked up at the height of the first block, the name shows the claim of today, which was not
in control there. -/
theorem nameState_forfeited :
    ∃ ledger summaries heir,
      Fresh forfeited ∧
      Engine.replay applyBlock Rules.regtest forfeited = .ok (ledger, summaries) ∧
      ledger.height = some 2 ∧
      (ledger.nameState [0x61] 0).controlling = some heir ∧
      ControlledBy Rules.regtest (forfeited.take 1) [0x61] (some (Digest.zero 20)) ∧
      ¬ ControlledBy Rules.regtest (forfeited.take 1) [0x61] (some heir.hash) := by
  have now : (Engine.replay applyBlock Rules.regtest forfeited).toOption.map (fun state =>
      (state.1.height, (state.1.nameState [0x61] 0).controlling.map Claim.hash)) =
      some (some 2, some ⟨List.replicate 20 9, List.length_replicate⟩) := by decide +kernel
  have first : (Engine.replay applyBlock Rules.regtest (forfeited.take 1)).toOption.map
      (fun state => (state.1.takeover? [0x61]).map Takeover.claim) =
      some (some (Digest.zero 20)) := by decide +kernel
  obtain ⟨⟨ledger, summaries⟩, run, shown⟩ := exists_of_map_toOption now
  obtain ⟨reached, shown⟩ := Prod.mk.inj shown
  obtain ⟨heir, seen, isHeir⟩ := Option.map_eq_some_iff.mp shown
  obtain ⟨⟨before, earlier⟩, start, inControl⟩ := exists_of_map_toOption first
  have controlled : ControlledBy Rules.regtest (forfeited.take 1) [0x61]
      (some (Digest.zero 20)) := ⟨before, earlier, start, inControl⟩
  refine ⟨ledger, summaries, heir, ⟨by decide +kernel, by decide +kernel⟩, run, reached, seen,
    controlled, fun other => ?_⟩
  have same := controlled.unique other
  rw [isHeir] at same
  exact absurd same (by decide)

end Ledger

end ClaimLedger
