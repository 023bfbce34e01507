/-
# Looking at every name

A block settles the names that it touches and those that are due. The eager
engine is the same machine, except that every block settles every name in use.
Along a chain that never repeats an output or a claim nobody can tell the two
apart: the names that the block leaves out are quiet.
-/

import ClaimLedger.Ledger.Snapshot
import ClaimLedger.Proofs.Ledger.Replay

namespace ClaimLedger

namespace Ledger

/-- Apply the transactions of a block at a height, and settle the chosen names
at the end. -/
def applyBlockChoosing (choose : BlockWork → List Bytes) (ledger : Ledger) (height : Height)
    (txs : List BlockTx) : Ledger × Except SyncError BlockSummary :=
  if ledger.height = some Height.top then
    (ledger, .error (.number .heightOverflow))
  else if height ≠ Height.next ledger.height then
    (ledger, .error (.consistencyViolation height [] (.outOfOrder (Height.next ledger.height))))
  else
    let work := (BlockWork.start ledger height).run height txs
    match work.fault with
    | some fault => (work.ledger, .error (.number fault))
    | none =>
      match settleAll height (choose work) work.ledger with
      | (ledger, .error failure) => (ledger, .error failure)
      | (ledger, .ok takeovers) =>
        ({ ledger with height := some height }, .ok {
          height, takeovers
          created := work.tally.created
          updated := work.tally.updated
          abandoned := work.tally.abandoned
          supportsAdded := work.tally.supportsAdded
          supportsSpent := work.tally.supportsSpent })

/-- The engine settles what a block touched, the names due at its height
included. -/
theorem applyBlock_eq_choosing :
    applyBlock = applyBlockChoosing fun work => work.touched.toList := rfl

/-- The same machine, settling every name in use. -/
def applyBlockEagerly : Engine :=
  applyBlockChoosing fun work => work.ledger.names.keys

variable {marks : Prop} {left right ledger : Ledger} {rules : Rules}
variable {blocks : List (List BlockTx)} {summaries : List BlockSummary}

/-- Two choices of names come to the same where settling them does. -/
theorem sameOutcome_applyBlockChoosing {choose choose' : BlockWork → List Bytes}
    (alike : Alike marks left right) (height : Height) (txs : List BlockTx)
    (settling : left.height ≠ some Height.top → height = Height.next left.height →
      SameOutcome marks
        (settleAll height (choose ((BlockWork.start left height).run height txs))
          ((BlockWork.start left height).run height txs).ledger)
        (settleAll height (choose' ((BlockWork.start right height).run height txs))
          ((BlockWork.start right height).run height txs).ledger)) :
    SameOutcome marks (left.applyBlockChoosing choose height txs)
      (right.applyBlockChoosing choose' height txs) := by
  have work := (BlockWork.alike_start alike height).run height txs
  unfold applyBlockChoosing
  rw [alike.height]
  by_cases atTop : left.height = some Height.top
  · rw [if_pos atTop, if_pos atTop]
    exact ⟨alike, rfl⟩
  · rw [if_neg atTop, if_neg atTop]
    by_cases inOrder : height = Height.next left.height
    · have settled := settling atTop inOrder
      rw [if_neg (not_not.mpr inOrder), if_neg (not_not.mpr inOrder)]
      simp only [work.fault, work.tally]
      cases ((BlockWork.start left height).run height txs).fault with
      | some fault => exact ⟨work.ledger, rfl⟩
      | none =>
        generalize settleAll height (choose ((BlockWork.start left height).run height txs))
          ((BlockWork.start left height).run height txs).ledger = outcome at settled ⊢
        generalize settleAll height (choose' ((BlockWork.start right height).run height txs))
          ((BlockWork.start right height).run height txs).ledger = outcome' at settled ⊢
        obtain ⟨after, answer⟩ := outcome
        obtain ⟨after', answer'⟩ := outcome'
        obtain ⟨alike, same⟩ := settled
        simp only at alike same
        subst same
        cases answer' with
        | error failure => exact ⟨alike, rfl⟩
        | ok takeovers => exact ⟨{ alike with height := rfl }, rfl⟩
    · rw [if_pos inOrder, if_pos inOrder]
      exact ⟨alike, rfl⟩

/-- A sound ledger and one that is alike take the next block in the same way,
whichever of the two engines they run. -/
theorem sameOutcome_applyBlockEagerly {earlier : List OutPoint} {txs : List BlockTx}
    (sound : left.Sound) (grounded : left.Grounded earlier)
    (fresh : (earlier ++ BlockTx.allOutputs txs).Nodup) (alike : Alike marks left right)
    (height : Height) :
    SameOutcome marks (left.applyBlock height txs) (right.applyBlockEagerly height txs) := by
  rw [applyBlock_eq_choosing, applyBlockEagerly]
  apply sameOutcome_applyBlockChoosing alike height txs
  intro notTop next
  have reached := BlockWork.reached_run height sound.indexed grounded fresh
  have work := (BlockWork.alike_start alike height).run height txs
  refine settleAll_of_quiet marks work.ledger reached.indexed Std.ExtTreeSet.ordered_toList
    (Std.ExtTreeMap.ordered_keys) fun name => ?_
  rw [Std.ExtTreeSet.mem_toList, Std.ExtTreeMap.mem_keys, work.ledger.names]
  by_cases touched : name ∈ ((BlockWork.start left height).run height txs).touched
  · by_cases used : name ∈ ((BlockWork.start left height).run height txs).ledger.names
    · exact .inl ⟨touched, used⟩
    · exact .inr (.inr (Quiet.of_not_mem used))
  · exact .inr (.inr (sound.quiet notTop next reached touched))

/-- What can be seen of a replay: every row, the changes to hand out, and what
each block did. -/
def seen (state : Ledger × List BlockSummary) : Snapshot × Changes × List BlockSummary :=
  (state.1.snapshot, state.1.takeChanges.1, state.2)

theorem Alike.seen_eq (alike : Alike True left right) (summaries : List BlockSummary) :
    seen (right, summaries) = seen (left, summaries) := by
  obtain ⟨schedule, dirty, rfl, same⟩ := alike.eq_with
  cases same trivial
  rfl

/-- The eager engine fails where the other one fails, and otherwise ends with a
ledger that is alike, marks included. -/
theorem alike_of_replay_eagerly (fresh : Fresh blocks) :
    (∃ failure, Engine.replay applyBlock rules blocks = .error failure ∧
      Engine.replay applyBlockEagerly rules blocks = .error failure) ∨
    ∃ left right summaries, Engine.replay applyBlock rules blocks = .ok (left, summaries) ∧
      Engine.replay applyBlockEagerly rules blocks = .ok (right, summaries) ∧
      Alike True left right := by
  induction blocks using List.reverseRecOn with
  | nil => exact .inr ⟨_, _, [], rfl, rfl, Alike.refl _⟩
  | append_singleton blocks txs ih =>
    rw [Engine.replay_concat, Engine.replay_concat]
    rcases ih fresh.init with ⟨failure, run, run'⟩ | ⟨left, right, summaries, run, run', alike⟩
    · left
      rw [run, run']
      exact ⟨failure, rfl, rfl⟩
    · obtain ⟨sound, grounded⟩ := sound_and_grounded_of_replay fresh.init run
      obtain ⟨next, answer⟩ := sameOutcome_applyBlockEagerly sound grounded
        fresh.outputs_concat alike (Height.next left.height)
      rw [run, run']
      simp only [Engine.extend, bind, Except.bind, alike.height]
      cases result : left.applyBlock (Height.next left.height) txs with
      | mk after outcome =>
        cases result' : right.applyBlockEagerly (Height.next left.height) txs with
        | mk after' outcome' =>
          rw [result, result'] at next answer
          simp only at next answer
          subst answer
          cases outcome' with
          | error failure => exact .inl ⟨failure, rfl, rfl⟩
          | ok summary => exact .inr ⟨after, after', summaries ++ [summary], rfl, rfl, next⟩

/-- After every block of a chain that never repeats an output or a claim, the
eager engine shows the same rows, the same changes to hand out and the same
summaries, or has failed in the same way. -/
theorem replay_eagerly (fresh : Fresh blocks) :
    (Engine.replay applyBlockEagerly rules blocks).map seen =
      (Engine.replay applyBlock rules blocks).map seen := by
  rcases alike_of_replay_eagerly fresh with
    ⟨failure, run, run'⟩ | ⟨left, right, summaries, run, run', alike⟩
  · rw [run, run']
  · rw [run, run']
    exact congrArg Except.ok (alike.seen_eq summaries)

/-- Claims on two names, each alone in its block, and an empty block. -/
def apart : List (List BlockTx) :=
  let output (index : UInt32) : OutPoint := ⟨Digest.zero 32, index⟩
  let other : ClaimHash := ⟨List.replicate 20 2, List.length_replicate⟩
  [[⟨Digest.zero 32, 0, [.create (output 0) [0x61] (Digest.zero 20) 5 []]⟩],
    [⟨Digest.zero 32, 0, [.create (output 1) [0x62] other 8 []]⟩],
    []]

theorem replay_apart :
    (Engine.replay applyBlock Rules.regtest apart).isOk = true ∧
      (Engine.replay applyBlockEagerly Rules.regtest apart).map seen =
        (Engine.replay applyBlock Rules.regtest apart).map seen :=
  ⟨by decide +kernel, replay_eagerly ⟨by decide +kernel, by decide +kernel⟩⟩

end Ledger

end ClaimLedger
