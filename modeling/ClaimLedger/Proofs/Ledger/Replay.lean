/-
# Replaying a chain

A ledger comes from nothing by one block after the other. `Sound` is what every
such ledger satisfies as long as the chain never produces an output or creates a
claim twice: its indexes follow from its rows, every name is settled at the last
height whether the last block touched it or not, and the schedule lists every
name before anything under it can start or stop counting. The last part is what
lets a block leave most names alone.
-/

import Mathlib.Data.List.Induction
import ClaimLedger.Proofs.Ledger.Phases
import ClaimLedger.Proofs.Ledger.Quiet

namespace ClaimLedger

namespace Ledger

/-! ## One block -/

/-- How a block is taken in: its height is the next one, every number that its
phases need is there, and all its names pass verification. -/
theorem applyBlock_ok {ledger after : Ledger} {height : Height} {txs : List BlockTx}
    {summary : BlockSummary} (done : ledger.applyBlock height txs = (after, .ok summary)) :
    ledger.height ≠ some Height.top ∧ height = Height.next ledger.height ∧
      ((BlockWork.start ledger height).run height txs).fault = none ∧
      ∃ settled,
        settleAll height ((BlockWork.start ledger height).run height txs).touched.toList
            ((BlockWork.start ledger height).run height txs).ledger =
          (settled, .ok summary.takeovers) ∧
        after = { settled with height := some height } := by
  unfold applyBlock at done
  simp only at done
  split at done
  · cases done
  · next notTop =>
    split at done
    · cases done
    · next inOrder =>
      split at done
      · cases done
      · next noFault =>
        split at done
        · cases done
        · next settled takeovers result =>
          cases done
          exact ⟨notTop, not_not.mp inOrder, noFault, settled, result, rfl⟩

/-- A block that is not the next one leaves the ledger as it was. -/
theorem applyBlock_of_ne_next (ledger : Ledger) {height : Height}
    (gap : height ≠ Height.next ledger.height) (txs : List BlockTx) :
    (ledger.applyBlock height txs).1 = ledger := by
  unfold applyBlock
  simp only [if_pos gap]
  split <;> rfl

/-- The next height is one more than the last. -/
theorem toNat_next {last : Height} (notTop : last ≠ Height.top) :
    (Height.next (some last)).toNat = last.toNat + 1 := by
  have below : last.toNat ≠ Height.top.toNat := fun same => notTop (UInt32.toNat_inj.mp same)
  have bound := last.toNat_lt
  have top : Height.top.toNat = 4294967295 := rfl
  rw [Height.next, UInt32.toNat_add]
  change (last.toNat + 1) % 2 ^ 32 = last.toNat + 1
  omega

/-- The next height is the number of heights so far. -/
theorem toNat_next_height {last : Option Height} (notTop : last ≠ some Height.top) :
    (Height.next last).toNat = last.elim 0 fun height => height.toNat + 1 := by
  cases last with
  | none => rfl
  | some height => exact toNat_next fun isTop => notTop (congrArg some isTop)

/-! ## Sound ledgers -/

/-- What holds of a ledger between blocks. -/
structure Sound (ledger : Ledger) : Prop where
  indexed : ledger.Indexed
  /-- Something lives under every name in use. -/
  inUse : ∀ name ∈ ledger.names, ledger.standing name ≠ {}
  /-- Before the first block no name is in use. -/
  unused : ledger.height = none → ∀ name, name ∉ ledger.names
  settled : ∀ {height : Height}, ledger.height = some height →
    ∀ name, (ledger.standing name).Settled height
  /-- A name is due no later than anything under it starts or stops counting. -/
  scheduled : ∀ {height : Height}, ledger.height = some height → ∀ name,
    ∀ date ∈ (ledger.standing name).dates, height < date →
      ∃ key, height < key ∧ key ≤ date ∧ name ∈ ledger.dueAt key

theorem sound_empty (rules : Rules) : (empty rules).Sound where
  indexed := indexed_empty rules
  inUse := by simp [empty]
  unused := by simp [empty]
  settled := by simp [empty]
  scheduled := by simp [empty]

namespace Sound

variable {ledger : Ledger} {height : Height} {name : Bytes}

/-- A name that is not due at the next height is settled at it already. -/
theorem settled_next (sound : ledger.Sound) (notTop : ledger.height ≠ some Height.top)
    (idle : name ∉ ledger.dueAt (Height.next ledger.height)) :
    (ledger.standing name).Settled (Height.next ledger.height) := by
  cases last : ledger.height with
  | none =>
    rw [standing_of_not_mem (sound.unused last name)]
    exact Standing.settled_empty _
  | some earlier =>
    rw [last, Ne, Option.some.injEq] at notTop
    rw [last] at idle
    have succ := toNat_next notTop
    refine (Standing.steady_succ _ succ fun date => idle ?_).settled (sound.settled last name)
    -- were there a date at the next height, the name would be due by then
    obtain ⟨key, after, before, listed⟩ := sound.scheduled last name _ date
      (UInt32.lt_iff_toNat_lt.mpr (by omega))
    have same : key = Height.next (some earlier) := by
      rw [UInt32.lt_iff_toNat_lt] at after
      rw [UInt32.le_iff_toNat_le] at before
      exact UInt32.toNat_inj.mp (by omega)
    exact same ▸ listed

/-- The schedule keeps its promise for a name that is not due at the next
height. -/
theorem scheduled_next (sound : ledger.Sound) (notTop : ledger.height ≠ some Height.top)
    (idle : name ∉ ledger.dueAt (Height.next ledger.height)) {date : Height}
    (coming : date ∈ (ledger.standing name).dates) (later : Height.next ledger.height < date) :
    ∃ key, Height.next ledger.height < key ∧ key ≤ date ∧ name ∈ ledger.dueAt key := by
  cases last : ledger.height with
  | none =>
    rw [standing_of_not_mem (sound.unused last name)] at coming
    cases coming
  | some earlier =>
    rw [last, Ne, Option.some.injEq] at notTop
    rw [last] at idle later
    have succ := toNat_next notTop
    rw [UInt32.lt_iff_toNat_lt] at later
    obtain ⟨key, after, before, listed⟩ := sound.scheduled last name date coming
      (UInt32.lt_iff_toNat_lt.mpr (by omega))
    refine ⟨key, ?_, before, listed⟩
    have different : key.toNat ≠ (Height.next (some earlier)).toNat := by
      intro same
      exact idle (UInt32.toNat_inj.mp same ▸ listed)
    rw [UInt32.lt_iff_toNat_lt] at after ⊢
    omega

end Sound

/-- Only the name that is due at a height comes off the schedule when a block
starts. -/
theorem dueAt_start {ledger : Ledger} {height key : Height} (different : height ≠ key) :
    (BlockWork.start ledger height).ledger.dueAt key = ledger.dueAt key := by
  simp [BlockWork.start, dueAt, Std.ExtTreeMap.getElem?_erase, different]

namespace Sound

variable {ledger : Ledger} {height : Height} {used : List OutPoint} {work : BlockWork}
variable {name : Bytes}

theorem standing_untouched (sound : ledger.Sound) (reached : work.Reached height ledger used)
    (untouched : name ∉ work.touched) : work.ledger.standing name = ledger.standing name :=
  reached.edits.standing_eq (BlockWork.indexed_start sound.indexed height) untouched

/-- Whatever the phases of the next block do not touch needs no look. -/
theorem quiet (sound : ledger.Sound) (notTop : ledger.height ≠ some Height.top)
    (next : height = Height.next ledger.height) (reached : work.Reached height ledger used)
    (untouched : name ∉ work.touched) : work.ledger.Quiet height name where
  settled := by
    rw [sound.standing_untouched reached untouched, next]
    apply sound.settled_next notTop
    rw [← next]
    exact fun listed => untouched (reached.due name listed)
  inUse := by
    intro used
    rw [sound.standing_untouched reached untouched]
    exact sound.inUse name ((reached.edits.mem_names_iff untouched).mp used)

end Sound

/-- A block was taken in: its phases were edits, and the names that they touched
were settled. -/
structure Taken (height : Height) (used : List OutPoint) (before : Ledger) (work : BlockWork)
    (after : Ledger) : Prop where
  notTop : before.height ≠ some Height.top
  next : height = Height.next before.height
  reached : work.Reached height before used
  settlement : ∃ settled, Settlement height work.touched.toList work.ledger settled ∧
    after = { settled with height := some height }

theorem taken_of_applyBlock {ledger after : Ledger} {height : Height} {txs : List BlockTx}
    {summary : BlockSummary} {earlier : List OutPoint} (indexed : ledger.Indexed)
    (grounded : ledger.Grounded earlier) (fresh : (earlier ++ BlockTx.allOutputs txs).Nodup)
    (done : ledger.applyBlock height txs = (after, .ok summary)) :
    Taken height (earlier ++ BlockTx.allOutputs txs) ledger
      ((BlockWork.start ledger height).run height txs) after := by
  obtain ⟨notTop, next, -, settled, settling, rfl⟩ := applyBlock_ok done
  have reached := BlockWork.reached_run height indexed grounded fresh
  exact ⟨notTop, next, reached, settled, settlement_of_settleAll reached.indexed settling, rfl⟩

namespace Taken

variable {height : Height} {used : List OutPoint} {before after : Ledger} {work : BlockWork}
variable {name : Bytes}

theorem quiet (taken : Taken height used before work after) (sound : before.Sound)
    (untouched : name ∉ work.touched) : work.ledger.Quiet height name :=
  sound.quiet taken.notTop taken.next taken.reached untouched

/-- Every name ends with the settled standing of what the phases left, also a
name that was not settled again. -/
theorem standing_eq (taken : Taken height used before work after) (sound : before.Sound)
    (name : Bytes) : after.standing name = (work.ledger.standing name).settled height := by
  obtain ⟨settled, settlement, rfl⟩ := taken.settlement
  apply (settlement.standing name).trans
  by_cases touched : name ∈ work.touched.toList
  · rw [if_pos touched]
  · rw [Std.ExtTreeSet.mem_toList] at touched
    rw [if_neg (mt Std.ExtTreeSet.mem_toList.mp touched),
      (taken.quiet sound touched).settled.settled_eq]

theorem settled (taken : Taken height used before work after) (sound : before.Sound)
    (name : Bytes) : (after.standing name).Settled height := by
  by_cases touched : name ∈ work.touched
  · obtain ⟨settled, settlement, rfl⟩ := taken.settlement
    exact settlement.settled name (Std.ExtTreeSet.mem_toList.mpr touched)
  · have quiet := taken.quiet sound touched
    rw [taken.standing_eq sound, quiet.settled.settled_eq]
    exact quiet.settled

/-- A block keeps a ledger sound. -/
theorem sound (taken : Taken height used before work after) (sound : before.Sound) :
    after.Sound where
  indexed := by
    obtain ⟨settled, settlement, rfl⟩ := taken.settlement
    have indexed := settlement.indexed
    exact ⟨indexed.claim_hash, indexed.support_outpoint, indexed.mem_claims,
      indexed.mem_supports, indexed.holdings⟩
  inUse := by
    intro name used
    by_cases touched : name ∈ work.touched
    · obtain ⟨settled, settlement, rfl⟩ := taken.settlement
      exact ((settlement.used name).mp used).2 (Std.ExtTreeSet.mem_toList.mpr touched)
    · have quiet := taken.quiet sound touched
      rw [taken.standing_eq sound, quiet.settled.settled_eq]
      obtain ⟨settled, settlement, rfl⟩ := taken.settlement
      exact quiet.inUse ((settlement.used name).mp used).1
  unused := by
    obtain ⟨settled, settlement, rfl⟩ := taken.settlement
    rintro ⟨⟩
  settled := by
    intro last isLast name
    have same : last = height := by
      obtain ⟨settled, settlement, rfl⟩ := taken.settlement
      exact (Option.some.inj isLast).symm
    rw [same]
    exact taken.settled sound name
  scheduled := by
    intro last isLast name date coming later
    have same : last = height := by
      obtain ⟨settled, settlement, rfl⟩ := taken.settlement
      exact (Option.some.inj isLast).symm
    rw [same] at later ⊢
    by_cases touched : name ∈ work.touched
    · obtain ⟨settled, settlement, rfl⟩ := taken.settlement
      exact settlement.coming name (Std.ExtTreeSet.mem_toList.mpr touched) date coming later
    · rw [taken.standing_eq sound, (taken.quiet sound touched).settled.settled_eq,
        sound.standing_untouched taken.reached touched] at coming
      have idle : name ∉ before.dueAt (Height.next before.height) := by
        rw [← taken.next]
        exact fun listed => touched (taken.reached.due name listed)
      obtain ⟨key, after, inTime, listed⟩ :=
        sound.scheduled_next taken.notTop idle coming (taken.next ▸ later)
      rw [← taken.next] at after
      refine ⟨key, after, inTime, ?_⟩
      obtain ⟨settled, settlement, rfl⟩ := taken.settlement
      apply settlement.kept
      obtain ⟨_, _, _, _, _, edited⟩ := taken.reached.edits.rest
      rw [edited]
      change name ∈ (BlockWork.start before height).ledger.dueAt key
      rw [dueAt_start (UInt32.ne_of_lt after)]
      exact listed

/-- Settling brings no claim in. -/
theorem claim_before (taken : Taken height used before work after) (sound : before.Sound)
    {hash : ClaimHash} {claim : Claim} (live : after.claims[hash]? = some claim) :
    ∃ old, work.ledger.claims[hash]? = some old ∧
      ∃ term effective, claim = { old with term, effective } := by
  obtain ⟨isHash, listed⟩ := (getElem?_claims_eq_some_iff (taken.sound sound).indexed).mp live
  rw [taken.standing_eq sound] at listed
  obtain ⟨old, listed, term, effective, rfl⟩ := Standing.mem_claims_settled _ _ listed
  exact ⟨old, (getElem?_claims_eq_some_iff taken.reached.indexed).mpr ⟨isHash, listed⟩, term,
    effective, rfl⟩

/-- Settling brings no support in. -/
theorem support_before (taken : Taken height used before work after) (sound : before.Sound)
    {outpoint : OutPoint} {support : Support} (live : after.supports[outpoint]? = some support) :
    ∃ old, work.ledger.supports[outpoint]? = some old ∧ ∃ term, support = { old with term } := by
  obtain ⟨isOutpoint, listed⟩ :=
    (getElem?_supports_eq_some_iff (taken.sound sound).indexed).mp live
  rw [taken.standing_eq sound] at listed
  obtain ⟨old, listed, term, rfl⟩ := Standing.mem_supports_settled _ _ listed
  exact ⟨old, (getElem?_supports_eq_some_iff taken.reached.indexed).mpr ⟨isOutpoint, listed⟩,
    term, rfl⟩

/-- After a block everything live sits on an output produced by then. -/
theorem grounded (taken : Taken height used before work after) (sound : before.Sound) :
    after.Grounded used where
  claims := by
    intro hash claim live
    obtain ⟨old, phases, _, _, rfl⟩ := taken.claim_before sound live
    have sits := taken.reached.grounded.claims phases
    exact sits
  supports := by
    intro outpoint support live
    obtain ⟨old, phases, -⟩ := taken.support_before sound live
    exact taken.reached.grounded.supports phases
  apart := by
    intro outpoint support live
    obtain ⟨old, phases, -⟩ := taken.support_before sound live
    obtain ⟨settled, settlement, rfl⟩ := taken.settlement
    obtain ⟨_, _, _, _, _, rfl⟩ := settlement.rest
    exact taken.reached.grounded.apart phases

theorem rules_eq (taken : Taken height used before work after) : after.rules = before.rules := by
  obtain ⟨settled, settlement, rfl⟩ := taken.settlement
  obtain ⟨_, _, _, _, _, rfl⟩ := settlement.rest
  exact taken.reached.rules_eq

end Taken

/-! ## All blocks of a chain -/

end Ledger

/-- A way to take the transactions of a block at a height into a ledger. -/
abbrev Engine := Ledger → Height → List BlockTx → Ledger × Except SyncError BlockSummary

namespace Engine

/-- Take one more block in. Only the next height is ever accepted. -/
def extend (engine : Engine) (ledger : Ledger) (txs : List BlockTx) :
    Except SyncError (Ledger × BlockSummary) :=
  match engine ledger (Height.next ledger.height) txs with
  | (after, .ok summary) => .ok (after, summary)
  | (_, .error failure) => .error failure

/-- Take in the blocks of a chain from the first one on, up to the first
failure, and keep the summary of each. -/
def replay (engine : Engine) (rules : Rules) (blocks : List (List BlockTx)) :
    Except SyncError (Ledger × List BlockSummary) :=
  blocks.foldlM (fun (ledger, summaries) txs => do
    let (after, summary) ← engine.extend ledger txs
    return (after, summaries ++ [summary])) (Ledger.empty rules, [])

variable {engine : Engine} {rules : Rules} {blocks : List (List BlockTx)} {txs : List BlockTx}
variable {ledger after : Ledger} {summaries : List BlockSummary} {summary : BlockSummary}

theorem extend_eq_ok : engine.extend ledger txs = .ok (after, summary) ↔
    engine ledger (Height.next ledger.height) txs = (after, .ok summary) := by
  rw [extend]
  split
  · next answer => simp [answer]
  · next answer => simp [answer]

/-- A longer chain is replayed from where the shorter one ended. -/
theorem replay_concat (engine : Engine) (rules : Rules) (blocks : List (List BlockTx))
    (txs : List BlockTx) :
    engine.replay rules (blocks ++ [txs]) = do
      let (ledger, summaries) ← engine.replay rules blocks
      let (after, summary) ← engine.extend ledger txs
      return (after, summaries ++ [summary]) := by
  unfold replay
  simp only [List.foldlM_append, List.foldlM_cons, List.foldlM_nil, bind_pure]

theorem replay_concat_eq_ok :
    engine.replay rules (blocks ++ [txs]) = .ok (after, summaries) ↔
      ∃ ledger earlier summary, engine.replay rules blocks = .ok (ledger, earlier) ∧
        engine ledger (Height.next ledger.height) txs = (after, .ok summary) ∧
        summaries = earlier ++ [summary] := by
  rw [replay_concat]
  cases start : engine.replay rules blocks with
  | error failure => simp [bind, Except.bind]
  | ok state =>
    obtain ⟨ledger, earlier⟩ := state
    cases next : engine.extend ledger txs with
    | error failure => simp [bind, Except.bind, next, ← extend_eq_ok]
    | ok answer =>
      obtain ⟨last, summary⟩ := answer
      simp only [bind, Except.bind, next, pure, Except.pure, Except.ok.injEq, Prod.mk.injEq,
        ← extend_eq_ok]
      constructor
      · rintro ⟨rfl, rfl⟩
        exact ⟨ledger, earlier, summary, ⟨rfl, rfl⟩, next, rfl⟩
      · rintro ⟨_, _, _, ⟨rfl, rfl⟩, answer, rfl⟩
        rw [next] at answer
        cases answer
        exact ⟨rfl, rfl⟩

end Engine

/-- No two claim events of a chain produce the same output, and no two create
the same claim. -/
structure Fresh (blocks : List (List BlockTx)) : Prop where
  outputs : (blocks.flatMap BlockTx.allOutputs).Nodup
  hashes : (blocks.flatMap BlockTx.allCreated).Nodup

namespace Fresh

variable {blocks : List (List BlockTx)} {txs : List BlockTx}

theorem outputs_concat (fresh : Fresh (blocks ++ [txs])) :
    (blocks.flatMap BlockTx.allOutputs ++ BlockTx.allOutputs txs).Nodup := by
  simpa using fresh.outputs

theorem hashes_concat (fresh : Fresh (blocks ++ [txs])) :
    (blocks.flatMap BlockTx.allCreated ++ BlockTx.allCreated txs).Nodup := by
  simpa using fresh.hashes

/-- A shorter chain produces less. -/
theorem left {more : List (List BlockTx)} (fresh : Fresh (blocks ++ more)) : Fresh blocks where
  outputs := by
    have outputs := fresh.outputs
    rw [List.flatMap_append] at outputs
    exact (List.nodup_append.mp outputs).1
  hashes := by
    have hashes := fresh.hashes
    rw [List.flatMap_append] at hashes
    exact (List.nodup_append.mp hashes).1

theorem init (fresh : Fresh (blocks ++ [txs])) : Fresh blocks :=
  fresh.left

/-- A chain is fresh up to every height. -/
theorem take (fresh : Fresh blocks) (count : Nat) : Fresh (blocks.take count) := by
  rw [← List.take_append_drop count blocks] at fresh
  exact fresh.left

end Fresh

namespace Ledger

variable {rules : Rules} {blocks : List (List BlockTx)} {txs : List BlockTx} {ledger : Ledger}
variable {summaries : List BlockSummary}

/-- Every ledger that a fresh chain leads to is sound, and everything live sits
on an output of the chain. -/
theorem sound_and_grounded_of_replay (fresh : Fresh blocks)
    (run : Engine.replay applyBlock rules blocks = .ok (ledger, summaries)) :
    ledger.Sound ∧ ledger.Grounded (blocks.flatMap BlockTx.allOutputs) := by
  induction blocks using List.reverseRecOn generalizing ledger summaries with
  | nil =>
    cases run
    exact ⟨sound_empty rules, ⟨by simp [empty], by simp [empty], by simp [empty]⟩⟩
  | append_singleton blocks txs ih =>
    obtain ⟨before, earlier, summary, run, done, -⟩ := Engine.replay_concat_eq_ok.mp run
    obtain ⟨sound, grounded⟩ := ih fresh.init run
    have taken := taken_of_applyBlock sound.indexed grounded fresh.outputs_concat done
    refine ⟨taken.sound sound, ?_⟩
    rw [List.flatMap_append, List.flatMap_singleton]
    exact taken.grounded sound

/-- The last block of a replayed chain was taken in by a sound ledger. -/
theorem taken_of_replay (fresh : Fresh (blocks ++ [txs]))
    (run : Engine.replay applyBlock rules (blocks ++ [txs]) = .ok (ledger, summaries)) :
    ∃ before earlier height work,
      Engine.replay applyBlock rules blocks = .ok (before, earlier) ∧ before.Sound ∧
        Taken height (blocks.flatMap BlockTx.allOutputs ++ BlockTx.allOutputs txs) before work
          ledger := by
  obtain ⟨before, earlier, summary, run, done, -⟩ := Engine.replay_concat_eq_ok.mp run
  obtain ⟨sound, grounded⟩ := sound_and_grounded_of_replay fresh.init run
  exact ⟨before, earlier, _, _, run, sound,
    taken_of_applyBlock sound.indexed grounded fresh.outputs_concat done⟩

/-- All blocks are taken in under the same rules. -/
theorem rules_of_replay (fresh : Fresh blocks)
    (run : Engine.replay applyBlock rules blocks = .ok (ledger, summaries)) :
    ledger.rules = rules := by
  induction blocks using List.reverseRecOn generalizing ledger summaries with
  | nil =>
    cases run
    rfl
  | append_singleton blocks txs ih =>
    obtain ⟨before, earlier, summary, run, done, -⟩ := Engine.replay_concat_eq_ok.mp run
    obtain ⟨sound, grounded⟩ := sound_and_grounded_of_replay fresh.init run
    exact (taken_of_applyBlock sound.indexed grounded fresh.outputs_concat done).rules_eq.trans
      (ih fresh.init run)

/-- What is seen of an outcome that is an answer is seen of an answer. -/
theorem exists_of_map_toOption {ε α β : Type} {outcome : Except ε α} {view : α → β} {seen : β}
    (shown : outcome.toOption.map view = some seen) :
    ∃ answer, outcome = .ok answer ∧ view answer = seen := by
  cases outcome with
  | error failure => cases shown
  | ok answer => exact ⟨answer, rfl, Option.some.inj shown⟩

/-- As many blocks were taken in as there are heights up to the last. -/
theorem height_of_replay (run : Engine.replay applyBlock rules blocks = .ok (ledger, summaries)) :
    (ledger.height.elim 0 fun last => last.toNat + 1) = blocks.length := by
  induction blocks using List.reverseRecOn generalizing ledger summaries with
  | nil =>
    cases run
    rfl
  | append_singleton blocks txs ih =>
    obtain ⟨before, earlier, summary, run, done, -⟩ := Engine.replay_concat_eq_ok.mp run
    have count := ih run
    obtain ⟨notTop, next, -, _, -, rfl⟩ := applyBlock_ok done
    rw [List.length_append, List.length_singleton, ← count, Option.elim_some, next,
      toNat_next_height notTop]

end Ledger

end ClaimLedger
