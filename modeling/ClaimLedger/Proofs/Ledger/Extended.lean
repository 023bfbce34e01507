/-
# Rows and where they come from

A block extends the chain that led to a ledger if it produces no output and
creates no claim that was there already. Then every row that the phases of the
block leave has one origin: it was live before, or one event of the block brings
it in. A claim may have moved since then, but neither kind of row stays whose
output the block spends.
-/

import ClaimLedger.Proofs.Ledger.Cells
import ClaimLedger.Proofs.Ledger.Replay

namespace ClaimLedger

namespace Ledger

/-! ## One origin -/

section Origin

variable {before : Ledger} {height : Height} {hash : ClaimHash} {outpoint : OutPoint}
variable {events : List (BlockTx × TxEvent)}

/-- Where no claim is created twice, a claim is born of whichever event creates
it. -/
theorem findSome?_born?_eq_some_iff {claim : Claim}
    (once : (events.filterMap fun event => event.2.created?).Nodup) :
    events.findSome? (before.born? height hash) = some claim ↔
      ∃ event ∈ events, before.born? height hash event = some claim := by
  constructor
  · exact List.exists_of_findSome?_eq_some
  · rintro ⟨event, listed, born⟩
    induction events with
    | nil => cases listed
    | cons first more ih =>
      rw [List.findSome?_cons]
      rcases List.mem_cons.mp listed with rfl | listed
      · rw [born]
      · have created : hash ∈ more.filterMap fun event => event.2.created? :=
          List.mem_filterMap.mpr ⟨event, listed, (of_born?_eq_some born).1⟩
        have other : before.born? height hash first = none := by
          rw [Option.eq_none_iff_forall_ne_some]
          intro claim' born'
          rw [List.filterMap_cons, (of_born?_eq_some born').1] at once
          exact (List.nodup_cons.mp once).1 created
        have later : (more.filterMap fun event => event.2.created?).Nodup :=
          once.sublist ((List.sublist_cons_self first more).filterMap _)
        rw [other]
        exact ih later listed

/-- A support is pledged by an event that produces its output. -/
theorem of_pledged?_eq_some {support : Support} {event : TxEvent}
    (pledged : before.pledged? height outpoint event = some support) :
    event.output? = some outpoint := by
  cases event with
  | support produced name claim amount =>
    rw [pledged?] at pledged
    split at pledged
    · next same => exact congrArg some same
    · cases pledged
  | spend produced => cases pledged
  | create produced name claim amount owner => cases pledged
  | update produced name claim amount owner => cases pledged

/-- Events that do not produce an output add no support in it. -/
theorem foldl_pledged?_of_not_mem
    (elsewhere : outpoint ∉ events.filterMap fun event => event.2.output?)
    (cell : Option Support) :
    events.foldl (fun cell event => (before.pledged? height outpoint event.2).or cell) cell =
      cell := by
  apply List.foldlRecOn (motive := fun now => now = cell) _ _ rfl
  intro now same event listed
  have nothing : before.pledged? height outpoint event.2 = none := by
    rw [Option.eq_none_iff_forall_ne_some]
    intro support pledged
    exact elsewhere (List.mem_filterMap.mpr ⟨event, listed, of_pledged?_eq_some pledged⟩)
  rw [nothing, Option.none_or, same]

/-- Where no output is produced twice, a support was there or is the one that an
event adds. -/
theorem foldl_pledged?_eq_some_iff {support : Support} {cell : Option Support}
    (once : (events.filterMap fun event => event.2.output?).Nodup)
    (new : outpoint ∈ (events.filterMap fun event => event.2.output?) → cell = none) :
    events.foldl (fun cell event => (before.pledged? height outpoint event.2).or cell) cell =
        some support ↔
      cell = some support ∨
        ∃ event ∈ events, before.pledged? height outpoint event.2 = some support := by
  induction events generalizing cell with
  | nil => simp
  | cons event more ih =>
    have later : (more.filterMap fun event => event.2.output?).Nodup :=
      once.sublist ((List.sublist_cons_self event more).filterMap _)
    rw [List.foldl_cons, List.exists_mem_cons_iff]
    cases pledged : before.pledged? height outpoint event.2 with
    | none =>
      rw [Option.none_or, ih later fun listed => new ?_]
      · simp
      · exact (((List.sublist_cons_self event more).filterMap _).subset listed)
    | some added =>
      have produces := of_pledged?_eq_some pledged
      rw [List.filterMap_cons, produces] at once new
      have onlyHere := (List.nodup_cons.mp once).1
      have unpledged : ¬ ∃ event ∈ more,
          before.pledged? height outpoint event.2 = some support := by
        rintro ⟨other, listed, pledged'⟩
        exact onlyHere (List.mem_filterMap.mpr ⟨other, listed, of_pledged?_eq_some pledged'⟩)
      rw [Option.some_or, foldl_pledged?_of_not_mem onlyHere, new List.mem_cons_self]
      simp [unpledged]

end Origin

/-! ## A block that extends a chain -/

/-- A block extends the chain that led to a ledger: it produces no output and
creates no claim that was there already. -/
structure ExtendedBy (ledger : Ledger) (earlier : List OutPoint) (created : List ClaimHash)
    (txs : List BlockTx) : Prop where
  sound : ledger.Sound
  grounded : ledger.Grounded earlier
  /-- Every live claim was created on the chain. -/
  known : ∀ {hash : ClaimHash} {claim : Claim},
    ledger.claims[hash]? = some claim → hash ∈ created
  outputs : (earlier ++ BlockTx.allOutputs txs).Nodup
  hashes : (created ++ BlockTx.allCreated txs).Nodup

namespace ExtendedBy

variable {ledger : Ledger} {earlier : List OutPoint} {created : List ClaimHash}
variable {txs : List BlockTx} (height : Height)

theorem reached (extended : ledger.ExtendedBy earlier created txs) :
    BlockWork.Reached height ledger (earlier ++ BlockTx.allOutputs txs)
      ((BlockWork.start ledger height).run height txs) :=
  BlockWork.reached_run height extended.sound.indexed extended.grounded extended.outputs

/-- The block creates no claim that is live. -/
theorem uncreated (extended : ledger.ExtendedBy earlier created txs) {hash : ClaimHash}
    {claim : Claim} (live : ledger.claims[hash]? = some claim) :
    hash ∉ BlockTx.allCreated txs := fun again =>
  (List.nodup_append.mp extended.hashes).2.2 hash (extended.known live) hash again rfl

/-- The block produces no output that holds a support. -/
theorem unproduced (extended : ledger.ExtendedBy earlier created txs) {outpoint : OutPoint}
    {support : Support} (live : ledger.supports[outpoint]? = some support) :
    outpoint ∉ BlockTx.allOutputs txs := fun again =>
  (List.nodup_append.mp extended.outputs).2.2 outpoint (extended.grounded.supports live)
    outpoint again rfl

/-- A claim that the phases leave was there before or is born in the block. It is
where the updates of the block brought it, on an output that is not spent. -/
theorem getElem?_claims_run_iff (extended : ledger.ExtendedBy earlier created txs)
    {hash : ClaimHash} {claim : Claim} :
    ((BlockWork.start ledger height).run height txs).ledger.claims[hash]? = some claim ↔
      ∃ old, (ledger.claims[hash]? = some old ∨
          ∃ event ∈ BlockTx.allEvents txs, ledger.born? height hash event = some old) ∧
        (BlockTx.allEvents txs).foldl (Claim.updatedBy ledger.rules height) old = claim ∧
        claim.outpoint ∉ BlockTx.allSpends txs := by
  have born (claim : Claim) (live : ledger.claims[hash]? = some claim) :
      (BlockTx.allEvents txs).findSome? (ledger.born? height hash) = none :=
    findSome?_born?_eq_none (extended.uncreated live)
  have origin (old : Claim) :
      ledger.claims[hash]?.or ((BlockTx.allEvents txs).findSome? (ledger.born? height hash)) =
          some old ↔
        ledger.claims[hash]? = some old ∨
          ∃ event ∈ BlockTx.allEvents txs, ledger.born? height hash event = some old := by
    rw [← findSome?_born?_eq_some_iff (List.nodup_append.mp extended.hashes).2.1]
    cases live : ledger.claims[hash]? with
    | none => simp
    | some claim => simp [born claim live]
  rw [BlockWork.getElem?_claims_run_eq extended.sound.indexed extended.grounded extended.outputs
    hash born, Option.filter_eq_some_iff, Option.map_eq_some_iff]
  simp only [origin, Bool.not_eq_true', List.contains_eq_mem, decide_eq_false_iff_not]
  constructor
  · rintro ⟨⟨old, came, moved⟩, unspent⟩
    exact ⟨old, came, moved, unspent⟩
  · rintro ⟨old, came, moved, unspent⟩
    exact ⟨⟨old, came, moved⟩, unspent⟩

/-- A support that the phases leave was there before or is pledged in the block,
in an output that is not spent. -/
theorem getElem?_supports_run_iff (extended : ledger.ExtendedBy earlier created txs)
    {outpoint : OutPoint} {support : Support} :
    ((BlockWork.start ledger height).run height txs).ledger.supports[outpoint]? = some support ↔
      outpoint ∉ BlockTx.allSpends txs ∧
        (ledger.supports[outpoint]? = some support ∨
          ∃ event ∈ BlockTx.allEvents txs,
            ledger.pledged? height outpoint event.2 = some support) := by
  have once := (List.nodup_append.mp extended.outputs).2.1
  have new (produced : outpoint ∈ BlockTx.allOutputs txs) :
      ledger.supports[outpoint]? = none :=
    Option.eq_none_iff_forall_ne_some.mpr fun _ live => extended.unproduced live produced
  rw [BlockWork.getElem?_supports_run extended.sound.indexed extended.grounded extended.outputs]
  split
  · next spent => simp [spent]
  · next unspent =>
    rw [foldl_pledged?_eq_some_iff once new]
    simp only [unspent, not_false_eq_true, true_and]

end ExtendedBy

/-! ## Blocks of a chain -/

variable {rules : Rules} {blocks : List (List BlockTx)} {txs : List BlockTx} {ledger : Ledger}
variable {summaries : List BlockSummary}

/-- Every claim that is live on a chain was created on it. -/
theorem mem_created_of_replay (fresh : Fresh blocks)
    (run : Engine.replay applyBlock rules blocks = .ok (ledger, summaries)) {hash : ClaimHash}
    {claim : Claim} (live : ledger.claims[hash]? = some claim) :
    hash ∈ blocks.flatMap BlockTx.allCreated := by
  induction blocks using List.reverseRecOn generalizing ledger summaries hash claim with
  | nil =>
    cases run
    simp [empty] at live
  | append_singleton blocks txs ih =>
    obtain ⟨before, earlier, summary, run, done, -⟩ := Engine.replay_concat_eq_ok.mp run
    obtain ⟨sound, grounded⟩ := sound_and_grounded_of_replay fresh.init run
    have taken := taken_of_applyBlock sound.indexed grounded fresh.outputs_concat done
    obtain ⟨old, live, -⟩ := taken.claim_before sound live
    rw [List.flatMap_append, List.flatMap_singleton]
    exact BlockWork.mem_created_of_run sound.indexed grounded fresh.outputs_concat
      (fun live => ih fresh.init run live) live

/-- Every block of a fresh chain extends the blocks before it. -/
theorem extendedBy_of_replay (fresh : Fresh (blocks ++ [txs]))
    (run : Engine.replay applyBlock rules blocks = .ok (ledger, summaries)) :
    ledger.ExtendedBy (blocks.flatMap BlockTx.allOutputs) (blocks.flatMap BlockTx.allCreated)
      txs where
  sound := (sound_and_grounded_of_replay fresh.init run).1
  grounded := (sound_and_grounded_of_replay fresh.init run).2
  known := mem_created_of_replay fresh.init run
  outputs := fresh.outputs_concat
  hashes := fresh.hashes_concat

end Ledger

end ClaimLedger
