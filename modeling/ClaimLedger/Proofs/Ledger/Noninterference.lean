/-
# Names do not interfere

The claims and supports of all names lie in the same rows, an output may hold
something of any name, and an update under one name may cite a claim of another,
which puts off giving that claim up. None of this shows: what a chain does to a
name follows from its spends and from what its transactions do under that name.

Two chains are compared that agree on this part. Every row that a block leaves
under the name has an origin under the name, which the other chain has too, and
only updates under the name move a claim of it. So the name has the same standing
in both chains after the phases of each block, and settling it looks at nothing
else.
-/

import Mathlib.Data.List.Forall2
import ClaimLedger.Proofs.Ledger.Extended

namespace ClaimLedger

/-! ## What transactions do under a name -/

/-- The name that an event is about, if it is not a spend. -/
def TxEvent.name? : TxEvent → Option Bytes
  | spend _ => none
  | create _ name _ _ _ => some name
  | update _ name _ _ _ => some name
  | support _ name _ _ => some name

namespace BlockTx

/-- The events of a transaction under a name. -/
def under (tx : BlockTx) (name : Bytes) : List TxEvent :=
  tx.events.filter fun event => event.name? = some name

/-- Two transactions at the same place spend the same outputs and do the same
under a name. -/
structure SameUnder (name : Bytes) (tx other : BlockTx) : Prop where
  index : tx.index = other.index
  spends : tx.spends = other.spends
  under : tx.under name = other.under name

theorem SameUnder.symm {name : Bytes} {tx other : BlockTx} (same : SameUnder name tx other) :
    SameUnder name other tx :=
  ⟨same.index.symm, same.spends.symm, same.under.symm⟩

section Blocks

variable {name : Bytes} {txs others : List BlockTx}
variable (same : List.Forall₂ (SameUnder name) txs others)

include same

theorem forall₂_sameUnder_symm : List.Forall₂ (SameUnder name) others txs :=
  (same.imp fun _ _ => SameUnder.symm).flip

theorem allSpends_eq_of_sameUnder : allSpends txs = allSpends others := by
  induction same with
  | nil => rfl
  | cons here _ ih => rw [allSpends_cons, allSpends_cons, here.spends, ih]

/-- An event under the name has its counterpart. -/
theorem exists_mem_allEvents {tx : BlockTx} {event : TxEvent}
    (listed : (tx, event) ∈ allEvents txs) (named : event.name? = some name) :
    ∃ other, SameUnder name tx other ∧ (other, event) ∈ allEvents others := by
  induction same with
  | nil => cases listed
  | @cons first second more more' here _ ih =>
    rw [allEvents_cons, List.mem_append] at listed
    rcases listed with own | later
    · obtain ⟨_, member, isPair⟩ := List.mem_map.mp own
      cases isPair
      have under : event ∈ tx.under name := List.mem_filter.mpr ⟨member, decide_eq_true named⟩
      rw [here.under] at under
      refine ⟨second, here, ?_⟩
      rw [allEvents_cons]
      exact List.mem_append_left _ (List.mem_map_of_mem (List.mem_of_mem_filter under))
    · obtain ⟨other, same, there⟩ := ih later
      refine ⟨other, same, ?_⟩
      rw [allEvents_cons]
      exact List.mem_append_right _ there

end Blocks

end BlockTx

namespace Claim

variable {rules : Rules} {height : Height} {claim : Claim} {name : Bytes}

theorem name_updatedBy (rules : Rules) (height : Height) (claim : Claim)
    (event : BlockTx × TxEvent) : (claim.updatedBy rules height event).name = claim.name := by
  unfold updatedBy
  split
  · split <;> rfl
  · rfl

theorem name_foldl_updatedBy (rules : Rules) (height : Height) (claim : Claim)
    (events : List (BlockTx × TxEvent)) :
    (events.foldl (updatedBy rules height) claim).name = claim.name :=
  List.foldlRecOn (motive := fun now : Claim => now.name = claim.name) _ _ rfl
    fun now same event _ => (name_updatedBy rules height now event).trans same

/-- An update under another name does not move a claim, whatever claim it
cites. -/
theorem updatedBy_of_name_ne {event : BlockTx × TxEvent}
    (foreign : event.2.name? ≠ some claim.name) : claim.updatedBy rules height event = claim := by
  obtain ⟨tx, event⟩ := event
  cases event with
  | update outpoint name hash amount owner =>
    rw [updatedBy, if_neg]
    rintro ⟨-, accepted⟩
    have named : claim.name = name := not_not.mp fun different => accepted (.inl different)
    exact foreign (congrArg some named.symm)
  | spend outpoint => rfl
  | create outpoint name hash amount owner => rfl
  | support outpoint name hash amount => rfl

/-- Only the updates under its name move a claim. -/
theorem foldl_updatedBy_filter (named : claim.name = name) (events : List (BlockTx × TxEvent)) :
    events.foldl (updatedBy rules height) claim =
      (events.filter fun event => event.2.name? = some name).foldl (updatedBy rules height)
        claim := by
  induction events generalizing claim with
  | nil => rfl
  | cons event more ih =>
    by_cases about : event.2.name? = some name
    · have here : decide (event.2.name? = some name) = true := decide_eq_true about
      rw [List.filter_cons, if_pos here, List.foldl_cons, List.foldl_cons,
        ih ((name_updatedBy rules height claim event).trans named)]
    · have here : ¬ decide (event.2.name? = some name) = true := by simpa using about
      rw [List.filter_cons, if_neg here, List.foldl_cons, updatedBy_of_name_ne (named ▸ about),
        ih named]

/-- Of its transaction an update sees the spends only. -/
theorem updatedBy_congr {tx other : BlockTx} (spends : tx.spends = other.spends)
    (claim : Claim) (event : TxEvent) :
    claim.updatedBy rules height (tx, event) = claim.updatedBy rules height (other, event) := by
  cases event with
  | update outpoint name hash amount owner => rw [updatedBy, updatedBy, spends]
  | spend outpoint => rfl
  | create outpoint name hash amount owner => rfl
  | support outpoint name hash amount => rfl

theorem foldl_updatedBy_ownEvents_congr {tx other : BlockTx}
    (same : BlockTx.SameUnder name tx other) (named : claim.name = name) :
    tx.ownEvents.foldl (updatedBy rules height) claim =
      other.ownEvents.foldl (updatedBy rules height) claim := by
  have own (tx : BlockTx) : tx.ownEvents.foldl (updatedBy rules height) claim =
      (tx.under name).foldl (fun claim event => claim.updatedBy rules height (tx, event))
        claim := by
    rw [foldl_updatedBy_filter named, BlockTx.ownEvents, List.filter_map, List.foldl_map]
    rfl
  rw [own, own, same.under]
  simp only [updatedBy_congr same.spends]

/-- Blocks that do the same under a name move its claims to the same places. -/
theorem foldl_updatedBy_congr {txs others : List BlockTx}
    (same : List.Forall₂ (BlockTx.SameUnder name) txs others) (named : claim.name = name) :
    (BlockTx.allEvents txs).foldl (updatedBy rules height) claim =
      (BlockTx.allEvents others).foldl (updatedBy rules height) claim := by
  induction same generalizing claim with
  | nil => rfl
  | @cons tx other _ _ here _ ih =>
    rw [BlockTx.allEvents_cons, BlockTx.allEvents_cons, List.foldl_append, List.foldl_append,
      foldl_updatedBy_ownEvents_congr here named]
    exact ih ((name_foldl_updatedBy rules height claim other.ownEvents).trans named)

end Claim

/-- The changes of control of a name in a block. -/
def BlockSummary.takeoversOf (summary : BlockSummary) (name : Bytes) :
    List (Bytes × Option ClaimHash) :=
  summary.takeovers.filter fun takeover => takeover.1 = name

namespace Ledger

/-! ## One block -/

/-- Two ledgers at one height and under the same rules cannot be told apart by a
name. -/
structure SameStanding (name : Bytes) (left right : Ledger) : Prop where
  rules : left.rules = right.rules
  height : left.height = right.height
  standing : left.standing name = right.standing name

theorem SameStanding.symm {name : Bytes} {left right : Ledger}
    (same : SameStanding name left right) : SameStanding name right left :=
  ⟨same.rules.symm, same.height.symm, same.standing.symm⟩

section Step

variable {name : Bytes} {left right : Ledger} {height : Height}

namespace SameStanding

theorem takeover?_eq (same : SameStanding name left right) :
    left.takeover? name = right.takeover? name := by
  rw [takeover?_eq_standing, takeover?_eq_standing, same.standing]

theorem newcomerDelay_eq (same : SameStanding name left right) :
    left.newcomerDelay name height = right.newcomerDelay name height := by
  rw [newcomerDelay, newcomerDelay, same.takeover?_eq, same.rules]

/-- The same create event under the name brings in the same claim. -/
theorem born?_eq (same : SameStanding name left right) {tx other : BlockTx} {event : TxEvent}
    (index : tx.index = other.index) (named : event.name? = some name) (hash : ClaimHash) :
    left.born? height hash (tx, event) = right.born? height hash (other, event) := by
  cases event with
  | create outpoint name' claim amount owner =>
    cases named
    rw [born?, born?, newClaim, newClaim, same.newcomerDelay_eq, same.rules, index]
  | spend outpoint => rfl
  | update outpoint name' claim amount owner => rfl
  | support outpoint name' claim amount => rfl

/-- The same support event under the name brings in the same support. -/
theorem pledged?_eq (same : SameStanding name left right) {event : TxEvent}
    (named : event.name? = some name) (outpoint : OutPoint) :
    left.pledged? height outpoint event = right.pledged? height outpoint event := by
  cases event with
  | support produced name' claim amount =>
    cases named
    rw [pledged?, pledged?, newSupport, newSupport, controls, controls, same.takeover?_eq,
      same.newcomerDelay_eq, same.rules]
  | spend outpoint => rfl
  | create produced name' claim amount owner => rfl
  | update produced name' claim amount owner => rfl

end SameStanding

/-- A claim is born of an event under its name. -/
theorem name?_of_born?_eq_some {hash : ClaimHash} {event : BlockTx × TxEvent} {claim : Claim}
    (born : left.born? height hash event = some claim) : event.2.name? = some claim.name := by
  obtain ⟨tx, event⟩ := event
  cases event with
  | create outpoint name created amount owner =>
    rw [born?] at born
    split at born
    · cases born
      rfl
    · cases born
  | spend outpoint => cases born
  | update outpoint name created amount owner => cases born
  | support outpoint name created amount => cases born

/-- A support is pledged by an event under its name. -/
theorem name?_of_pledged?_eq_some {outpoint : OutPoint} {event : TxEvent} {support : Support}
    (pledged : left.pledged? height outpoint event = some support) :
    event.name? = some support.name := by
  cases event with
  | support produced name claim amount =>
    rw [pledged?] at pledged
    split at pledged
    · cases pledged
      rfl
    · cases pledged
  | spend outpoint => cases pledged
  | create produced name claim amount owner => cases pledged
  | update produced name claim amount owner => cases pledged

variable {txs others : List BlockTx} {earlier earlier' : List OutPoint}
variable {created created' : List ClaimHash}

section Rows

variable (same : SameStanding name left right)
variable (sameTxs : List.Forall₂ (BlockTx.SameUnder name) txs others)
variable (extended : left.ExtendedBy earlier created txs)
variable (extended' : right.ExtendedBy earlier' created' others)

include same sameTxs extended extended'

/-- A claim that a block leaves under the name, the other block leaves too. -/
theorem live_claim_of_sameStanding {hash : ClaimHash} {claim : Claim} (named : claim.name = name)
    (live : ((BlockWork.start left height).run height txs).ledger.claims[hash]? = some claim) :
    ((BlockWork.start right height).run height others).ledger.claims[hash]? = some claim := by
  obtain ⟨old, came, rfl, unspent⟩ := (extended.getElem?_claims_run_iff height).mp live
  rw [Claim.name_foldl_updatedBy] at named
  refine (extended'.getElem?_claims_run_iff height).mpr ⟨old, ?_, ?_, ?_⟩
  · rcases came with before | ⟨⟨tx, event⟩, listed, born⟩
    · left
      rw [getElem?_claims_eq_some_iff extended.sound.indexed, named, same.standing] at before
      rw [getElem?_claims_eq_some_iff extended'.sound.indexed, named]
      exact before
    · right
      have about : event.name? = some name := (name?_of_born?_eq_some born).trans (by rw [named])
      obtain ⟨other, sameTx, there⟩ := BlockTx.exists_mem_allEvents sameTxs listed about
      exact ⟨(other, event), there, (same.born?_eq sameTx.index about hash).symm.trans born⟩
  · rw [← same.rules]
    exact (Claim.foldl_updatedBy_congr sameTxs named).symm
  · rw [← BlockTx.allSpends_eq_of_sameUnder sameTxs]
    exact unspent

/-- A support that a block leaves under the name, the other block leaves too. -/
theorem live_support_of_sameStanding {outpoint : OutPoint} {support : Support}
    (named : support.name = name)
    (live : ((BlockWork.start left height).run height txs).ledger.supports[outpoint]? =
      some support) :
    ((BlockWork.start right height).run height others).ledger.supports[outpoint]? =
      some support := by
  obtain ⟨unspent, came⟩ := (extended.getElem?_supports_run_iff height).mp live
  refine (extended'.getElem?_supports_run_iff height).mpr ⟨?_, ?_⟩
  · rw [← BlockTx.allSpends_eq_of_sameUnder sameTxs]
    exact unspent
  · rcases came with before | ⟨⟨tx, event⟩, listed, pledged⟩
    · left
      rw [getElem?_supports_eq_some_iff extended.sound.indexed, named, same.standing] at before
      rw [getElem?_supports_eq_some_iff extended'.sound.indexed, named]
      exact before
    · right
      have about : event.name? = some name :=
        (name?_of_pledged?_eq_some pledged).trans (by rw [named])
      obtain ⟨other, -, there⟩ := BlockTx.exists_mem_allEvents sameTxs listed about
      exact ⟨(other, event), there, (same.pledged?_eq about outpoint).symm.trans pledged⟩

/-- After the phases of a block the name has one standing in both ledgers. -/
theorem standing_run_eq :
    ((BlockWork.start left height).run height txs).ledger.standing name =
      ((BlockWork.start right height).run height others).ledger.standing name := by
  have sameTxs' := BlockTx.forall₂_sameUnder_symm sameTxs
  have reached := extended.reached height
  have reached' := extended'.reached height
  apply standing_eq_of_live reached'.indexed reached.indexed
  · intro hash claim named
    exact ⟨live_claim_of_sameStanding same sameTxs extended extended' named,
      live_claim_of_sameStanding same.symm sameTxs' extended' extended named⟩
  · intro outpoint support named
    exact ⟨live_support_of_sameStanding same sameTxs extended extended' named,
      live_support_of_sameStanding same.symm sameTxs' extended' extended named⟩
  · rw [reached.takeover?_eq extended.sound.indexed,
      reached'.takeover?_eq extended'.sound.indexed, same.takeover?_eq]

end Rows

/-- What a block reports of a name is what the standing of the name decides, also
if the block does not touch the name. -/
theorem takeoversOf_eq (extended : left.ExtendedBy earlier created txs) {after : Ledger}
    {summary : BlockSummary} (done : left.applyBlock height txs = (after, .ok summary))
    (name : Bytes) :
    summary.takeoversOf name =
      (((((BlockWork.start left height).run height txs).ledger.standing name).decided
        height).2.map fun controller => (name, controller)).toList := by
  obtain ⟨notTop, next, -, settled, settling, -⟩ := applyBlock_ok done
  have reached := extended.reached height
  rw [BlockSummary.takeoversOf, filter_changes_of_settleAll reached.indexed
    (nodup_of_ordered Std.ExtTreeSet.ordered_toList) settling]
  split
  · rfl
  · next untouched =>
    rw [Std.ExtTreeSet.mem_toList] at untouched
    rw [(extended.sound.quiet notTop next reached untouched).settled.decided_eq]
    rfl

/-- A block changes a name in the same way in both ledgers. -/
theorem SameStanding.applyBlock (same : SameStanding name left right)
    (sameTxs : List.Forall₂ (BlockTx.SameUnder name) txs others)
    (extended : left.ExtendedBy earlier created txs)
    (extended' : right.ExtendedBy earlier' created' others) {after after' : Ledger}
    {summary summary' : BlockSummary}
    (done : left.applyBlock height txs = (after, .ok summary))
    (done' : right.applyBlock height others = (after', .ok summary')) :
    SameStanding name after after' ∧ summary.takeoversOf name = summary'.takeoversOf name := by
  have standing : ((BlockWork.start left height).run height txs).ledger.standing name =
      ((BlockWork.start right height).run height others).ledger.standing name :=
    standing_run_eq same sameTxs extended extended'
  have taken := taken_of_applyBlock extended.sound.indexed extended.grounded extended.outputs done
  have taken' :=
    taken_of_applyBlock extended'.sound.indexed extended'.grounded extended'.outputs done'
  refine ⟨⟨?_, ?_, ?_⟩, ?_⟩
  · rw [taken.rules_eq, taken'.rules_eq, same.rules]
  · obtain ⟨-, -, -, _, -, isAfter⟩ := applyBlock_ok done
    obtain ⟨-, -, -, _, -, isAfter'⟩ := applyBlock_ok done'
    rw [isAfter, isAfter']
  · rw [taken.standing_eq extended.sound, taken'.standing_eq extended'.sound, standing]
  · rw [takeoversOf_eq extended done, takeoversOf_eq extended' done', standing]

end Step

/-! ## All blocks -/

variable {rules : Rules} {name : Bytes} {left right : List (List BlockTx)}
variable {ledger ledger' : Ledger} {summaries summaries' : List BlockSummary}

/-- Chains that do the same under a name lead to the same standing of the name. -/
theorem sameStanding_of_replay
    (same : List.Forall₂ (List.Forall₂ (BlockTx.SameUnder name)) left right)
    (fresh : Fresh left) (fresh' : Fresh right)
    (run : Engine.replay applyBlock rules left = .ok (ledger, summaries))
    (run' : Engine.replay applyBlock rules right = .ok (ledger', summaries')) :
    SameStanding name ledger ledger' ∧
      List.Forall₂ (fun summary summary' : BlockSummary =>
        summary.takeoversOf name = summary'.takeoversOf name) summaries summaries' := by
  induction left using List.reverseRecOn
    generalizing right ledger ledger' summaries summaries' with
  | nil =>
    cases same
    cases run
    cases run'
    exact ⟨⟨rfl, rfl, rfl⟩, .nil⟩
  | append_singleton blocks txs ih =>
    rcases List.eq_nil_or_concat' right with rfl | ⟨blocks', others, rfl⟩
    · have lengths := same.length_eq
      rw [List.length_append] at lengths
      cases lengths
    · obtain ⟨sameTxs, sameBlocks⟩ : List.Forall₂ (BlockTx.SameUnder name) txs others ∧
          List.Forall₂ (List.Forall₂ (BlockTx.SameUnder name)) blocks.reverse
            blocks'.reverse := by
        rw [← List.forall₂_cons, ← List.reverse_concat, ← List.reverse_concat]
        exact List.forall₂_reverse_iff.mpr same
      obtain ⟨before, earlier, summary, soFar, done, rfl⟩ := Engine.replay_concat_eq_ok.mp run
      obtain ⟨before', earlier', summary', soFar', done', rfl⟩ :=
        Engine.replay_concat_eq_ok.mp run'
      obtain ⟨sameBefore, reported⟩ :=
        ih (List.forall₂_reverse_iff.mp sameBlocks) fresh.init fresh'.init soFar soFar'
      rw [← sameBefore.height] at done'
      obtain ⟨sameAfter, reports⟩ := sameBefore.applyBlock sameTxs
        (extendedBy_of_replay fresh soFar) (extendedBy_of_replay fresh' soFar') done done'
      exact ⟨sameAfter, List.rel_append reported (.cons reports .nil)⟩

/-- Names do not interfere. Where two chains spend the same outputs and do the
same under a name, whatever they do under others, the name has the same claims,
the same supports and the same controller after every block, and every block
reports the same change of control. -/
theorem undisturbed_of_replay (name : Bytes)
    (same : List.Forall₂ (List.Forall₂ (BlockTx.SameUnder name)) left right)
    (fresh : Fresh left) (fresh' : Fresh right) (count : Nat)
    (run : Engine.replay applyBlock rules (left.take count) = .ok (ledger, summaries))
    (run' : Engine.replay applyBlock rules (right.take count) = .ok (ledger', summaries')) :
    ledger.claimsOf (ledger.entry name) = ledger'.claimsOf (ledger'.entry name) ∧
      ledger.supportsOf (ledger.entry name) = ledger'.supportsOf (ledger'.entry name) ∧
      ledger.takeover? name = ledger'.takeover? name ∧
      List.Forall₂ (fun summary summary' : BlockSummary =>
        summary.takeoversOf name = summary'.takeoversOf name) summaries summaries' := by
  obtain ⟨alike, reported⟩ := sameStanding_of_replay (List.forall₂_take count same)
    (fresh.take count) (fresh'.take count) run run'
  exact ⟨congrArg Standing.claims alike.standing, congrArg Standing.supports alike.standing,
    alike.takeover?_eq, reported⟩

/-- A claim that moves once and is given up. -/
def alone : List (List BlockTx) :=
  let output (index : UInt32) : OutPoint := ⟨Digest.zero 32, index⟩
  [[⟨Digest.zero 32, 0, [.create (output 0) [0x61] (Digest.zero 20) 5 []]⟩],
    [⟨Digest.zero 32, 0, [.spend (output 0), .update (output 1) [0x61] (Digest.zero 20) 6 []]⟩],
    [⟨Digest.zero 32, 0, [.spend (output 1)]⟩]]

/-- The same under that name, among updates and a support under another name that
cite the claim. -/
def crossed : List (List BlockTx) :=
  let output (index : UInt32) : OutPoint := ⟨Digest.zero 32, index⟩
  let other : ClaimHash := ⟨List.replicate 20 4, List.length_replicate⟩
  [[⟨Digest.zero 32, 0, [.create (output 2) [0x62] other 9 [],
      .create (output 0) [0x61] (Digest.zero 20) 5 []]⟩],
    [⟨Digest.zero 32, 0, [.spend (output 0), .update (output 3) [0x62] (Digest.zero 20) 7 [],
      .update (output 1) [0x61] (Digest.zero 20) 6 [],
      .support (output 4) [0x62] (Digest.zero 20) 8]⟩],
    [⟨Digest.zero 32, 0, [.spend (output 1), .update (output 5) [0x62] (Digest.zero 20) 3 []]⟩]]

theorem undisturbed_crossed :
    ∃ ledger summaries ledger' summaries',
      Engine.replay applyBlock Rules.regtest alone = .ok (ledger, summaries) ∧
      Engine.replay applyBlock Rules.regtest crossed = .ok (ledger', summaries') ∧
      summaries.map (BlockSummary.takeoversOf · [0x61]) =
        [[([0x61], some (Digest.zero 20))], [], [([0x61], none)]] ∧
      List.Forall₂ (fun summary summary' : BlockSummary =>
        summary.takeoversOf [0x61] = summary'.takeoversOf [0x61]) summaries summaries' := by
  have reports : (Engine.replay applyBlock Rules.regtest alone).toOption.map (fun state =>
      state.2.map (BlockSummary.takeoversOf · [0x61])) =
        some [[([0x61], some (Digest.zero 20))], [], [([0x61], none)]] := by
    decide +kernel
  have accepted : (Engine.replay applyBlock Rules.regtest crossed).isOk = true := by
    decide +kernel
  have same : List.Forall₂ (List.Forall₂ (BlockTx.SameUnder [0x61])) alone crossed :=
    .cons (.cons ⟨rfl, rfl, rfl⟩ .nil) (.cons (.cons ⟨rfl, rfl, rfl⟩ .nil)
      (.cons (.cons ⟨rfl, rfl, rfl⟩ .nil) .nil))
  cases run : Engine.replay applyBlock Rules.regtest alone with
  | error failure =>
    rw [run] at reports
    cases reports
  | ok state =>
    cases run' : Engine.replay applyBlock Rules.regtest crossed with
    | error failure =>
      rw [run'] at accepted
      cases accepted
    | ok state' =>
      rw [run] at reports
      obtain ⟨-, -, -, reported⟩ := undisturbed_of_replay [0x61] same
        ⟨by decide +kernel, by decide +kernel⟩ ⟨by decide +kernel, by decide +kernel⟩ 3 run run'
      exact ⟨state.1, state.2, state'.1, state'.2, rfl, rfl, Option.some.inj reports, reported⟩

end Ledger

end ClaimLedger
