/-
# Which blocks are taken in

A ledger takes in the next block and no other. Its events may be anything:
outputs may repeat, one output may be spent often, an update may carry on a claim
that is not there, and a support may name a claim under another name. Only the
amounts have to be such as money is: what is staked on one claim, by the rows
that are there and by the events of the block, has to fit into a word. A block
that is not the next one leaves no trace.
-/

import Mathlib.Algebra.Order.BigOperators.Group.List
import Mathlib.Algebra.Order.Group.Nat
import ClaimLedger.Proofs.Ledger.Defined
import ClaimLedger.Proofs.Ledger.Rebuild
import ClaimLedger.Proofs.Ledger.Verified

namespace ClaimLedger

/-! ## What is staked on a claim -/

/-- An amount that is put on a claim, in the output of a support or, with no such
output, in that of the claim itself. -/
structure Stake where
  claim : ClaimHash
  support : Option OutPoint
  amount : Amount
  deriving DecidableEq

/-- All that is put on a claim. -/
def stakedOn (stakes : List Stake) (claim : ClaimHash) : Nat :=
  Amount.exactTotal ((stakes.filter fun stake => stake.claim == claim).map Stake.amount)

/-- What an event puts on a claim. -/
def TxEvent.stake? : TxEvent → Option Stake
  | spend _ => none
  | create _ _ claim amount _ => some ⟨claim, none, amount⟩
  | update _ _ claim amount _ => some ⟨claim, none, amount⟩
  | support outpoint _ claim amount => some ⟨claim, some outpoint, amount⟩

/-- What the events of a block put on claims. -/
def BlockTx.stakes (txs : List BlockTx) : List Stake :=
  (BlockTx.allEvents txs).filterMap fun event => event.2.stake?

/-- What the rows of a ledger put on claims. -/
def Ledger.stakes (ledger : Ledger) : List Stake :=
  (ledger.claims.toList.map fun (hash, claim) => ⟨hash, none, claim.amount⟩) ++
    ledger.supports.toList.map fun (outpoint, support) =>
      ⟨support.claim, some outpoint, support.amount⟩

section Stakes

variable {stakes pool : List Stake} {claim : ClaimHash}

theorem Amount.exactTotal_le_of_sublist {amounts all : List Amount}
    (sublist : amounts.Sublist all) :
    Amount.exactTotal amounts ≤ Amount.exactTotal all := by
  rw [Amount.exactTotal_eq_sum, Amount.exactTotal_eq_sum]
  exact (sublist.map _).sum_le_sum fun _ _ => Nat.zero_le _

/-- What is put on one claim is no more than all that is staked. -/
theorem stakedOn_le (stakes : List Stake) (claim : ClaimHash) :
    stakedOn stakes claim ≤ Amount.exactTotal (stakes.map Stake.amount) :=
  Amount.exactTotal_le_of_sublist (List.filter_sublist.map _)

/-- Different stakes on a claim, all of them from a pool, add up to no more than
the pool has on the claim. -/
theorem exactTotal_le_stakedOn (distinct : stakes.Nodup) (subset : stakes ⊆ pool)
    (same : ∀ stake ∈ stakes, stake.claim = claim) :
    Amount.exactTotal (stakes.map Stake.amount) ≤ stakedOn pool claim := by
  have within : stakes ⊆ pool.filter fun stake => stake.claim == claim := by
    intro stake listed
    exact List.mem_filter.mpr ⟨subset listed, beq_iff_eq.mpr (same stake listed)⟩
  obtain ⟨arranged, perm, sublist⟩ := List.subperm_of_subset distinct within
  have reordered : Amount.exactTotal (stakes.map Stake.amount) =
      Amount.exactTotal (arranged.map Stake.amount) := by
    rw [Amount.exactTotal_eq_sum, Amount.exactTotal_eq_sum]
    exact ((perm.symm.map _).map _).sum_nat
  rw [reordered]
  exact Amount.exactTotal_le_of_sublist (sublist.map _)

end Stakes

namespace Ledger

variable {ledger after : Ledger} {height : Height} {txs : List BlockTx}

/-- The amounts of every row are in a pool of stakes. -/
abbrev Staked (pool : List Stake) : Ledger → Prop :=
  EachRow (fun hash claim => claim.hash = hash ∧ ⟨hash, none, claim.amount⟩ ∈ pool)
    fun outpoint support =>
      support.outpoint = outpoint ∧ ⟨support.claim, some outpoint, support.amount⟩ ∈ pool

/-- The rows of a ledger are where its stakes come from. -/
theorem staked_stakes (keyed : ledger.Keyed) : ledger.Staked ledger.stakes where
  claims := by
    intro hash claim live
    refine ⟨keyed.claims live, List.mem_append_left _ (List.mem_map.mpr ⟨(hash, claim), ?_, rfl⟩)⟩
    exact Std.ExtTreeMap.mem_toList_iff_getElem?_eq_some.mpr live
  supports := by
    intro outpoint support live
    refine ⟨keyed.supports live,
      List.mem_append_right _ (List.mem_map.mpr ⟨(outpoint, support), ?_, rfl⟩)⟩
    exact Std.ExtTreeMap.mem_toList_iff_getElem?_eq_some.mpr live

/-- A block gives rows no amount that its events do not have. -/
theorem upheld_staked (faultless : Prop) (height : Height) (txs : List BlockTx)
    {pool : List Stake} (subset : BlockTx.stakes txs ⊆ pool) : Upheld faultless height txs
      (fun hash claim => claim.hash = hash ∧ ⟨hash, none, claim.amount⟩ ∈ pool)
      fun outpoint support =>
        support.outpoint = outpoint ∧ ⟨support.claim, some outpoint, support.amount⟩ ∈ pool where
  claim_hash := And.left
  support_outpoint := And.left
  newClaim := by
    intro _ tx outpoint name hash amount owner listed _
    exact ⟨rfl, subset (List.mem_filterMap.mpr ⟨_, listed, rfl⟩)⟩
  moved := by
    intro _ tx outpoint name hash amount owner claim listed before
    exact ⟨before.1, subset (List.mem_filterMap.mpr ⟨_, listed, rfl⟩)⟩
  newSupport := by
    intro _ tx outpoint name hash amount listed
    exact ⟨rfl, subset (List.mem_filterMap.mpr ⟨_, listed, rfl⟩)⟩
  admittedClaim := id
  admittedSupport := id
  refreshed := fun _ => id

/-- The stakes of the supports that count for a claim under a name. -/
def backers (ledger : Ledger) (name : Bytes) (height : Height) (claim : ClaimHash) : List Stake :=
  ((ledger.standing name).supports.filter fun support =>
    support.claim == claim && support.term.isActiveAt height).map fun support =>
      ⟨support.claim, some support.outpoint, support.amount⟩

section Backers

variable {pool : List Stake} {name : Bytes} {hash : ClaimHash} {stake : Stake} {claim : Claim}

theorem amounts_backers (ledger : Ledger) (name : Bytes) (height : Height) (hash : ClaimHash) :
    (ledger.backers name height hash).map Stake.amount =
      (ledger.standing name).backing height hash := by
  rw [backers, List.map_map]
  rfl

theorem claim_of_mem_backers (listed : stake ∈ ledger.backers name height hash) :
    stake.claim = hash := by
  obtain ⟨support, counting, rfl⟩ := List.mem_map.mp listed
  exact eq_of_beq (Bool.and_eq_true_iff.mp (List.mem_filter.mp counting).2).1

theorem support_of_mem_backers (listed : stake ∈ ledger.backers name height hash) :
    stake.support ≠ none := by
  obtain ⟨support, _, rfl⟩ := List.mem_map.mp listed
  exact Option.some_ne_none _

theorem nodup_backers (staked : ledger.Staked pool) (name : Bytes) (height : Height)
    (hash : ClaimHash) : (ledger.backers name height hash).Nodup := by
  have apart := pairwise_standing_supports (fun live => (staked.supports live).1) name
  refine List.pairwise_map.mpr ((apart.filter _).imp ?_)
  intro support other apart same
  exact apart (Option.some.inj (congrArg Stake.support same))

theorem backers_subset (staked : ledger.Staked pool) (name : Bytes) (height : Height)
    (hash : ClaimHash) : ledger.backers name height hash ⊆ pool := by
  intro stake listed
  obtain ⟨support, counting, rfl⟩ := List.mem_map.mp listed
  obtain ⟨outpoint, _, live⟩ := List.mem_filterMap.mp (List.mem_filter.mp counting).1
  obtain ⟨rfl, known⟩ := staked.supports live
  exact known

/-- What counting supports add to a claim comes out of the pool. -/
theorem exactTotal_backing_le (staked : ledger.Staked pool) (name : Bytes) (height : Height)
    (hash : ClaimHash) :
    Amount.exactTotal ((ledger.standing name).backing height hash) ≤ stakedOn pool hash := by
  rw [← amounts_backers]
  exact exactTotal_le_stakedOn (nodup_backers staked name height hash)
    (backers_subset staked name height hash) fun _ => claim_of_mem_backers

/-- All that a claim competes with comes out of the pool. -/
theorem exactTotal_worth_le (staked : ledger.Staked pool) (height : Height)
    (member : claim ∈ (ledger.standing name).claims) :
    claim.amount.toNat + Amount.exactTotal ((ledger.standing name).backing height claim.hash) ≤
      stakedOn pool claim.hash := by
  obtain ⟨hash, _, live⟩ := List.mem_filterMap.mp member
  obtain ⟨rfl, known⟩ := staked.claims live
  have own : (⟨claim.hash, none, claim.amount⟩ : Stake) ∉ ledger.backers name height claim.hash :=
    fun listed => support_of_mem_backers listed rfl
  have total : Amount.exactTotal ((⟨claim.hash, none, claim.amount⟩ ::
      ledger.backers name height claim.hash).map Stake.amount) ≤ stakedOn pool claim.hash := by
    refine exactTotal_le_stakedOn
      (List.nodup_cons.mpr ⟨own, nodup_backers staked name height claim.hash⟩)
      (List.cons_subset.mpr ⟨known, backers_subset staked name height claim.hash⟩) ?_
    intro stake listed
    rcases List.mem_cons.mp listed with rfl | listed
    · rfl
    · exact claim_of_mem_backers listed
  rw [List.map_cons, amounts_backers] at total
  exact total

end Backers

/-- Where what is staked on each claim fits, all sums under all names fit. -/
theorem amountsFit_of_staked {pool : List Stake}
    (fits : ∀ claim, stakedOn pool claim < Amount.bound) (staked : ledger.Staked pool)
    (name : Bytes) (height : Height) : ledger.amountsFit name height = true := by
  rw [amountsFit_eq, Standing.fits]
  simp only [Bool.and_eq_true, List.all_eq_true, List.filter_filter, decide_eq_true_eq]
  constructor
  · intro hash _
    exact Nat.lt_of_le_of_lt (exactTotal_backing_le staked name height hash) (fits hash)
  · intro claim listed
    exact Nat.lt_of_le_of_lt (exactTotal_worth_le staked height (List.mem_filter.mp listed).1)
      (fits claim.hash)

/-! ## Every way to come by a ledger -/

section Rebuilt

variable {P : ClaimHash → Claim → Prop} {Q : OutPoint → Support → Prop} {snapshot : Snapshot}

/-- What holds of the rows that a ledger is rebuilt from holds of its rows. -/
theorem EachRow.ofSnapshot (rules : Rules)
    (claims : ∀ claim ∈ snapshot.claims, P claim.hash claim)
    (supports : ∀ support ∈ snapshot.supports, Q support.outpoint support) :
    EachRow P Q (Ledger.ofSnapshot rules snapshot) := by
  have loaded : EachRow P Q (loaded rules snapshot) := by
    rw [Ledger.loaded]
    refine List.foldlRecOn _ _ ?_ fun _ rows row _ => rows.congr rfl rfl
    refine List.foldlRecOn _ _ ?_ fun _ rows support listed =>
      (rows.putSupport rfl (supports support listed)).congr rfl rfl
    refine List.foldlRecOn _ _ ?_ fun _ rows claim listed =>
      (rows.putClaim rfl (claims claim listed)).congr rfl rfl
    exact ⟨by simp, by simp⟩
  have alike := alike_ofSnapshot False rules snapshot
  exact loaded.congr alike.claims alike.supports

/-- What holds of every row still holds after the rows were stored and put back,
in whatever order. -/
theorem EachRow.restarted (rows : EachRow P Q ledger) (keyed : ledger.Keyed) (rules : Rules)
    (same : ledger.snapshot.Same snapshot) :
    EachRow P Q (Ledger.ofSnapshot rules snapshot) := by
  refine .ofSnapshot rules (fun claim listed => ?_) fun support listed => ?_
  · obtain ⟨hash, live⟩ := mem_values.mp (same.claims.mem_iff.mp listed)
    have here : claim.hash = hash := keyed.claims live
    exact here.symm ▸ rows.claims live
  · obtain ⟨outpoint, live⟩ := mem_values.mp (same.supports.mem_iff.mp listed)
    have here : support.outpoint = outpoint := keyed.supports live
    exact here.symm ▸ rows.supports live

end Rebuilt

/-- A ledger that came from nothing by blocks, whatever their events, with the
changed rows handed out and the whole ledger rebuilt from its rows any number of
times in between. -/
inductive Built : Ledger → Prop
  | empty (rules : Rules) : Built (empty rules)
  | block {ledger after : Ledger} {height : Height} {txs : List BlockTx}
      {summary : BlockSummary} (built : Built ledger)
      (done : ledger.applyBlock height txs = (after, .ok summary)) : Built after
  | drained {ledger : Ledger} (built : Built ledger) : Built ledger.takeChanges.2
  | restarted {ledger : Ledger} {snapshot : Snapshot} (built : Built ledger)
      (same : ledger.snapshot.Same snapshot) : Built (ofSnapshot ledger.rules snapshot)

theorem Built.timely (built : Built ledger) : ledger.Timely := by
  induction built with
  | empty rules => exact EachRow.empty rules
  | block built done timely => exact timely.applyBlock done
  | drained built timely => exact timely.congr rfl rfl
  | @restarted ledger snapshot built same timely =>
    have blocks : (ofSnapshot ledger.rules snapshot).blocks = ledger.blocks := by
      have rebuilt := alike_ofSnapshot False ledger.rules snapshot
      unfold Ledger.blocks
      rw [rebuilt.height, height_loaded, same.height]
      rfl
    rw [Timely, blocks]
    exact timely.restarted (Ordered.keyed timely) ledger.rules same

theorem built_of_replay {rules : Rules} {blocks : List (List BlockTx)}
    {summaries : List BlockSummary}
    (run : Engine.replay applyBlock rules blocks = .ok (ledger, summaries)) : Built ledger := by
  induction blocks using List.reverseRecOn generalizing ledger summaries with
  | nil =>
    cases run
    exact .empty rules
  | append_singleton blocks txs ih =>
    obtain ⟨before, earlier, summary, run, done, -⟩ := Engine.replay_concat_eq_ok.mp run
    exact (ih run).block done

/-- A block that is not the next one leaves the ledger as it was. -/
theorem applyBlock_of_gap (notTop : ledger.height ≠ some Height.top)
    (gap : height.toNat ≠ ledger.blocks) :
    ledger.applyBlock height txs =
      (ledger, .error (.consistencyViolation height []
        (.outOfOrder (Height.next ledger.height)))) := by
  have different : height ≠ Height.next ledger.height := by
    intro same
    exact gap (same ▸ toNat_next_blocks notTop)
  rw [applyBlock]
  simp only
  rw [if_neg notTop, if_pos different]

/-- A ledger takes in the block that is next, and no other; any other leaves the
ledger as it was. This holds for all events whatever, as long as what is staked
on each claim, before the block and in it, fits into a word. -/
theorem isOk_applyBlock_iff (built : Built ledger) (defined : ledger.rules.delayFactor ≠ 0)
    (low : ledger.blocks < 0x80000000)
    (fits : ∀ claim, stakedOn (ledger.stakes ++ BlockTx.stakes txs) claim < Amount.bound)
    (height : Height) :
    ((ledger.applyBlock height txs).2.isOk = true ↔ height.toNat = ledger.blocks) ∧
      (height.toNat ≠ ledger.blocks →
        ledger.applyBlock height txs =
          (ledger, .error (.consistencyViolation height []
            (.outOfOrder (Height.next ledger.height))))) := by
  have notTop : ledger.height ≠ some Height.top := by
    intro top
    rw [Ledger.blocks, top] at low
    exact absurd low (by decide)
  have timely := built.timely
  have staked : ledger.Staked (ledger.stakes ++ BlockTx.stakes txs) :=
    (staked_stakes (Ordered.keyed timely)).mono
      (fun ⟨here, known⟩ => ⟨here, List.mem_append_left _ known⟩)
      fun ⟨here, known⟩ => ⟨here, List.mem_append_left _ known⟩
  refine ⟨⟨fun isOk => ?_, fun inOrder => ?_⟩, applyBlock_of_gap notTop⟩
  · by_contra gap
    rw [applyBlock_of_gap notTop gap] at isOk
    cases isOk
  · cases result : ledger.applyBlock height txs with
    | mk after answer =>
      cases answer with
      | ok summary => rfl
      | error failure =>
        -- each way to refuse the block is excluded by one of the assumptions
        cases refused_of_applyBlock timely
          (upheld_staked True height txs (List.subset_append_right _ _)) staked result with
        | atTop top => exact absurd top notTop
        | outOfOrder _ gap =>
          refine absurd (UInt32.toNat_inj.mp ?_) gap
          rw [inOrder, toNat_next_blocks notTop]
        | missing _ fault found =>
          rw [BlockWork.fault_run defined (inOrder ▸ low) txs] at found
          cases found
        | overflow _ now name rows overflow =>
          rw [amountsFit_of_staked fits rows] at overflow
          cases overflow

/-- Two claims in one output, and a support of one of them under the name of the
other. -/
def crowded : List BlockTx :=
  let output (index : UInt32) : OutPoint := ⟨Digest.zero 32, index⟩
  let other : ClaimHash := ⟨List.replicate 20 5, List.length_replicate⟩
  [⟨Digest.zero 32, 0,
    [.create (output 0) [0x61] (Digest.zero 20) 5 [], .create (output 0) [0x62] other 8 [],
      .support (output 1) [0x62] (Digest.zero 20) 4]⟩]

/-- A double spend of the output of the two claims, an update of a claim that is
nowhere, and another support in the output of the first one. -/
def mischief : List BlockTx :=
  let output (index : UInt32) : OutPoint := ⟨Digest.zero 32, index⟩
  let nowhere : ClaimHash := ⟨List.replicate 20 6, List.length_replicate⟩
  [⟨Digest.zero 32, 0, [.spend (output 0), .spend (output 0),
    .update (output 2) [0x61] nowhere 9 []]⟩,
    ⟨Digest.zero 32, 1, [.support (output 1) [0x61] nowhere 3]⟩]

theorem isOk_applyBlock_mischief :
    ∃ ledger summaries, Engine.replay applyBlock Rules.regtest [crowded] = .ok (ledger, summaries) ∧
      (ledger.applyBlock 1 mischief).2.isOk = true ∧
      ledger.applyBlock 5 mischief = (ledger,
        .error (.consistencyViolation 5 [] (.outOfOrder (Height.next ledger.height)))) := by
  have facts : (Engine.replay applyBlock Rules.regtest [crowded]).toOption.map (fun state =>
      (state.1.blocks, state.1.rules.delayFactor,
        Amount.exactTotal ((state.1.stakes ++ BlockTx.stakes mischief).map Stake.amount))) =
      some (1, 32, 29) := by decide +kernel
  cases run : Engine.replay applyBlock Rules.regtest [crowded] with
  | error failure =>
    rw [run] at facts
    cases facts
  | ok state =>
    rw [run] at facts
    obtain ⟨blocks, others⟩ := Prod.mk.inj (Option.some.inj facts)
    obtain ⟨factor, total⟩ := Prod.mk.inj others
    have fits (claim : ClaimHash) :
        stakedOn (state.1.stakes ++ BlockTx.stakes mischief) claim < Amount.bound := by
      refine Nat.lt_of_le_of_lt (stakedOn_le _ claim) ?_
      rw [total]
      decide
    have answer (height : Height) := isOk_applyBlock_iff (built_of_replay run)
      (by rw [factor]; decide) (by rw [blocks]; decide) fits height
    rw [blocks] at answer
    exact ⟨state.1, state.2, rfl, (answer 1).1.mpr rfl, (answer 5).2 (by decide)⟩

end Ledger

end ClaimLedger
