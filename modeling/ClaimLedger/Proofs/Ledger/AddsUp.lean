/-
# The sums of a block

Any amount can stand in an output, so what supports add to a claim can leave the word that holds it.
A block in which that happens is not taken in. In every block that is taken in, every sum that was
taken is the exact one, and supports do what they are for: they add to what their claim competes
with, and never take control from it. Amounts are compared here over the same rows. A support can
also settle at once what would have been a contest, and what a contest would have let in then goes
on waiting.
-/

import ClaimLedger.Proofs.Block.RoundTrip
import ClaimLedger.Proofs.Ledger.Backed
import ClaimLedger.Proofs.Ledger.Cells
import ClaimLedger.Proofs.Ledger.Control
import ClaimLedger.Sync.Stage

namespace ClaimLedger

/-! ## A block with one more support -/

section Concat

variable {height : Height} {txs : List BlockTx} {tx : BlockTx} {outpoint : OutPoint} {name : Bytes}
variable {claim : ClaimHash} {amount : Amount}

/-- A transaction that does nothing but add a support comes to one more step of the last phase. -/
theorem BlockWork.run_concat (work : BlockWork) (height : Height)
    (only : tx.events = [.support outpoint name claim amount]) :
    work.run height (txs ++ [tx]) =
      (work.run height txs).support height (Std.ExtTreeSet.ofList (BlockTx.allSpends txs))
        (tx, .support outpoint name claim amount) := by
  have spends : BlockTx.allSpends (txs ++ [tx]) = BlockTx.allSpends txs := by
    simp [BlockTx.allSpends, BlockTx.spends, only, TxEvent.spent?]
  have events : BlockTx.allEvents (txs ++ [tx]) =
      BlockTx.allEvents txs ++ [(tx, .support outpoint name claim amount)] := by
    simp [BlockTx.allEvents, only]
  have spend : BlockWork.spend (txs ++ [tx]) = BlockWork.spend txs := by
    funext work spent
    have carries (hash : ClaimHash) :
        BlockTx.carriesOn (txs ++ [tx]) hash spent = BlockTx.carriesOn txs hash spent := by
      simp [BlockTx.carriesOn, BlockTx.updates, only]
    simp only [BlockWork.spend, carries]
  simp only [run, spends, events, spend, List.foldl_append, List.foldl_cons, List.foldl_nil]
  rfl

/-- The support is the one row by which the two blocks differ before names are settled. -/
theorem BlockWork.ledger_run_concat (work : BlockWork) (height : Height)
    (only : tx.events = [.support outpoint name claim amount])
    (unspent : outpoint ∉ BlockTx.allSpends txs) :
    (work.run height (txs ++ [tx])).ledger =
      (work.run height txs).ledger.addSupport
        ((work.run height txs).ledger.newSupport height outpoint name claim amount) := by
  have notSpent : ¬ (Std.ExtTreeSet.ofList (BlockTx.allSpends txs)).contains outpoint = true := by
    simpa using unspent
  rw [run_concat work height only, BlockWork.support]
  simp only [if_neg notSpent]
  rfl

namespace Ledger

variable {ledger after backed : Ledger} {rules : Rules} {blocks : List (List BlockTx)}
variable {summaries : List BlockSummary} {summary summary' : BlockSummary}

/-- Whoever a block leaves in control, the block with one more support for that claim leaves in
control as well. -/
theorem controls_concat (fresh : Fresh (blocks ++ [txs ++ [tx]]))
    (only : tx.events = [.support outpoint name claim amount])
    (unspent : outpoint ∉ BlockTx.allSpends txs)
    (run : Engine.replay applyBlock rules blocks = .ok (ledger, summaries))
    (active : (ledger.newSupport height outpoint name claim amount).term.isActiveAt height = true)
    (done : ledger.applyBlock height txs = (after, .ok summary))
    (done' : ledger.applyBlock height (txs ++ [tx]) = (backed, .ok summary'))
    (controls : (after.takeover? name).map Takeover.claim = some claim) :
    (backed.takeover? name).map Takeover.claim = some claim := by
  obtain ⟨sound, grounded⟩ := sound_and_grounded_of_replay fresh.init run
  have outputs : BlockTx.allOutputs (txs ++ [tx]) = BlockTx.allOutputs txs ++ [outpoint] := by
    simp [BlockTx.allOutputs, BlockTx.allEvents, only, TxEvent.output?]
  have distinct := fresh.outputs_concat
  rw [outputs, ← List.append_assoc] at distinct
  obtain ⟨distinct', -, apart⟩ := List.nodup_append.mp distinct
  have taken := taken_of_applyBlock sound.indexed grounded distinct' done
  have taken' := taken_of_applyBlock sound.indexed grounded fresh.outputs_concat done'
  rw [← taken.reached.newSupport_eq sound.indexed] at active
  have phases := BlockWork.ledger_run_concat (BlockWork.start ledger height) height only unspent
  -- from here on only the two ledgers matter that the phases leave
  have keyed : ((BlockWork.start ledger height).run height txs).ledger.Keyed :=
    ⟨taken.reached.indexed.claim_hash, taken.reached.indexed.support_outpoint⟩
  have unknown := taken.reached.grounded.new fun listed =>
    apart outpoint listed outpoint (List.mem_singleton_self outpoint) rfl
  have before := taken.standing_eq sound name
  have after' := taken'.standing_eq sound name
  have fits := (taken'.settled sound name).fits
  generalize ((BlockWork.start ledger height).run height txs).ledger = phased at *
  have joined : Standing.Joined (phased.newSupport height outpoint name claim amount)
      (phased.standing name) ((phased.addSupport
        (phased.newSupport height outpoint name claim amount)).standing name) :=
    joined_addSupport keyed unknown
  rw [after', Standing.settled, Standing.fits_refreshed, phases] at fits
  rw [takeover?_eq_standing, before] at controls
  rw [takeover?_eq_standing, after', phases]
  exact joined.controller?_decided active (pairwise_standing_claims keyed name) fits controls

/-! ## All sums of a block -/

/-- The block is the next one, and the rules have every number that its phases need. -/
structure Due (ledger : Ledger) (height : Height) (txs : List BlockTx) : Prop where
  notTop : ledger.height ≠ some Height.top
  next : height = Height.next ledger.height
  numbers : ((BlockWork.start ledger height).run height txs).fault = none

/-- What holds of the sums of a block. -/
structure AddsUp (ledger : Ledger) (height : Height) (txs : List BlockTx) : Prop where
  /-- A block is taken in exactly if it is due and no sum wraps in any turn. -/
  taken : (ledger.applyBlock height txs).2.isOk = true ↔
    ledger.Due height txs ∧
      ∀ turn ∈ ledger.blockTurns height txs, turn.2.SettlesExactly turn.1 height
  /-- A block that is due and has a sum that would wrap is stopped for it. -/
  stopped : ledger.Due height txs →
    (∃ turn ∈ ledger.blockTurns height txs, ¬ turn.2.SettlesExactly turn.1 height) →
      (ledger.applyBlock height txs).2 = .error (.number .amountOverflow)
  /-- In every turn a support that counts does what it should, unless a sum would wrap. -/
  raised : ∀ turn ∈ ledger.blockTurns height txs, ∀ support : Support, support.name = turn.1 →
    turn.2.supports[support.outpoint]? = none → support.term.isActiveAt height = true →
      (turn.2.addSupport support).SettlesExactly turn.1 height →
        Raised support turn.2 turn.1 height
  /-- Whoever the block leaves in control, the block with one more support for that claim leaves in
  control as well, where no output comes twice. -/
  backed : ∀ {rules : Rules} {blocks : List (List BlockTx)} {summaries : List BlockSummary}
    {tx : BlockTx} {outpoint : OutPoint} {name : Bytes} {claim : ClaimHash} {amount : Amount}
    {after backed : Ledger} {summary summary' : BlockSummary},
    Engine.replay Ledger.applyBlock rules blocks = .ok (ledger, summaries) →
    Fresh (blocks ++ [txs ++ [tx]]) → tx.events = [.support outpoint name claim amount] →
    outpoint ∉ BlockTx.allSpends txs →
    (ledger.newSupport height outpoint name claim amount).term.isActiveAt height = true →
    ledger.applyBlock height txs = (after, .ok summary) →
    ledger.applyBlock height (txs ++ [tx]) = (backed, .ok summary') →
    (after.takeover? name).map Takeover.claim = some claim →
      (backed.takeover? name).map Takeover.claim = some claim

/-- The sums of a block add up, whatever its events are. -/
theorem addsUp_of_built (built : Built ledger) (height : Height) (txs : List BlockTx) :
    ledger.AddsUp height txs where
  taken := by
    constructor
    · intro isOk
      rcases result : ledger.applyBlock height txs with ⟨after, failure | summary⟩
      · rw [result] at isOk
        cases isOk
      · obtain ⟨notTop, next, fine, -⟩ := applyBlock_ok result
        exact ⟨⟨notTop, next, fine⟩,
          (isOk_applyBlock_of_numbers built.timely notTop next fine).1.mp isOk⟩
    · rintro ⟨due, exactly⟩
      exact (isOk_applyBlock_of_numbers built.timely due.notTop due.next due.numbers).1.mpr exactly
  stopped := by
    rintro due ⟨turn, listed, wraps⟩
    have numbers := isOk_applyBlock_of_numbers built.timely due.notTop due.next due.numbers
    refine numbers.2 (Bool.eq_false_iff.mpr fun isOk => ?_)
    exact wraps (numbers.1.mp isOk turn listed)
  raised := by
    intro turn listed support named unknown active exactly
    have phased : ((BlockWork.start ledger height).run height txs).ledger.Keyed :=
      (Ordered.keyed built.timely).run (upheld_keyed False height txs) False.elim
    exact raised_of_settlesExactly (keyed_of_mem_turns phased listed) named unknown active exactly
  backed := fun run fresh only unspent active done done' =>
    controls_concat fresh only unspent run active done done'

end Ledger

end Concat

namespace Ledger

/-- In the contest over a name, one more support for the claim that is in control. -/
theorem addsUp_contest :
    ∃ ledger summaries, Engine.replay applyBlock Rules.regtest contest = .ok (ledger, summaries) ∧
      (ledger.takeover? [0x61]).map Takeover.claim = some (Digest.zero 20) ∧
      let txs : List BlockTx := [⟨Digest.zero 32, 0,
        [.support ⟨Digest.zero 32, 3⟩ [0x61] (Digest.zero 20) 7]⟩]
      (ledger.blockTurns 3 txs).map Prod.fst = [[0x61]] ∧
        (ledger.applyBlock 3 txs).2.isOk = true ∧ ledger.AddsUp 3 txs := by
  have facts : (Engine.replay applyBlock Rules.regtest contest).toOption.map (fun state =>
      let txs : List BlockTx := [⟨Digest.zero 32, 0,
        [.support ⟨Digest.zero 32, 3⟩ [0x61] (Digest.zero 20) 7]⟩]
      ((state.1.takeover? [0x61]).map Takeover.claim, (state.1.blockTurns 3 txs).map Prod.fst,
        (state.1.applyBlock 3 txs).2.isOk)) = some (some (Digest.zero 20), [[0x61]], true) := by
    decide +kernel
  obtain ⟨⟨ledger, summaries⟩, run, shown⟩ := exists_of_map_toOption facts
  obtain ⟨inControl, shown⟩ := Prod.mk.inj shown
  obtain ⟨turns, isOk⟩ := Prod.mk.inj shown
  exact ⟨ledger, summaries, run, inControl, turns, isOk, addsUp_of_built (built_of_replay run) 3 _⟩

/-! ## A sum that wraps -/

/-- A transaction with two claims on one name, the first for the larger amount. -/
def bidding : Transaction :=
  let script : Bytes := [0xb5, 0x01, 0x61, 0x00, 0x6d, 0x75]
  ⟨1, [⟨OutPoint.null, [], 0xffffffff, []⟩], [⟨10, script⟩, ⟨5, script⟩], 0⟩

def biddingId : Txid :=
  ⟨[0xde, 0x47, 0x5a, 0xcb, 0x4e, 0xa7, 0x50, 0x40, 0x97, 0x8a, 0x4c, 0xc7, 0x8c, 0x6a, 0x04, 0xb0,
    0xb2, 0xb0, 0x0b, 0x74, 0x06, 0x80, 0xb1, 0x63, 0xc8, 0x9a, 0x9f, 0x73, 0xee, 0xa9, 0x27, 0x3b],
    rfl⟩

def higherBid : ClaimHash :=
  ⟨[0xe2, 0x6c, 0x11, 0x1d, 0x14, 0x64, 0x1f, 0x55, 0xe6, 0xb5, 0x34, 0x41, 0xd9, 0xb7, 0xc3, 0xb4,
    0x97, 0xf6, 0x59, 0x84], rfl⟩

def lowerBid : ClaimHash :=
  ⟨[0x77, 0x3e, 0xd9, 0x67, 0xaa, 0xe0, 0x15, 0xb1, 0xba, 0x3e, 0xc9, 0x86, 0xa0, 0xf3, 0x9a, 0x19,
    0xce, 0xb5, 0xd2, 0x96], rfl⟩

/-- A transaction that supports the larger of the two claims with almost all that a word can
hold. -/
def overbid : Transaction :=
  ⟨1, [⟨OutPoint.null, [], 0xffffffff, []⟩],
    [⟨0xfffffffffffffff8, [0xb6, 0x01, 0x61, 0x14] ++ higherBid.bytes ++ [0x6d, 0x75]⟩], 0⟩

def overbidId : Txid :=
  ⟨[0x37, 0x6f, 0x31, 0x34, 0x51, 0xeb, 0x5e, 0x8f, 0xaa, 0x4e, 0xe7, 0xb5, 0xa7, 0xfb, 0x9b, 0xa9,
    0x26, 0x4c, 0x87, 0x84, 0x05, 0xe3, 0x6d, 0x5d, 0x3a, 0xe4, 0xae, 0x59, 0x4d, 0x2e, 0xb2, 0xc1],
    rfl⟩

/-- The block of one transaction, in which nothing else is set. -/
def loneBlock (tx : Transaction) : Block :=
  .assemble ⟨1, Digest.zero 32, Digest.zero 32, Digest.zero 32, 0, 0, 0⟩ [tx]

/-- What the block of the bids does. -/
def bids : List BlockTx :=
  [⟨biddingId, 0, [.create ⟨biddingId, 0⟩ [0x61] higherBid 10 [],
    .create ⟨biddingId, 1⟩ [0x61] lowerBid 5 []]⟩]

/-- What the block of the support does. -/
def overbids : List BlockTx :=
  [⟨overbidId, 0, [.support ⟨overbidId, 0⟩ [0x61] higherBid 0xfffffffffffffff8]⟩]

theorem ofBlock_bidding : BlockTx.ofBlock (loneBlock bidding) = bids := by
  decide +kernel

theorem ofBlock_overbid : BlockTx.ofBlock (loneBlock overbid) = overbids := by
  decide +kernel

/-- A block of one of the two is accepted. -/
theorem parse_loneBlock {tx : Transaction} (one : tx = bidding ∨ tx = overbid) :
    Block.parse (loneBlock tx).encode = .ok (loneBlock tx) := by
  refine Block.parse_eq_ok_iff.mpr ⟨Block.isSound_assemble _ (List.cons_ne_nil _ _) (by simp)
    fun other listed => ?_, rfl⟩
  rw [List.mem_singleton.mp listed]
  rcases one with rfl | rfl
  · exact ⟨by simp [bidding, TxIn.Fits], by simp [bidding, TxOut.Fits],
      by simp [bidding, Witness.fits_nil]⟩
  · exact ⟨by simp [overbid, TxIn.Fits], by simp [overbid, TxOut.Fits, higherBid],
      by simp [overbid, Witness.fits_nil]⟩

/-- Both blocks are accepted and the first is taken in. The support in the second counts at once for
the claim that is in control; what this claim competes with then wraps to less than its own amount,
and the other claim is best. The block is not taken in. -/
theorem wraps_overbid :
    Block.parse (loneBlock bidding).encode = .ok (loneBlock bidding) ∧
      Block.parse (loneBlock overbid).encode = .ok (loneBlock overbid) ∧
      ∃ ledger summaries, Engine.replay applyBlock Rules.regtest
          [BlockTx.ofBlock (loneBlock bidding)] = .ok (ledger, summaries) ∧
        ledger.bestClaim? [0x61] 1 = some higherBid ∧
        (ledger.applyBlock 1 (BlockTx.ofBlock (loneBlock overbid))).2 =
          .error (.number .amountOverflow) ∧
        ∃ turn ∈ ledger.blockTurns 1 (BlockTx.ofBlock (loneBlock overbid)),
          ¬ turn.2.Exact [0x61] 1 ∧ turn.2.bestClaim? [0x61] 1 = some lowerBid ∧
          ∃ claim, turn.2.claims[higherBid]? = some claim ∧ claim.effective = 10 ∧
            turn.2.effectiveAmount (turn.2.entry [0x61]) 1 claim = 2 ∧
            claim.amount.toNat + Amount.exactTotal
              (turn.2.supportAmounts (turn.2.entry [0x61]) 1 higherBid) = 2 ^ 64 + 2 := by
  have start : (Engine.replay applyBlock Rules.regtest [bids]).toOption.map (fun state =>
      (state.1.height, ((BlockWork.start state.1 1).run 1 overbids).fault,
        state.1.bestClaim? [0x61] 1, (state.1.applyBlock 1 overbids).2.isOk)) =
      some (some 0, none, some higherBid, false) := by decide +kernel
  have unfitting : (Engine.replay applyBlock Rules.regtest [bids]).toOption.map (fun state =>
      (state.1.blockTurns 1 overbids)[0]?.map fun turn =>
        (turn.2.amountsFit [0x61] 1, turn.2.bestClaim? [0x61] 1)) =
      some (some (false, some lowerBid)) := by decide +kernel
  have wrapping : (Engine.replay applyBlock Rules.regtest [bids]).toOption.map (fun state =>
      (state.1.blockTurns 1 overbids)[0]?.bind fun turn =>
        turn.2.claims[higherBid]?.map fun claim =>
          (claim.effective, turn.2.effectiveAmount (turn.2.entry [0x61]) 1 claim,
            claim.amount.toNat + Amount.exactTotal
              (turn.2.supportAmounts (turn.2.entry [0x61]) 1 higherBid))) =
      some (some (10, 2, 2 ^ 64 + 2)) := by decide +kernel
  obtain ⟨⟨ledger, summaries⟩, run, shown⟩ := exists_of_map_toOption start
  rw [run] at unfitting wrapping
  simp only [Except.toOption, Option.map_some, Option.some.injEq, Option.map_eq_some_iff,
    Option.bind_eq_some_iff, Prod.mk.injEq] at shown unfitting wrapping
  obtain ⟨last, fine, best, isNotOk⟩ := shown
  obtain ⟨turn, listed, unfit, bestThen⟩ := unfitting
  obtain ⟨_, listed', claim, live, amounts⟩ := wrapping
  cases listed.symm.trans listed'
  have stopped := (isOk_applyBlock_of_numbers (built_of_replay run).timely
    (by rw [last]; decide) (by rw [last]; rfl) fine).2 isNotOk
  rw [ofBlock_bidding, ofBlock_overbid]
  refine ⟨parse_loneBlock (.inl rfl), parse_loneBlock (.inr rfl), ledger, summaries, run, best,
    stopped, turn, List.mem_of_getElem? listed, fun exact => ?_, bestThen, claim, live, amounts⟩
  rw [exact_iff.mp exact] at unfit
  cases unfit

end Ledger

end ClaimLedger
