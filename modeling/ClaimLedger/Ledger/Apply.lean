/-
# Applying a block

A block is applied in phases rather than transaction by transaction: first all
spends of outputs that were there before, then all new claims, then all
updates, then all supports, and at the end every name that was touched or is
due at this height is settled. Two things repair what the reordering would
otherwise miss. A claim whose output is spent by a transaction that also
updates the claim is left alone until the updates are in; and every claim that
was created or moved in this block is looked at once more, because its new
output may be spent later in the same block.
-/

import ClaimLedger.Ledger.Settle
import ClaimLedger.TxEvent

namespace ClaimLedger

/-- What one block did. -/
structure BlockSummary where
  height : Height
  created : Nat
  updated : Nat
  abandoned : Nat
  supportsAdded : Nat
  supportsSpent : Nat
  /-- The names whose control changed, with the new controller. -/
  takeovers : List (Bytes × Option ClaimHash)
  deriving DecidableEq

/-- How often each thing happened in a block. -/
structure Tally where
  created : Nat := 0
  updated : Nat := 0
  abandoned : Nat := 0
  supportsAdded : Nat := 0
  supportsSpent : Nat := 0

/-- A block on its way into the ledger. -/
structure BlockWork where
  ledger : Ledger
  /-- The names to settle. -/
  touched : Std.ExtTreeSet Bytes
  /-- The claims to look at once more when the updates are in. -/
  recheck : List ClaimHash := []
  tally : Tally := {}
  /-- The first number that the rules could not work out. -/
  fault : Option NumberFault := none

namespace BlockTx

/-- Whether a transaction has an update for the claim. -/
def updates (tx : BlockTx) (claim : ClaimHash) : Bool :=
  tx.events.any fun event =>
    match event with
    | .update _ _ updated _ _ => updated == claim
    | _ => false

/-- Whether some transaction both spends the output and updates the claim. -/
def carriesOn (txs : List BlockTx) (claim : ClaimHash) (outpoint : OutPoint) : Bool :=
  txs.any fun tx => tx.updates claim && tx.spends.contains outpoint

/-- The outputs that the transactions spend, in block order. -/
def allSpends (txs : List BlockTx) : List OutPoint :=
  txs.flatMap spends

/-- The events of the transactions in block order, each with its
transaction. -/
def allEvents (txs : List BlockTx) : List (BlockTx × TxEvent) :=
  txs.flatMap fun tx => tx.events.map fun event => (tx, event)

end BlockTx

namespace Ledger

/-- The blocks that a newcomer waits under a name: none where nobody is in
control. -/
def newcomerDelay (ledger : Ledger) (name : Bytes) (height : Height) : Height :=
  match ledger.takeover? name with
  | some takeover => ledger.rules.activationDelay height takeover.height
  | none => 0

/-- Why the rules give a newcomer under a name no height to compete from, if
they give none: the delay is undefined, or its end is beyond all heights. -/
def startFault? (ledger : Ledger) (name : Bytes) (height : Height) : Option NumberFault :=
  if (ledger.takeover? name).isSome && ledger.rules.delayFactor == 0 then some .undefinedDelay
  else if height + ledger.newcomerDelay name height < height then some .heightOverflow
  else none

end Ledger

namespace BlockWork

/-- The start of a block: the names that are due at its height come off the
schedule. -/
def start (ledger : Ledger) (height : Height) : BlockWork where
  ledger := { ledger with schedule := ledger.schedule.erase height }
  touched := ledger.schedule[height]?.getD ∅

/-- Give up a claim whose output is spent for good. -/
def abandon (work : BlockWork) (hash : ClaimHash) : BlockWork :=
  match work.ledger.claims[hash]? with
  | none => work
  | some claim =>
    { work with
      ledger := work.ledger.removeClaim claim
      touched := work.touched.insert claim.name
      tally.abandoned := work.tally.abandoned + 1 }

/-- Spend one output that was there before the block. -/
def spend (txs : List BlockTx) (work : BlockWork) (outpoint : OutPoint) : BlockWork :=
  match work.ledger.supports[outpoint]? with
  | some support =>
    { work with
      ledger := work.ledger.removeSupport support
      touched := work.touched.insert support.name
      tally.supportsSpent := work.tally.supportsSpent + 1 }
  | none =>
    match work.ledger.holdings[outpoint]? with
    | none => work
    | some hash =>
      if BlockTx.carriesOn txs hash outpoint then
        { work with recheck := work.recheck ++ [hash] }
      else work.abandon hash

/-- Take in a new claim, unless a claim of that hash is live. -/
def create (height : Height) (work : BlockWork) : BlockTx × TxEvent → BlockWork
  | (tx, .create outpoint name hash amount owner) =>
    if work.ledger.claims.contains hash then work
    else
      let claim : Claim := {
        hash, name, outpoint, amount, owner
        created := height
        position := ⟨tx.index, outpoint.vout⟩
        updated := height
        term := ⟨height + work.ledger.newcomerDelay name height,
          work.ledger.rules.expirationHeight height⟩
        effective := 0 }
      { work with
        ledger := work.ledger.addClaim claim
        touched := work.touched.insert name
        recheck := work.recheck ++ [hash]
        tally.created := work.tally.created + 1
        fault := work.fault <|> work.ledger.startFault? name height }
  | _ => work

/-- The ledger after a claim moved to a new output; its lifetime starts
again. -/
def moveClaim (ledger : Ledger) (height : Height) (claim : Claim) (outpoint : OutPoint)
    (amount : Amount) (owner : Bytes) : Ledger :=
  let moved : Claim :=
    { claim with
      outpoint, amount, owner
      updated := height
      term.expiration := ledger.rules.expirationHeight height }
  let ledger := ledger.putClaim moved
  { ledger with
    holdings := (ledger.holdings.erase claim.outpoint).insert outpoint claim.hash }

/-- Carry a claim on, if it has that name, is not expired, and the same
transaction spends the output that holds it. -/
def update (height : Height) (work : BlockWork) : BlockTx × TxEvent → BlockWork
  | (tx, .update outpoint name hash amount owner) =>
    match work.ledger.claims[hash]? with
    | none => work
    | some claim =>
      if claim.name ≠ name ∨ claim.term.isExpiredAt height ∨
          ¬ tx.spends.contains claim.outpoint then work
      else
        { work with
          ledger := moveClaim work.ledger height claim outpoint amount owner
          touched := work.touched.insert name
          recheck := work.recheck ++ [hash]
          tally.updated := work.tally.updated + 1 }
  | _ => work

/-- Give up a claim if the output that holds it now is spent in the block. -/
def recheckClaim (spent : Std.ExtTreeSet OutPoint) (work : BlockWork) (hash : ClaimHash) :
    BlockWork :=
  match work.ledger.claims[hash]? with
  | none => work
  | some claim => if spent.contains claim.outpoint then work.abandon hash else work

/-- Take in a support, unless its output is spent in the block. A support of
the controller counts at once. -/
def support (height : Height) (spent : Std.ExtTreeSet OutPoint) (work : BlockWork) :
    BlockTx × TxEvent → BlockWork
  | (_, .support outpoint name claim amount) =>
    if spent.contains outpoint then work
    else
      let controls := (work.ledger.takeover? name).any fun takeover => takeover.claim == claim
      let delay := if controls then 0 else work.ledger.newcomerDelay name height
      let support : Support := {
        outpoint, name, claim, amount
        created := height
        term := ⟨height + delay, work.ledger.rules.expirationHeight height⟩ }
      { work with
        ledger := work.ledger.addSupport support
        touched := work.touched.insert name
        tally.supportsAdded := work.tally.supportsAdded + 1
        fault := work.fault <|>
          if controls then none else work.ledger.startFault? name height }
  | _ => work

/-- All phases before names are settled. -/
def run (work : BlockWork) (height : Height) (txs : List BlockTx) : BlockWork :=
  let spent : Std.ExtTreeSet OutPoint := Std.ExtTreeSet.ofList (BlockTx.allSpends txs)
  let events := BlockTx.allEvents txs
  let work := (BlockTx.allSpends txs).foldl (spend txs) work
  let work := events.foldl (create height) work
  let work := events.foldl (update height) work
  let work := work.recheck.foldl (recheckClaim spent) work
  events.foldl (support height spent) work

end BlockWork

namespace Ledger

/-- Settle and verify names one after the other. A failure stops there, with
the ledger as it is by then. -/
def settleAll (height : Height) :
    List Bytes → Ledger → Ledger × Except SyncError (List (Bytes × Option ClaimHash))
  | [], ledger => (ledger, .ok [])
  | name :: more, ledger =>
    let (ledger, change) := ledger.settle name height
    if !ledger.amountsFit name height then
      (ledger, .error (.number .amountOverflow))
    else
      match ledger.verify name height with
      | .error detail => (ledger, .error (.consistencyViolation height name detail))
      | .ok () =>
        let (ledger, changes) := settleAll height more (ledger.prune name)
        (ledger, changes.map ((change.map fun controller => (name, controller)).toList ++ ·))

/-- Apply the transactions of a block at a height. The ledger comes back also
when the block is refused; it is unchanged when the block was out of order. -/
def applyBlock (ledger : Ledger) (height : Height) (txs : List BlockTx) :
    Ledger × Except SyncError BlockSummary :=
  let expected := Height.next ledger.height
  if ledger.height = some Height.top then
    (ledger, .error (.number .heightOverflow))
  else if height ≠ expected then
    (ledger, .error (.consistencyViolation height [] (.outOfOrder expected)))
  else
    let work := (BlockWork.start ledger height).run height txs
    match work.fault with
    | some fault => (work.ledger, .error (.number fault))
    | none =>
      match settleAll height work.touched.toList work.ledger with
      | (ledger, .error failure) => (ledger, .error failure)
      | (ledger, .ok takeovers) =>
        ({ ledger with height := some height }, .ok {
          height, takeovers
          created := work.tally.created
          updated := work.tally.updated
          abandoned := work.tally.abandoned
          supportsAdded := work.tally.supportsAdded
          supportsSpent := work.tally.supportsSpent })

/-- Apply as many empty blocks as the count says, or until one is refused.
`found` are the summaries so far; only blocks that changed control of some name
add theirs. -/
def passBlocks :
    Nat → Ledger → List BlockSummary → Ledger × List BlockSummary × Option SyncError
  | 0, ledger, found => (ledger, found, none)
  | count + 1, ledger, found =>
    match ledger.applyBlock (Height.next ledger.height) [] with
    | (ledger, .error failure) => (ledger, found, some failure)
    | (ledger, .ok summary) =>
      passBlocks count ledger (if summary.takeovers.isEmpty then found else found ++ [summary])

/-- Apply empty blocks until the ledger has reached a height. -/
def passUntil (ledger : Ledger) (height : Height) :
    Ledger × List BlockSummary × Option SyncError :=
  let reached := ledger.height.elim 0 fun last => last.toNat + 1
  passBlocks (height.toNat + 1 - reached) ledger []

end Ledger

end ClaimLedger
