/-
# The stages of a block file

A run of blocks goes through three stages: its blocks are parsed and linked,
its transactions are applied to the ledger, and the rows that changed are
written. Each stage publishes a first event, events at intervals, and a last
one when it is through; a stage that fails publishes no last event.
-/

import ClaimLedger.Chain
import ClaimLedger.Ledger.Apply
import ClaimLedger.Ledger.Snapshot
import ClaimLedger.Progress
import ClaimLedger.RowStore

namespace ClaimLedger

/-- The events that a stage publishes, and how it ends. -/
abbrev StageResult (α : Type) := List ProgressEvent × Except SyncError α

namespace BlockTx

/-- The transactions of a block at their places. -/
def ofBlock (block : Block) : List BlockTx :=
  block.transactions.zipIdx.map fun (tx, index) => ofTransaction (UInt32.ofNat index) tx

end BlockTx

namespace Stage

/-- The blocks of a run, each with its height. -/
abbrev LinkedBlocks := List (Height × Block)

/-- Check that a block may follow what came before it in the run of a file. -/
def checkLink (file : UInt32) (last : Option (Height × BlockHash)) (height : Height)
    (block : Block) : Except SyncError Unit :=
  match last with
  | none => .ok ()
  | some (lastHeight, lastHash) =>
    if lastHeight = Height.top then .error (.number .heightOverflow)
    else if height = lastHeight + 1 ∧ block.header.previous = lastHash then .ok ()
    else .error (.corruptBlockData (some file) (some height) .brokenLink)

/-- Parse the remaining blocks of a run, `done` of `total` being parsed. -/
def parseBlocks (file : UInt32) (every total : Nat) :
    Nat → Option (Height × BlockHash) → List RawBlock → StageResult LinkedBlocks
  | _, _, [] => ([], .ok [])
  | done, last, raw :: more =>
    match Block.parse raw.bytes with
    | .error cause =>
      ([], .error (.corruptBlockData (some file) (some raw.height) (.badBlock cause)))
    | .ok block =>
      match checkLink file last raw.height block with
      | .error failure => ([], .error failure)
      | .ok () =>
        let step := done + 1
        let here : List ProgressEvent :=
          if step % every = 0 ∧ step ≠ total then [.progress blockRead file step total] else []
        let (events, rest) := parseBlocks file every total step (some (raw.height, block.hash)) more
        (here ++ events, rest.map ((raw.height, block) :: ·))

/-- Parse and link the blocks of a run. -/
def readBlocks (file : UInt32) (every : Nat) (raws : List RawBlock) : StageResult LinkedBlocks :=
  let total := raws.length
  match parseBlocks file (max every 1) total 0 none raws with
  | (events, .error failure) => (.progress blockRead file 0 total :: events, .error failure)
  | (events, .ok blocks) =>
    (.progress blockRead file 0 total :: events ++ [.progress blockRead file total total],
      .ok blocks)

/-- Apply the remaining blocks of a run. Of `total` transactions `done` are
applied, and `reported` were the last time that an event said so. -/
def applyBlocks (file : UInt32) (every total : Nat) :
    Nat → Nat → Ledger → LinkedBlocks → StageResult Ledger
  | _, _, ledger, [] => ([], .ok ledger)
  | done, reported, ledger, (height, block) :: more =>
    match ledger.applyBlock height (BlockTx.ofBlock block) with
    | (_, .error failure) => ([], .error failure)
    | (ledger, .ok _) =>
      let done := done + block.transactions.length
      if every ≤ done - reported ∧ done ≠ total then
        let (events, rest) := applyBlocks file every total done done ledger more
        (.progress blockSave file done total :: events, rest)
      else applyBlocks file every total done reported ledger more

/-- The number of transactions in the blocks of a run. -/
def countTransactions (blocks : LinkedBlocks) : Nat :=
  blocks.foldr (fun (_, block) count => block.transactions.length + count) 0

/-- Apply the blocks of a run. -/
def saveBlocks (file : UInt32) (every : Nat) (ledger : Ledger) (blocks : LinkedBlocks) :
    StageResult Ledger :=
  let total := countTransactions blocks
  match applyBlocks file (max every 1) total 0 0 ledger blocks with
  | (events, .error failure) => (.progress blockSave file 0 total :: events, .error failure)
  | (events, .ok ledger) =>
    (.progress blockSave file 0 total :: events ++ [.progress blockSave file total total],
      .ok ledger)

/-- The height that a run reaches: that of its last block. -/
def reached (run : BlockRun) (blocks : LinkedBlocks) : Height :=
  match blocks.getLast? with
  | none => run.last
  | some (height, _) => height

/-- The event in front of writing claim rows, if there are any. -/
def rowsStart (file : UInt32) (total : Nat) : List ProgressEvent :=
  if total = 0 then [] else [.progress claimUpdate file 0 total]

/-- The events for the row counts that the store reported. -/
def rowEvents (file : UInt32) (total : Nat) (reports : List Nat) : List ProgressEvent :=
  reports.map fun step => .progress claimUpdate file step total

end Stage

end ClaimLedger
