/-
# Progress events

While following a chain, the program says what it is about to do, how far each
block file has come in each of three stages, and when it is done. Every event
has a dotted name under one common stem.
-/

import ClaimLedger.Height

namespace ClaimLedger

/-- The stages that a block file goes through. -/
inductive Stage where
  /-- Its blocks are parsed and checked. -/
  | blockRead
  /-- Its transactions are applied. -/
  | blockSave
  /-- Its claim rows are written. -/
  | claimUpdate
  deriving DecidableEq, Repr

namespace Stage

/-- The short name of a stage. -/
def tag : Stage → String
  | blockRead => "block_read"
  | blockSave => "block_save"
  | claimUpdate => "claim_update"

/-- The last parts of the name of the stage's events. -/
def suffix : Stage → String
  | blockRead => "block.read"
  | blockSave => "block.save"
  | claimUpdate => "claim.update"

end Stage

/-- An event on the way of the chain into the store. -/
inductive ProgressEvent where
  /-- New blocks were found: the height reached before, or minus one, the height
  to reach, and how many files, blocks and transactions lie between. -/
  | start (startingHeight : Int) (endingHeight : Height) (files blocks txs : Nat)
  /-- A block file has come so far in a stage; it is through when the step is
  the total. -/
  | progress (stage : Stage) (file : UInt32) (step total : Nat)
  /-- The height is reached. -/
  | block (height : Height)
  deriving DecidableEq

namespace ProgressEvent

/-- The common stem of all event names. -/
def stem : String := "blockchain.sync"

/-- The name of an event. -/
def name : ProgressEvent → String
  | start .. => stem ++ ".start"
  | progress stage .. => stem ++ "." ++ stage.suffix
  | block _ => stem ++ ".block"

end ProgressEvent

end ClaimLedger
