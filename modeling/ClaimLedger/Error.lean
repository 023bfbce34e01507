/-
# What can go wrong while following a chain

Six kinds of failure end an operation. Only the first, a source that could not
be reached, is worth trying again as it stands; the others need a different
block, a different database or a different configuration. The last kind is for
numbers that do not exist: a sum that leaves its word, or a quotient by zero.
Nothing is ever worked out with a number that wrapped round.
-/

import ClaimLedger.Block
import ClaimLedger.Height
import ClaimLedger.Text.Quoted

namespace ClaimLedger

/-- The invariants of the claim rules whose breach stops a block. -/
inductive Violation where
  /-- The block is not the next one. -/
  | outOfOrder (expected : Height)
  /-- A claim competes before the block that created it. -/
  | activeBeforeCreation (claim : ClaimHash)
  /-- The recorded controller is not a claim. -/
  | missingController (claim : ClaimHash)
  /-- The recorded controller does not compete. -/
  | inactiveController (claim : ClaimHash)
  /-- Another claim ranks above the recorded controller. -/
  | outrankedController (claim : ClaimHash) (best : Option ClaimHash)
  /-- Claims compete, but none is recorded as the controller. -/
  | noController
  deriving DecidableEq

/-- An optional value as messages show it. -/
def optionText {α : Type} (text : α → String) : Option α → String
  | none => "None"
  | some value => "Some(" ++ text value ++ ")"

/-- The decimal text of a word. -/
def wordText (word : UInt32) : String :=
  toString word.toNat

/-- The wording of a violation. -/
def Violation.message : Violation → String
  | outOfOrder expected => "blocks out of order: expected height " ++ wordText expected
  | activeBeforeCreation claim => "claim " ++ claim.claimId ++ " activates before it was created"
  | missingController claim => "controlling claim " ++ claim.claimId ++ " does not exist"
  | inactiveController claim => "controlling claim " ++ claim.claimId ++ " is not active"
  | outrankedController claim best =>
    "controlling claim " ++ claim.claimId ++ " is outranked by " ++
      optionText ClaimHash.tagged best
  | noController => "active claims present but no controlling claim"

/-- What is wrong with the bytes or the order of stored blocks. -/
inductive Corruption where
  /-- The bytes of a block have the wrong structure. -/
  | badBlock (cause : BlockError)
  /-- A record does not start with the network's marker. -/
  | badMagic (found : Bytes) (offset : Nat)
  /-- A record is too short to hold a header. -/
  | shortRecord (length offset : Nat)
  /-- A block of the main chain cannot be found. -/
  | missingBlock
  /-- A block does not follow the one before it. -/
  | brokenLink
  /-- A run of blocks does not start where the one before it ended. -/
  | coverageGap (first last expected : Height)
  /-- The runs of blocks do not end at the tip. -/
  | coverageEnd (tip : Height)
  deriving DecidableEq

/-- The wording of a corruption. -/
def Corruption.message : Corruption → String
  | badBlock cause => cause.message
  | badMagic found offset => "bad magic " ++ Hex.encode found ++ " at offset " ++ toString offset
  | shortRecord length offset =>
    "record of " ++ toString length ++ " bytes at offset " ++ toString offset ++
      " is shorter than a header"
  | missingBlock => "block missing from index"
  | brokenLink => "block does not extend the previous block"
  | coverageGap first last expected =>
    "block file covers " ++ wordText first ++ "..=" ++ wordText last ++
      ", expected to start at " ++ wordText expected
  | coverageEnd tip => "block files end before tip " ++ wordText tip

/-- The numbers that do not exist. -/
inductive NumberFault where
  /-- The rules do not define the delay that a newcomer would wait. -/
  | undefinedDelay
  /-- A height lies beyond the largest one. -/
  | heightOverflow
  /-- Amounts under a name add up to more than a word holds. -/
  | amountOverflow
  /-- There are more transactions than a word counts. -/
  | countOverflow
  deriving DecidableEq

/-- The wording of a number that does not exist. -/
def NumberFault.message : NumberFault → String
  | undefinedDelay => "activation delay undefined for a delay factor of zero"
  | heightOverflow => "height beyond the largest height"
  | amountOverflow => "amounts add up to more than 64 bits"
  | countOverflow => "more transactions than 64 bits count"

/-- A failure, with its causes from the outermost inwards where they come from
outside. -/
inductive SyncError where
  /-- The source of blocks could not be reached. -/
  | sourceUnavailable (causes : List String)
  /-- Stored blocks are damaged. -/
  | corruptBlockData (file : Option UInt32) (height : Option Height) (reason : Corruption)
  /-- Applying a block would break the claim rules. -/
  | consistencyViolation (height : Height) (name : Bytes) (detail : Violation)
  /-- The database refused a read or a write. -/
  | store (causes : List String)
  /-- The settings are invalid or unreadable. -/
  | config (text : String)
  /-- A number that is needed does not exist. -/
  | number (fault : NumberFault)
  deriving DecidableEq

namespace SyncError

/-- The wording of a failure. -/
def message : SyncError → String
  | sourceUnavailable causes => "chain source unavailable: " ++ ": ".intercalate causes
  | corruptBlockData file height reason =>
    "corrupt block data (file " ++ optionText wordText file ++ ", height " ++
      optionText wordText height ++ "): " ++ reason.message
  | consistencyViolation height name detail =>
    "claimtrie consistency violation at height " ++ wordText height ++ " for name " ++
      Quoted.bytes name ++ ": " ++ detail.message
  | store causes => "store error: " ++ ": ".intercalate causes
  | config text => "config error: " ++ text
  | number fault => fault.message

/-- Whether a number that is needed does not exist. -/
def isNumeric : SyncError → Bool
  | number _ => true
  | _ => false

/-- Whether the same operation may be tried again as it stands. -/
def isRetryable : SyncError → Bool
  | sourceUnavailable _ => true
  | _ => false

end SyncError

end ClaimLedger
