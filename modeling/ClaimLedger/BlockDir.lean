/-
# Blocks from a directory

A directory of block files is a source of blocks. Every question first brings
the index up to date, and then answers from it for the longest chain only. An
answer that needs a number that does not exist leaves the index locked: from
then on every question is refused, until the directory is opened anew.
-/

import ClaimLedger.BlockDir.Scan
import ClaimLedger.Chain

namespace ClaimLedger

/-- A block directory and the index of it. -/
structure BlockDir where
  directory : Directory
  index : BlockIndex := {}
  /-- An answer failed for want of a number since the directory was opened. -/
  isLocked : Bool := false

namespace BlockDir

/-- Open the directory anew, with nothing indexed. -/
def reopen (dir : BlockDir) : BlockDir :=
  { directory := dir.directory }

/-- Bring the index up to date and answer from it. An answer that needs a
number that does not exist locks the index. -/
def ask {α : Type} (magic : Bytes) (dir : BlockDir)
    (answer : Directory → BlockIndex → Except SyncError α) :
    Except SyncError α × BlockDir :=
  if dir.isLocked then (.error (.sourceUnavailable ["block index lock poisoned"]), dir)
  else
    match dir.index.rescan dir.directory magic with
    | (index, .error failure) => (.error failure, { dir with index })
    | (index, .ok ()) =>
      match answer dir.directory index with
      | .error (.number fault) =>
        (.error (.sourceUnavailable [fault.message]), { dir with index, isLocked := true })
      | result => (result, { dir with index })

/-- The bytes at a place of a block file. -/
def readAt (directory : Directory) (location : Location) : Except SyncError Bytes :=
  let bytes := (directory.contents? location.file).bind fun contents =>
    Bytes.splitExact? location.length (contents.drop location.offset)
  match bytes with
  | some (block, _) => .ok block
  | none => .error (.sourceUnavailable ["read block in " ++ Directory.nameOfNumber location.file])

/-- Put a block in front of the runs of the blocks after it. -/
def joinRun (height : Height) (location : Location) (runs : List BlockRun) :
    Except SyncError (List BlockRun) :=
  let alone : BlockRun := ⟨location.file, height, height, 1, location.txs⟩
  match runs with
  | [] => .ok [alone]
  | run :: more =>
    if run.file ≠ location.file then .ok (alone :: runs)
    else
      let txs := location.txs + run.txs
      if txs < run.txs then .error (.number .countOverflow)
      else .ok ({ run with first := height, blocks := run.blocks + 1, txs } :: more)

/-- The runs of blocks at the given places. -/
def joinRuns : List (Height × Location) → Except SyncError (List BlockRun)
  | [] => .ok []
  | (height, location) :: more => do joinRun height location (← joinRuns more)

/-- The places of the blocks at the given heights. -/
def placesAt (index : BlockIndex) (file : Option UInt32) :
    List Height → Except SyncError (List (Height × Location))
  | [] => .ok []
  | height :: more =>
    match index.blockAt? height with
    | none => .error (.corruptBlockData file (some height) .missingBlock)
    | some (_, location) => do
      return (height, location) :: (← placesAt index file more)

/-- The runs of blocks between two heights, as far as the chain goes. -/
def runsIn (index : BlockIndex) (first last : Height) : Except SyncError (List BlockRun) :=
  match index.tipHeight? with
  | none => .ok []
  | some tip => do joinRuns (← placesAt index none (heightsFrom first (min last tip)))

/-- Read as many blocks as the count says, from a height on. The first height
without a block ends the reading, so a run may claim to be longer than the
chain. -/
def readAll (directory : Directory) (index : BlockIndex) (file : UInt32) :
    Nat → Height → Except SyncError (List RawBlock)
  | 0, _ => .ok []
  | count + 1, height =>
    match index.blockAt? height with
    | none => .error (.corruptBlockData (some file) (some height) .missingBlock)
    | some (_, location) => do
      let bytes ← readAt directory location
      return ⟨height, bytes⟩ :: (← readAll directory index file count (height + 1))

/-- The height of the longest chain. -/
def tipHeight (magic : Bytes) (dir : BlockDir) : Except SyncError (Option Height) × BlockDir :=
  dir.ask magic fun _ index => .ok index.tipHeight?

/-- The runs of blocks between two heights. -/
def blockRuns (magic : Bytes) (first last : Height) (dir : BlockDir) :
    Except SyncError (List BlockRun) × BlockDir :=
  dir.ask magic fun _ index => runsIn index first last

/-- The blocks of a run. -/
def readBlocks (magic : Bytes) (run : BlockRun) (dir : BlockDir) :
    Except SyncError (List RawBlock) × BlockDir :=
  dir.ask magic fun directory index =>
    readAll directory index run.file (run.last.toNat + 1 - run.first.toNat) run.first

/-- The block at a height of the longest chain. -/
def blockAtHeight (magic : Bytes) (height : Height) (dir : BlockDir) :
    Except SyncError (Option RawBlock) × BlockDir :=
  dir.ask magic fun directory index =>
    match index.blockAt? height with
    | none => .ok none
    | some (_, location) => (readAt directory location).map fun bytes => some ⟨height, bytes⟩

/-- The block of a hash, if it is on the longest chain. -/
def blockByHash (magic : Bytes) (hash : BlockHash) (dir : BlockDir) :
    Except SyncError (Option RawBlock) × BlockDir :=
  dir.ask magic fun directory index =>
    match index.heights[hash]? with
    | none => .ok none
    | some height =>
      match index.blockAt? height with
      | none => .ok none
      | some (found, location) =>
        if found = hash then
          (readAt directory location).map fun bytes => some ⟨height, bytes⟩
        else .ok none

/-- The directory as a source of blocks of the network with the given
marker. -/
def source (magic : Bytes) : ChainSource BlockDir where
  tipHeight := tipHeight magic
  blockRuns := blockRuns magic
  readBlocks := readBlocks magic

end BlockDir

end ClaimLedger
