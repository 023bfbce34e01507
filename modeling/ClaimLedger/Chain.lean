/-
# Sources of blocks

A source of blocks knows the best chain of a node: how high it is, in which
files its blocks lie, and their bytes. Asking it may fail, and may change the
source, so every question takes the state of the source and gives it back.
-/

import ClaimLedger.Error

namespace ClaimLedger

/-- A run of consecutive blocks of the best chain that lie in one file. -/
structure BlockRun where
  file : UInt32
  /-- The height of the first block. -/
  first : Height
  /-- The height of the last block. -/
  last : Height
  /-- The number of blocks. -/
  blocks : UInt32
  /-- The number of transactions that they announce. -/
  txs : UInt64
  deriving DecidableEq

/-- The bytes of a block at a known height. -/
structure RawBlock where
  height : Height
  bytes : Bytes
  deriving DecidableEq

/-- A source of blocks with states in `σ`. -/
structure ChainSource (σ : Type) where
  /-- The height of the best block, if there is one. -/
  tipHeight : σ → Except SyncError (Option Height) × σ
  /-- The runs of blocks between two heights, both included. -/
  blockRuns : Height → Height → σ → Except SyncError (List BlockRun) × σ
  /-- The blocks of a run. -/
  readBlocks : BlockRun → σ → Except SyncError (List RawBlock) × σ

/-- The heights from one to another, both included. -/
def heightsFrom (first last : Height) : List Height :=
  (List.range' first.toNat (last.toNat + 1 - first.toNat)).map UInt32.ofNat

end ClaimLedger
