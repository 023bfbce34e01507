/-
# A chain made to order

A chain that grows on request in memory and serves its blocks as a node would.
To see what an advance does with an unreliable source, what it serves can be
disturbed: bytes changed, blocks left out or labelled with another height, the
tip hidden or announced by a script, files announced wrongly, and calls
refused.
-/

import ClaimLedger.BlockDir
import ClaimLedger.Chain

namespace ClaimLedger

namespace Block

/-- The first transaction of a made block: it says the height, so that no two
are alike, and pays to a fixed script. -/
def madeCoinbase (height : Height) : Transaction where
  version := 1
  inputs := [⟨OutPoint.null, Encode.word height, 0xffffffff, []⟩]
  outputs := [⟨100000000, [0x00, 0x14] ++ List.replicate 20 0x07⟩]
  lockTime := 0

/-- A block made to order: a coinbase, then the given transactions. -/
def made (height : Height) (previous : BlockHash) (nonce : UInt32)
    (transactions : List Transaction) : Block :=
  let header : Header := {
    version := 536870912
    previous
    merkleRoot := Digest.zero 32
    claimRoot := Digest.zero 32
    time := 1600000000 + height
    bits := 0x207fffff
    nonce }
  assemble header (madeCoinbase height :: transactions)

end Block

/-- A block of a made chain, in the file where it is said to lie, and the bytes
that are served for it. -/
structure ScriptedBlock where
  file : UInt32
  block : Block
  served : Bytes

/-- A scripted answer to the question for the tip. -/
inductive TipAnswer where
  /-- A height, possibly with a request to stop before it is given. -/
  | tip (height : Option Height) (stop : Bool)
  | offline

/-- A chain made to order, and how it is disturbed. -/
structure ScriptedChain where
  blocks : Array ScriptedBlock := #[]
  /-- The file of the next block. -/
  file : UInt32 := 0
  /-- Every call is refused. -/
  offline : Bool := false
  /-- No tip above this height is announced. -/
  hideAbove : Option Height := none
  /-- What to answer to the next questions for the tip. -/
  tips : List TipAnswer := []
  /-- What to announce instead of the true runs. -/
  runs : Option (List BlockRun) := none
  /-- The files that cannot be read. -/
  unreadable : List UInt32 := []
  /-- The heights whose blocks are left out. -/
  omitted : List Height := []
  /-- The heights that blocks are labelled with instead of their own. -/
  labels : List (Height × Height) := []
  /-- A stop is requested. -/
  stop : Bool := false

namespace ScriptedChain

/-- A call that is refused with a text. -/
def refuse {α : Type} (text : String) : Except SyncError α :=
  .error (.sourceUnavailable [text])

/-- Answer unless every call is refused. -/
def online {α : Type} (chain : ScriptedChain) (answer : Except SyncError α × ScriptedChain) :
    Except SyncError α × ScriptedChain :=
  if chain.offline then (refuse "node offline", chain) else answer

/-- The height of the last block, as far as it is announced. -/
def announcedTip? (chain : ScriptedChain) : Option Height :=
  if chain.blocks.isEmpty then none
  else
    let tip := UInt32.ofNat (chain.blocks.size - 1)
    some (match chain.hideAbove with
      | some cap => min tip cap
      | none => tip)

/-- The existing blocks between two heights, with their heights. -/
def between (chain : ScriptedChain) (first last : Height) : List (Height × ScriptedBlock) :=
  (chain.blocks.toList.zipIdx.map fun (block, height) =>
    (UInt32.ofNat height, block)).filter fun (height, _) => first ≤ height && height ≤ last

/-- Answer the question for the tip. -/
def tipHeight (chain : ScriptedChain) : Except SyncError (Option Height) × ScriptedChain :=
  chain.online <|
    match chain.tips with
    | .tip height stop :: tips => (.ok height, { chain with tips, stop := chain.stop || stop })
    | .offline :: tips => (refuse "tip offline", { chain with tips })
    | [] => (.ok chain.announcedTip?, chain)

/-- Answer the question for the runs between two heights. -/
def blockRuns (first last : Height) (chain : ScriptedChain) :
    Except SyncError (List BlockRun) × ScriptedChain :=
  let place (block : ScriptedBlock) : Location := {
    file := block.file
    offset := 0
    length := block.served.length
    previous := block.block.header.previous
    txs := UInt64.ofNat block.block.transactions.length }
  let places := (chain.between first last).map fun (height, block) => (height, place block)
  let runs := chain.runs.elim (BlockDir.joinRuns places) .ok
  chain.online (runs, chain)

/-- Answer the request for the blocks of a run. -/
def readBlocks (run : BlockRun) (chain : ScriptedChain) :
    Except SyncError (List RawBlock) × ScriptedChain :=
  let served := (chain.between run.first run.last).filter fun (height, _) =>
    !chain.omitted.contains height
  chain.online <|
    if chain.unreadable.contains run.file then
      (refuse ("cannot read file " ++ wordText run.file), chain)
    else
      (.ok (served.map fun (height, block) =>
        ⟨(chain.labels.lookup height).getD height, block.served⟩), chain)

/-- The chain as a source of blocks. -/
def source : ChainSource ScriptedChain where
  tipHeight := tipHeight
  blockRuns := blockRuns
  readBlocks := readBlocks

/-- Add a block with the given transactions. -/
def mine (chain : ScriptedChain) (transactions : List Transaction) : ScriptedChain :=
  let previous := (chain.blocks.back?.map fun last => last.block.hash).getD (Digest.zero 32)
  let block := Block.made (UInt32.ofNat chain.blocks.size) previous 0 transactions
  { chain with blocks := chain.blocks.push ⟨chain.file, block, block.encode⟩ }

/-- Add empty blocks until there is one of the height. -/
def mineTo (chain : ScriptedChain) (height : Nat) : ScriptedChain :=
  (height + 1 - chain.blocks.size).repeat (fun chain => chain.mine []) chain

/-- The hash of the last block. -/
def lastHash? (chain : ScriptedChain) : Option BlockHash :=
  chain.blocks.back?.map fun last => last.block.hash

/-- Change the bytes that are served for the block of a height. -/
def disturb (chain : ScriptedChain) (height : Nat) (change : Bytes → Bytes) : ScriptedChain :=
  { chain with
    blocks := chain.blocks.modify height fun block => { block with served := change block.served } }

/-- Serve the true bytes of the block of a height again. -/
def repair (chain : ScriptedChain) (height : Nat) : ScriptedChain :=
  { chain with
    blocks := chain.blocks.modify height fun block =>
      { block with served := block.block.encode } }

end ScriptedChain

end ClaimLedger
