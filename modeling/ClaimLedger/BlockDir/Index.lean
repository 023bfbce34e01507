/-
# The index of a block directory

Block files hold records in the order in which the blocks arrived, not in the
order of the chain. The index remembers for every block where it lies and which
block it follows; linking it finds the heights of all blocks that lead back to
the first one, and the longest chain among them.
-/

import Std.Data.ExtTreeMap
import ClaimLedger.Block.Header
import ClaimLedger.Height

namespace ClaimLedger

/-- Where a block lies and what its header says. -/
structure Location where
  file : UInt32
  /-- The place of the block's first byte in its file. -/
  offset : Nat
  /-- The number of its bytes. -/
  length : Nat
  /-- The block that it follows; zero for the first block of a chain. -/
  previous : BlockHash
  /-- The number of transactions that it announces. -/
  txs : UInt64
  deriving DecidableEq

/-- The index of a block directory. -/
structure BlockIndex where
  /-- The number of bytes of each file that are indexed. -/
  scanned : Std.ExtTreeMap UInt32 Nat := ∅
  blocks : Std.ExtTreeMap BlockHash Location := ∅
  /-- The blocks of the longest chain in order. -/
  mainChain : Array BlockHash := #[]
  /-- The height of every block that leads back to the first one. -/
  heights : Std.ExtTreeMap BlockHash Height := ∅

namespace BlockIndex

/-- The index of a directory that was never scanned. -/
def empty : BlockIndex := {}

/-- The first block of the chain: the one that follows nothing. -/
def genesis? (blocks : Std.ExtTreeMap BlockHash Location) : Option BlockHash :=
  blocks.foldl (fun genesis hash location =>
    if location.previous = Digest.zero 32 then some hash else genesis) none

/-- The blocks that follow each block. -/
def children (blocks : Std.ExtTreeMap BlockHash Location) :
    Std.ExtTreeMap BlockHash (List BlockHash) :=
  blocks.foldl (fun children hash location =>
    if location.previous = Digest.zero 32 then children
    else children.insert location.previous (hash :: children[location.previous]?.getD [])) ∅

/-- The blocks of each height in turn, given those of the lowest. Every block
follows only one other, so no block comes twice and as many rounds as there are
blocks suffice. -/
def levels (children : Std.ExtTreeMap BlockHash (List BlockHash)) :
    Nat → List BlockHash → List (List BlockHash)
  | 0, _ => []
  | _ + 1, [] => []
  | rounds + 1, level =>
    level :: levels children rounds (level.flatMap fun hash => children[hash]?.getD [])

/-- The chain that ends in a block, in front of what is known to follow it. The
count is the number of blocks to go back over. -/
def chainTo (blocks : Std.ExtTreeMap BlockHash Location) :
    Nat → BlockHash → List BlockHash → List BlockHash
  | 0, _, after => after
  | count + 1, hash, after =>
    match blocks[hash]? with
    | none => hash :: after
    | some location => chainTo blocks count location.previous (hash :: after)

/-- The heights of the blocks of each level. -/
def levelHeights (levels : List (List BlockHash)) : Std.ExtTreeMap BlockHash Height :=
  levels.zipIdx.foldl (fun heights (level, height) =>
    level.foldl (fun heights hash => heights.insert hash (UInt32.ofNat height)) heights) ∅

/-- Find the heights and the longest chain anew. -/
def relink (index : BlockIndex) : BlockIndex :=
  let levels := levels (children index.blocks) index.blocks.size (genesis? index.blocks).toList
  let tip := (levels.getLast?).bind List.head?
  { index with
    heights := levelHeights levels
    mainChain :=
      match tip with
      | none => #[]
      | some tip => (chainTo index.blocks levels.length tip []).toArray }

/-- The block of the longest chain at a height, with its place. -/
def blockAt? (index : BlockIndex) (height : Height) : Option (BlockHash × Location) := do
  let hash ← index.mainChain[height.toNat]?
  let location ← index.blocks[hash]?
  return (hash, location)

/-- The height of the last block of the longest chain. -/
def tipHeight? (index : BlockIndex) : Option Height :=
  if index.mainChain.isEmpty then none else some (UInt32.ofNat (index.mainChain.size - 1))

end BlockIndex

end ClaimLedger
