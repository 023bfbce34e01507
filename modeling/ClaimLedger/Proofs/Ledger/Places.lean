/-
# The age of a claim

The age of a claim is the height and the place of the output that created it. Where events come
from transactions, and each transaction of a block has an index of its own, an age belongs to
one output, so two claims of one age are one claim.
-/

import Mathlib.Data.List.Nodup
import Mathlib.Data.List.Pairwise
import ClaimLedger.Proofs.Ledger.Lasting
import ClaimLedger.Sync.Stage

namespace ClaimLedger

namespace TxEvent

/-- What an output of a transaction creates is created by that transaction. -/
theorem txid_of_mem_ofOutputs {txid : Txid} {index : Nat} {outputs : List TxOut}
    {outpoint : OutPoint} {name : Bytes} {hash : ClaimHash} {amount : Amount} {owner : Bytes}
    (listed : create outpoint name hash amount owner ∈ ofOutputs txid index outputs) :
    outpoint.txid = txid := by
  induction outputs generalizing index with
  | nil => cases listed
  | cons output more ih =>
    rw [ofOutputs] at listed
    rcases List.mem_append.mp listed with here | later
    · rw [Option.mem_toList, ofOutput?, Option.map_eq_some_iff] at here
      obtain ⟨⟨script, rest⟩, -, isEvent⟩ := here
      cases script with
      | name _ _ =>
        cases isEvent
        rfl
      | update _ _ _ => cases isEvent
      | support _ _ _ => cases isEvent
    · exact ih later

end TxEvent

namespace BlockTx

/-- The transactions of a block are read from the chain, each at an index of its own. -/
structure Decoded (txs : List BlockTx) : Prop where
  indices : (txs.map index).Nodup
  transactions : ∀ tx ∈ txs, ∃ transaction, tx = ofTransaction tx.index transaction

/-- A block that is read is so, if its transactions can be counted. -/
theorem decoded_ofBlock (block : Block) (counted : block.transactions.length ≤ 2 ^ 32) :
    Decoded (ofBlock block) where
  indices := by
    have indices : (ofBlock block).map index =
        (List.range block.transactions.length).map UInt32.ofNat := by
      rw [ofBlock, List.map_map, List.range_eq_range', ← List.zipIdx_map_snd 0, List.map_map]
      rfl
    rw [indices]
    refine List.Nodup.map_on (fun i isI j isJ same => ?_) List.nodup_range
    rw [List.mem_range] at isI isJ
    have same := congrArg UInt32.toNat same
    rw [UInt32.toNat_ofNat_of_lt' (isI.trans_le counted),
      UInt32.toNat_ofNat_of_lt' (isJ.trans_le counted)] at same
    exact same
  transactions := by
    intro tx listed
    obtain ⟨⟨transaction, index⟩, -, rfl⟩ := List.mem_map.mp listed
    exact ⟨transaction, rfl⟩

/-- The index of the transaction and of the output tell which output creates a claim. -/
theorem Decoded.outpoint_eq {txs : List BlockTx} (decoded : Decoded txs) {tx tx' : BlockTx}
    {outpoint outpoint' : OutPoint} {name name' : Bytes} {hash hash' : ClaimHash}
    {amount amount' : Amount} {owner owner' : Bytes}
    (listed : (tx, .create outpoint name hash amount owner) ∈ allEvents txs)
    (listed' : (tx', .create outpoint' name' hash' amount' owner') ∈ allEvents txs)
    (sameTx : tx.index = tx'.index) (sameOutput : outpoint.vout = outpoint'.vout) :
    outpoint = outpoint' := by
  have from_tx {tx : BlockTx} {outpoint : OutPoint} {name : Bytes} {hash : ClaimHash}
      {amount : Amount} {owner : Bytes}
      (listed : (tx, .create outpoint name hash amount owner) ∈ allEvents txs) :
      outpoint.txid = tx.txid := by
    obtain ⟨isTx, created⟩ := mem_allEvents.mp listed
    obtain ⟨transaction, isTransaction⟩ := decoded.transactions tx isTx
    rw [isTransaction] at created ⊢
    rcases List.mem_append.mp created with spent | produced
    · split at spent
      · cases spent
      · obtain ⟨_, -, isSpend⟩ := List.mem_map.mp spent
        cases isSpend
    · exact TxEvent.txid_of_mem_ofOutputs produced
  have same : tx = tx' := List.inj_on_of_nodup_map decoded.indices (mem_allEvents.mp listed).1
    (mem_allEvents.mp listed').1 sameTx
  cases outpoint
  cases outpoint'
  exact congrArg₂ OutPoint.mk
    ((from_tx listed).trans (same ▸ (from_tx listed').symm)) sameOutput

end BlockTx

/-- Where no output is produced twice, an output comes from one event. -/
theorem eq_of_nodup_filterMap {α β : Type} {list : List α} {f : α → Option β}
    (once : (list.filterMap f).Nodup) {a b : α} (listed : a ∈ list) (listed' : b ∈ list) {item : β}
    (isA : f a = some item) (isB : f b = some item) : a = b := by
  have apart := List.pairwise_filterMap.mp once
  by_contra different
  have symmetric : Std.Symm fun a b => ∀ item, f a = some item → ∀ item', f b = some item' →
      item ≠ item' := ⟨fun a b apart item isB item' isA => (apart item' isA item isB).symm⟩
  exact apart.forall listed listed' different item isA item isB rfl

/-- Claims of one age are one claim. -/
theorem Fresh.hash_eq {blocks : List (List BlockTx)} (fresh : Fresh blocks)
    (decoded : ∀ txs ∈ blocks, BlockTx.Decoded txs) {claim other : Claim}
    (born : claim.BornIn blocks) (born' : other.BornIn blocks)
    (sameHeight : claim.created = other.created) (samePlace : claim.position = other.position) :
    claim.hash = other.hash := by
  obtain ⟨txs, found, tx, outpoint, amount, owner, listed, place⟩ := born
  obtain ⟨txs', found', tx', outpoint', amount', owner', listed', place'⟩ := born'
  rw [← sameHeight, found, Option.some.injEq] at found'
  subst found'
  rw [place, place', Position.mk.injEq] at samePlace
  have isBlock := List.mem_of_getElem? found
  have same := (decoded txs isBlock).outpoint_eq listed listed' samePlace.1 samePlace.2
  have once := (List.nodup_flatMap.mp fresh.outputs).1 txs isBlock
  have sameEvent := eq_of_nodup_filterMap once listed listed' (show _ = some outpoint from rfl)
    (congrArg some same.symm)
  exact (TxEvent.create.inj (Prod.mk.inj sameEvent).2).2.2.1

end ClaimLedger
