/-
# What a transaction does to claims

A transaction touches claims in two ways: each input may take away an output
that holds a claim or a support, and each output may hold a new one. The
events of a transaction list its spends first and its claim outputs after
them, both in the order of the transaction. The input of a coinbase spends
nothing and is left out.
-/

import ClaimLedger.Script
import ClaimLedger.Transaction

namespace ClaimLedger

/-- One effect of a transaction on claims. -/
inductive TxEvent where
  /-- An input that spends the output, whatever that output holds. -/
  | spend (outpoint : OutPoint)
  /-- An output that creates a claim. -/
  | create (outpoint : OutPoint) (name : Bytes) (claim : ClaimHash) (amount : Amount)
      (owner : Bytes)
  /-- An output that carries an existing claim on. -/
  | update (outpoint : OutPoint) (name : Bytes) (claim : ClaimHash) (amount : Amount)
      (owner : Bytes)
  /-- An output that adds its amount to a claim. -/
  | support (outpoint : OutPoint) (name : Bytes) (claim : ClaimHash) (amount : Amount)
  deriving DecidableEq

namespace TxEvent

/-- The output that an event spends. -/
def spent? : TxEvent → Option OutPoint
  | spend outpoint => some outpoint
  | _ => none

/-- The event of an output; `none` for a plain payment. A new claim is named
after the output itself. -/
def ofOutput? (outpoint : OutPoint) (output : TxOut) : Option TxEvent :=
  (ClaimScript.parse? output.script).map fun (script, owner) =>
    match script with
    | .name name _ =>
      create outpoint name (ClaimHash.ofOutPoint outpoint) output.value owner
    | .update name claim _ => update outpoint name claim output.value owner
    | .support name claim _ => support outpoint name claim output.value

/-- The events of a transaction's outputs, the first of which has the given
index. -/
def ofOutputs (txid : Txid) : Nat → List TxOut → List TxEvent
  | _, [] => []
  | index, output :: more =>
    (ofOutput? ⟨txid, UInt32.ofNat index⟩ output).toList ++ ofOutputs txid (index + 1) more

end TxEvent

/-- A transaction at its place in a block, reduced to its events. -/
structure BlockTx where
  txid : Txid
  index : UInt32
  events : List TxEvent
  deriving DecidableEq

namespace BlockTx

/-- The outputs that a transaction spends, in order. -/
def spends (tx : BlockTx) : List OutPoint :=
  tx.events.filterMap TxEvent.spent?

/-- The events of a transaction at the given place. -/
def ofTransaction (index : UInt32) (tx : Transaction) : BlockTx where
  txid := tx.txid
  index := index
  events :=
    (if tx.isCoinbase then [] else tx.inputs.map fun input => .spend input.previous) ++
      TxEvent.ofOutputs tx.txid 0 tx.outputs

end BlockTx

end ClaimLedger
