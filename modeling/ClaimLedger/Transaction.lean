/-
# Transactions

A transaction spends outputs of earlier ones and makes new ones. On the wire
it has two forms: the plain one, and one with a witness per input, marked by an
input count of zero followed by a one. The id of a transaction is the hash of
its plain form, so witnesses do not change it.
-/

import ClaimLedger.Wire

namespace ClaimLedger

/-- An input: the output it spends, and what unlocks it. -/
structure TxIn where
  previous : OutPoint
  script : Bytes
  sequence : UInt32
  witness : List Bytes
  deriving DecidableEq

/-- An output: a value and the script that guards it. -/
structure TxOut where
  value : Amount
  script : Bytes
  deriving DecidableEq

/-- A transaction. -/
structure Transaction where
  version : Int32
  inputs : List TxIn
  outputs : List TxOut
  lockTime : UInt32
  deriving DecidableEq

namespace OutPoint

/-- The wire form of an outpoint. -/
def encode (outpoint : OutPoint) : Bytes :=
  outpoint.txid.bytes ++ Encode.word outpoint.vout

/-- Read an outpoint. -/
def decoder : Decoder OutPoint := do
  return ⟨← Decoder.digest 32, ← Decoder.word⟩

end OutPoint

namespace TxIn

/-- The wire form of an input, without its witness. -/
def encode (input : TxIn) : Bytes :=
  input.previous.encode ++ Encode.countedBytes input.script ++ Encode.word input.sequence

/-- Read an input; its witness comes later, if at all. -/
def decoder : Decoder TxIn := do
  return ⟨← OutPoint.decoder, ← Decoder.countedBytes, ← Decoder.word, []⟩

end TxIn

namespace TxOut

/-- The wire form of an output. -/
def encode (output : TxOut) : Bytes :=
  Encode.longWord output.value ++ Encode.countedBytes output.script

/-- Read an output. -/
def decoder : Decoder TxOut := do
  return ⟨← Decoder.longWord, ← Decoder.countedBytes⟩

end TxOut

/-!
## Witnesses

A witness is a counted list of counted byte strings. Its room is bounded: it
may announce at most `WireError.roomLimit` items, and its items with their
counts may fill at most that many bytes. The bound is checked before an item
is read, against a fill that also holds four bytes of index per item.
-/

namespace Witness

/-- The wire form of a witness. -/
def encode (witness : List Bytes) : Bytes :=
  Encode.counted Encode.countedBytes witness

/-- Read the remaining items of a witness of `total` items, `filled` being the
room taken so far. -/
def items (total : Nat) : Nat → Nat → Decoder (List Bytes)
  | 0, _ => return []
  | n + 1, filled => do
    let size ← Decoder.count
    let spelled := (Encode.count size).length
    let required := filled + size + spelled
    if 0x10000000000000000 ≤ required then throw (.oversized 0xffffffffffffffff)
    if WireError.roomLimit + 4 * total < required then throw (.oversized required)
    let first ← Decoder.bytes size
    let rest ← items total n required
    return first :: rest

/-- Read a witness. -/
def decoder : Decoder (List Bytes) := do
  let total ← Decoder.count
  if WireError.roomLimit < total then throw (.oversized total)
  items total total (4 * total)

end Witness

namespace Transaction

/-- The first transaction of a block, which makes new money: its only input
spends nothing. -/
def isCoinbase (tx : Transaction) : Bool :=
  match tx.inputs with
  | [input] => input.previous == OutPoint.null
  | _ => false

/-- The form without witnesses. -/
def encodePlain (tx : Transaction) : Bytes :=
  Encode.word tx.version.toUInt32 ++ Encode.counted TxIn.encode tx.inputs ++
    Encode.counted TxOut.encode tx.outputs ++ Encode.word tx.lockTime

/-- The form with one witness per input. -/
def encodeWitnessed (tx : Transaction) : Bytes :=
  Encode.word tx.version.toUInt32 ++ [0, 1] ++ Encode.counted TxIn.encode tx.inputs ++
    Encode.counted TxOut.encode tx.outputs ++
    tx.inputs.flatMap (fun input => Witness.encode input.witness) ++ Encode.word tx.lockTime

/-- Whether the form with witnesses is needed: some witness holds an item, or
there is no input and the plain form would be mistaken for the other. -/
def usesWitnessForm (tx : Transaction) : Bool :=
  tx.inputs.isEmpty || tx.inputs.any fun input => !input.witness.isEmpty

/-- The wire form. -/
def encode (tx : Transaction) : Bytes :=
  if tx.usesWitnessForm then tx.encodeWitnessed else tx.encodePlain

/-- The id: the hash of the form without witnesses. -/
def txid (tx : Transaction) : Txid :=
  sha256Twice tx.encodePlain

/-- Read one witness for each of the given inputs. -/
def witnesses : List TxIn → Decoder (List TxIn)
  | [] => return []
  | input :: more => do
    let witness ← Witness.decoder
    let rest ← witnesses more
    return { input with witness } :: rest

/-- Read a transaction in either form. -/
def decoder : Decoder Transaction := do
  let version := Int32.ofUInt32 (← Decoder.word)
  let inputs ← Decoder.counted TxIn.decoder
  if inputs.isEmpty then
    let marker ← Decoder.byte
    if marker ≠ 1 then throw (.unknownMarker marker)
    let inputs ← Decoder.counted TxIn.decoder
    let outputs ← Decoder.counted TxOut.decoder
    let inputs ← witnesses inputs
    if !inputs.isEmpty && inputs.all (fun input => input.witness.isEmpty) then
      throw .missingWitness
    return ⟨version, inputs, outputs, ← Decoder.word⟩
  else
    let outputs ← Decoder.counted TxOut.decoder
    return ⟨version, inputs, outputs, ← Decoder.word⟩

/-- Decode a byte string that holds one transaction and nothing else. -/
def decode (input : Bytes) : Except WireError Transaction :=
  decoder.all input

end Transaction

end ClaimLedger
