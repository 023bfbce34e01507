/-
# Blocks

A block is a header, a count, and that many transactions. Reading one checks
its structure: nothing is missing, nothing is left over, there is at least one
transaction, and the merkle root of the header is that of the transactions.
-/

import ClaimLedger.Block.Header
import ClaimLedger.Block.Merkle
import ClaimLedger.Transaction

namespace ClaimLedger

/-- What is wrong with the bytes of a block. -/
inductive BlockError where
  | tooShort (length : Nat)
  | badCount (cause : WireError)
  | badTransaction (index : Nat) (cause : WireError)
  | noTransactions
  | trailingBytes (count : Nat)
  | merkleMismatch
  deriving DecidableEq

/-- The wording of a refused block. -/
def BlockError.message : BlockError → String
  | tooShort length => "block is " ++ toString length ++ " bytes, shorter than a header"
  | badCount cause => "bad transaction count: " ++ cause.message
  | badTransaction index cause =>
    "transaction " ++ toString index ++ " does not decode: " ++ cause.message
  | noTransactions => "block has no transactions"
  | trailingBytes count => toString count ++ " trailing bytes after the last transaction"
  | merkleMismatch => "merkle root mismatch"

/-- A block. -/
structure Block where
  header : Header
  transactions : List Transaction
  deriving DecidableEq

namespace Header

/-- The header at the front of a block's bytes, and what follows it. -/
def parse (bytes : Bytes) : Except BlockError (Header × Bytes) :=
  match decoder bytes with
  | .error _ => .error (.tooShort bytes.length)
  | .ok result => .ok result

end Header

namespace Block

/-- The name of a block. -/
def hash (block : Block) : BlockHash :=
  block.header.hash

/-- The merkle root of the transactions, whatever the header says. -/
def merkleRoot? (block : Block) : Option (Digest 32) :=
  Merkle.root? (block.transactions.map Transaction.txid)

/-- The block of the given transactions under a header that is adapted to them;
without transactions the header stays as it is. -/
def assemble (header : Header) (transactions : List Transaction) : Block :=
  let root? := Merkle.root? (transactions.map Transaction.txid)
  ⟨{ header with merkleRoot := root?.getD header.merkleRoot }, transactions⟩

/-- The wire form. -/
def encode (block : Block) : Bytes :=
  block.header.encode ++ Encode.counted Transaction.encode block.transactions

/-- The number of transactions that a block announces, and what follows it. -/
def announced (bytes : Bytes) : Except BlockError (Header × Nat × Bytes) := do
  let (header, rest) ← Header.parse bytes
  match Decoder.count rest with
  | .error cause => .error (.badCount cause)
  | .ok (count, rest) => .ok (header, count, rest)

/-- The number of transactions that a block announces, without reading them. -/
def announcedCount (bytes : Bytes) : Except BlockError Nat :=
  (announced bytes).map fun (_, count, _) => count

/-- Read the given number of transactions, the first of which has the given
index. -/
def readTransactions : Nat → Nat → Bytes → Except BlockError (List Transaction × Bytes)
  | 0, _, rest => .ok ([], rest)
  | n + 1, index, bytes =>
    match Transaction.decoder bytes with
    | .error cause => .error (.badTransaction index cause)
    | .ok (tx, rest) => do
      let (more, rest) ← readTransactions n (index + 1) rest
      return (tx :: more, rest)

/-- Read the bytes of a block and check its structure. -/
def parse (bytes : Bytes) : Except BlockError Block := do
  let (header, count, rest) ← announced bytes
  if count = 0 then throw .noTransactions
  let (transactions, rest) ← readTransactions count 0 rest
  if rest ≠ [] then throw (.trailingBytes rest.length)
  let block : Block := ⟨header, transactions⟩
  if block.merkleRoot? ≠ some header.merkleRoot then throw .merkleMismatch
  return block

end Block

end ClaimLedger
