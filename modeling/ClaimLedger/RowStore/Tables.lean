/-
# The tables of the store

On disk the rows are columns. An integer column holds a signed 64-bit word, so
an amount is written with its bits as they are, and a large one shows there as a
negative number; a 32-bit word is written as the number that it is. Everything
else is a byte string. Whether a column has a value of the right kind is found
out only when it is read.
-/

import ClaimLedger.RowStore

namespace ClaimLedger

/-- An integer column. -/
abbrev Column := Int64

namespace Column

/-- Write an amount, bit by bit. -/
def ofAmount (amount : Amount) : Column :=
  amount.toInt64

/-- Read an amount, bit by bit. -/
def amount (column : Column) : Amount :=
  column.toUInt64

/-- Write a 32-bit word. -/
def ofWord (word : UInt32) : Column :=
  word.toUInt64.toInt64

/-- The low half of a column. -/
def lowWord (column : Column) : UInt32 :=
  column.toUInt64.toUInt32

/-- Read a 32-bit word. A number that is none is refused. -/
def word? (column : Column) : Option UInt32 :=
  if 0 ≤ column ∧ column < 0x100000000 then some column.lowWord else none

end Column

/-- The columns of a claim beside its hash. -/
structure ClaimColumns where
  name : Bytes
  txid : Bytes
  vout : Column
  amount : Column
  owner : Bytes
  created : Column
  txIndex : Column
  output : Column
  updated : Column
  activation : Column
  expiration : Column
  effective : Column
  deriving DecidableEq

/-- The columns of a support beside its output. -/
structure SupportColumns where
  name : Bytes
  claim : Bytes
  amount : Column
  created : Column
  activation : Column
  expiration : Column
  deriving DecidableEq

/-- The columns of a record of control beside the name. -/
structure TakeoverColumns where
  claim : Bytes
  height : Column
  deriving DecidableEq

/-! ## Values and columns -/

/-- The columns that a claim is written to. -/
def Claim.columns (claim : Claim) : ClaimColumns where
  name := claim.name
  txid := claim.outpoint.txid.bytes
  vout := .ofWord claim.outpoint.vout
  amount := .ofAmount claim.amount
  owner := claim.owner
  created := .ofWord claim.created
  txIndex := .ofWord claim.position.txIndex
  output := .ofWord claim.position.output
  updated := .ofWord claim.updated
  activation := .ofWord claim.term.activation
  expiration := .ofWord claim.term.expiration
  effective := .ofAmount claim.effective

/-- The columns that a support is written to. -/
def Support.columns (support : Support) : SupportColumns where
  name := support.name
  claim := support.claim.bytes
  amount := .ofAmount support.amount
  created := .ofWord support.created
  activation := .ofWord support.term.activation
  expiration := .ofWord support.term.expiration

/-- The columns that a record of control is written to. -/
def Takeover.columns (takeover : Takeover) : TakeoverColumns where
  claim := takeover.claim.bytes
  height := .ofWord takeover.height

/-- Read a claim. -/
def ClaimColumns.claim? (row : ClaimColumns) (hash : ClaimHash) : Option Claim := do
  let txid ← Digest.ofBytes? 32 row.txid
  let vout ← row.vout.word?
  let created ← row.created.word?
  let txIndex ← row.txIndex.word?
  let output ← row.output.word?
  let updated ← row.updated.word?
  let activation ← row.activation.word?
  let expiration ← row.expiration.word?
  return {
    hash
    name := row.name
    outpoint := ⟨txid, vout⟩
    amount := row.amount.amount
    owner := row.owner
    created
    position := ⟨txIndex, output⟩
    updated
    term := ⟨activation, expiration⟩
    effective := row.effective.amount }

/-- Read a support. -/
def SupportColumns.support? (row : SupportColumns) (outpoint : OutPoint) : Option Support := do
  let claim ← Digest.ofBytes? 20 row.claim
  let created ← row.created.word?
  let activation ← row.activation.word?
  let expiration ← row.expiration.word?
  return {
    outpoint
    name := row.name
    claim
    amount := row.amount.amount
    created
    term := ⟨activation, expiration⟩ }

/-- Read a record of control. -/
def TakeoverColumns.takeover? (row : TakeoverColumns) : Option Takeover := do
  let claim ← Digest.ofBytes? 20 row.claim
  let height ← row.height.word?
  return ⟨claim, height⟩

/-! ## Tables -/

/-- The tables by their keys. -/
structure Tables where
  claims : Std.ExtTreeMap ClaimHash ClaimColumns := ∅
  supports : Std.ExtTreeMap OutPoint SupportColumns := ∅
  takeovers : Std.ExtTreeMap Bytes TakeoverColumns := ∅
  cursors : Std.ExtTreeMap UInt32 Column := ∅

namespace Tables

/-- Tables without rows. -/
def empty : Tables := {}

/-- Write a claim row. Where there is one already, the columns that may change
are set. -/
def upsertClaim (tables : Tables) (claim : Claim) : Tables :=
  let excluded := claim.columns
  let row :=
    match tables.claims[claim.hash]? with
    | none => excluded
    | some old =>
      { old with
        txid := excluded.txid
        vout := excluded.vout
        amount := excluded.amount
        owner := excluded.owner
        updated := excluded.updated
        activation := excluded.activation
        expiration := excluded.expiration
        effective := excluded.effective }
  { tables with claims := tables.claims.insert claim.hash row }

/-- Write a support row. Where there is one already, its term is set. -/
def upsertSupport (tables : Tables) (support : Support) : Tables :=
  let excluded := support.columns
  let row :=
    match tables.supports[support.outpoint]? with
    | none => excluded
    | some old =>
      { old with activation := excluded.activation, expiration := excluded.expiration }
  { tables with supports := tables.supports.insert support.outpoint row }

/-- Write or clear a record of control. -/
def putTakeover (tables : Tables) (row : Bytes × Option Takeover) : Tables :=
  match row.2 with
  | some takeover => { tables with takeovers := tables.takeovers.insert row.1 takeover.columns }
  | none => { tables with takeovers := tables.takeovers.erase row.1 }

/-- Delete a claim row. -/
def deleteClaim (tables : Tables) (hash : ClaimHash) : Tables :=
  { tables with claims := tables.claims.erase hash }

/-- Delete a support row. -/
def deleteSupport (tables : Tables) (outpoint : OutPoint) : Tables :=
  { tables with supports := tables.supports.erase outpoint }

/-- Write a batch and move the cursor of its file. -/
def commit (tables : Tables) (batch : Batch) : Tables :=
  let changes := batch.changes
  let tables := changes.deletedClaims.foldl deleteClaim tables
  let tables := changes.claims.foldl upsertClaim tables
  let tables := changes.deletedSupports.foldl deleteSupport tables
  let tables := changes.supports.foldl upsertSupport tables
  let tables := changes.takeovers.foldl putTakeover tables
  { tables with cursors := tables.cursors.insert batch.file (.ofWord batch.height) }

/-- The largest height among the cursors. -/
def lastSynced (tables : Tables) : Option Height :=
  tables.cursors.values.max?.map Column.lowWord

/-- Read every row. It fails if any column has a value of the wrong kind. -/
def load (tables : Tables) : Option Snapshot := do
  let claims ← tables.claims.toList.mapM fun (hash, row) => row.claim? hash
  let supports ← tables.supports.toList.mapM fun (outpoint, row) => row.support? outpoint
  let takeovers ← tables.takeovers.toList.mapM fun (name, row) =>
    row.takeover?.map fun takeover => (name, takeover)
  return {
    height := tables.lastSynced
    claims := claims.mergeSort fun a b => (RowStore.compareListed a b).isLE
    supports := supports.mergeSort fun a b => (RowStore.compareListedSupports a b).isLE
    takeovers }

end Tables

end ClaimLedger
