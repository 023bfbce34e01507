/-
# The row store

The store keeps the rows of the ledger between runs, together with a cursor per
block file: the height up to which that file is in the rows. A batch of changes
and its cursor are written as one step. A row that is already there keeps what
the rules never change about it, so a batch changes only the other columns.
-/

import ClaimLedger.Ledger.Snapshot

namespace ClaimLedger

/-- The changes of one block file, with the height they reach. -/
structure Batch where
  file : UInt32
  height : Height
  changes : Changes
  deriving DecidableEq

/-- The running counts at which writing the claim rows of a batch is reported:
every multiple of the interval before the end, and the end itself. An interval
of zero acts as one. -/
def Batch.reports (batch : Batch) (every : Nat) : List Nat :=
  let total := batch.changes.claims.length
  (((List.range total).map (· + 1)).filter fun done =>
    done % max every 1 == 0 && done != total) ++ [total]

/-- The stored rows. -/
structure RowStore where
  claims : Std.ExtTreeMap ClaimHash Claim := ∅
  supports : Std.ExtTreeMap OutPoint Support := ∅
  takeovers : Std.ExtTreeMap Bytes Takeover := ∅
  /-- The height that each block file has reached. -/
  cursors : Std.ExtTreeMap UInt32 Height := ∅

namespace RowStore

/-- A store without rows. -/
def empty : RowStore := {}

/-! ## Writing -/

/-- Write a claim row. The name, the creating block and the place in it stay as
they are in a row that is already there. -/
def upsertClaim (store : RowStore) (claim : Claim) : RowStore :=
  let row :=
    match store.claims[claim.hash]? with
    | none => claim
    | some old =>
      { claim with name := old.name, created := old.created, position := old.position }
  { store with claims := store.claims.insert claim.hash row }

/-- Write a support row. Only the term of a row that is already there
changes. -/
def upsertSupport (store : RowStore) (support : Support) : RowStore :=
  let row :=
    match store.supports[support.outpoint]? with
    | none => support
    | some old => { old with term := support.term }
  { store with supports := store.supports.insert support.outpoint row }

/-- Write or clear the record of who controls a name. -/
def putTakeover (store : RowStore) (row : Bytes × Option Takeover) : RowStore :=
  match row.2 with
  | some takeover => { store with takeovers := store.takeovers.insert row.1 takeover }
  | none => { store with takeovers := store.takeovers.erase row.1 }

/-- Delete a claim row. -/
def deleteClaim (store : RowStore) (hash : ClaimHash) : RowStore :=
  { store with claims := store.claims.erase hash }

/-- Delete a support row. -/
def deleteSupport (store : RowStore) (outpoint : OutPoint) : RowStore :=
  { store with supports := store.supports.erase outpoint }

/-- Write a batch and move the cursor of its file. -/
def commit (store : RowStore) (batch : Batch) : RowStore :=
  let changes := batch.changes
  let store := changes.deletedClaims.foldl deleteClaim store
  let store := changes.claims.foldl upsertClaim store
  let store := changes.deletedSupports.foldl deleteSupport store
  let store := changes.supports.foldl upsertSupport store
  let store := changes.takeovers.foldl putTakeover store
  { store with cursors := store.cursors.insert batch.file batch.height }

/-! ## Reading -/

/-- Listed claims are ordered by age, and claims of one place by the text of
their id. -/
def compareListed : Claim → Claim → Ordering :=
  compareLex Claim.compareAge (compareOn fun claim => claim.hash.reverse)

/-- Listed supports are ordered by the block that holds them, then by output. -/
def compareListedSupports : Support → Support → Ordering :=
  compareLex (compareOn Support.created) (compareOn Support.outpoint)

/-- The claim rows that pass a test, in listing order. -/
def listClaims (store : RowStore) (test : Claim → Bool) : List Claim :=
  (store.claims.values.filter test).mergeSort fun a b => (compareListed a b).isLE

/-- The support rows that pass a test, in listing order. -/
def listSupports (store : RowStore) (test : Support → Bool) : List Support :=
  (store.supports.values.filter test).mergeSort fun a b => (compareListedSupports a b).isLE

/-- The largest height that any block file has reached. -/
def lastSynced (store : RowStore) : Option Height :=
  store.cursors.values.max?

/-- The height that each block file has reached, by file number. -/
def fileCursors (store : RowStore) : List (UInt32 × Height) :=
  store.cursors.toList

/-- Every row. -/
def snapshot (store : RowStore) : Snapshot where
  height := store.lastSynced
  claims := store.listClaims fun _ => true
  supports := store.listSupports fun _ => true
  takeovers := store.takeovers.toList

/-- The claim row of a hash. -/
def claim? (store : RowStore) (hash : ClaimHash) : Option Claim :=
  store.claims[hash]?

/-- The last recorded change of control of a name. -/
def takeover? (store : RowStore) (name : Bytes) : Option Takeover :=
  store.takeovers[name]?

/-- The claim that controls a name at a height: the recorded controller, if it
took over no later and competes there. -/
def controllingClaim? (store : RowStore) (name : Bytes) (height : Height) : Option Claim := do
  let takeover ← store.takeovers[name]?
  guard (takeover.height ≤ height)
  let claim ← store.claims[takeover.claim]?
  guard (claim.term.isActiveAt height)
  return claim

/-- The claims on a name that compete at a height. -/
def activeForName (store : RowStore) (name : Bytes) (height : Height) : List Claim :=
  store.listClaims fun claim => claim.name == name && claim.term.isActiveAt height

/-- The claims on a name that wait at a height. -/
def pendingForName (store : RowStore) (name : Bytes) (height : Height) : List Claim :=
  store.listClaims fun claim => claim.name == name && claim.term.isPendingAt height

/-- The supports under a name that wait at a height. -/
def pendingSupportsForName (store : RowStore) (name : Bytes) (height : Height) : List Support :=
  store.listSupports fun support => support.name == name && support.term.isPendingAt height

/-- Every claim on a name. -/
def claimsForName (store : RowStore) (name : Bytes) : List Claim :=
  store.listClaims fun claim => claim.name == name

/-- Every support of a claim. -/
def supportsForClaim (store : RowStore) (hash : ClaimHash) : List Support :=
  store.listSupports fun support => support.claim == hash

/-- Every claim. -/
def searchClaims (store : RowStore) : List Claim :=
  store.listClaims fun _ => true

end RowStore

end ClaimLedger
