/-
# Rows in and out of the ledger

The rows of a ledger are enough to rebuild it: the indexes and the schedule
follow from them. Between rebuilds the ledger hands out only the rows that
changed since the last time.
-/

import ClaimLedger.Ledger.Settle

namespace ClaimLedger

/-- Every row of a ledger. -/
structure Snapshot where
  height : Option Height := none
  claims : List Claim := []
  supports : List Support := []
  takeovers : List (Bytes × Takeover) := []
  deriving DecidableEq

/-- The rows that changed. A takeover of `none` clears the record of that
name. -/
structure Changes where
  claims : List Claim := []
  deletedClaims : List ClaimHash := []
  supports : List Support := []
  deletedSupports : List OutPoint := []
  takeovers : List (Bytes × Option Takeover) := []
  deriving DecidableEq

/-- Nothing changed. -/
def Changes.isEmpty (changes : Changes) : Bool :=
  changes.claims.isEmpty && changes.deletedClaims.isEmpty && changes.supports.isEmpty &&
    changes.deletedSupports.isEmpty && changes.takeovers.isEmpty

namespace Ledger

/-- Put a stored claim back. -/
def loadClaim (ledger : Ledger) (claim : Claim) : Ledger :=
  let ledger := ledger.editEntry claim.name fun entry =>
    { entry with claims := entry.claims.insert claim.hash }
  { ledger with
    claims := ledger.claims.insert claim.hash claim
    holdings := ledger.holdings.insert claim.outpoint claim.hash }

/-- Put a stored support back. -/
def loadSupport (ledger : Ledger) (support : Support) : Ledger :=
  let ledger := ledger.editEntry support.name fun entry =>
    { entry with supports := entry.supports.insert support.outpoint }
  { ledger with supports := ledger.supports.insert support.outpoint support }

/-- Put a stored change of control back. -/
def loadTakeover (ledger : Ledger) (row : Bytes × Takeover) : Ledger :=
  ledger.editEntry row.1 fun entry => { entry with takeover := some row.2 }

/-- Rebuild a ledger from its rows. It has no changes to hand out. -/
def ofSnapshot (rules : Rules) (snapshot : Snapshot) : Ledger :=
  let ledger : Ledger := { rules, height := snapshot.height }
  let ledger := snapshot.claims.foldl loadClaim ledger
  let ledger := snapshot.supports.foldl loadSupport ledger
  let ledger := snapshot.takeovers.foldl loadTakeover ledger
  match snapshot.height with
  | none => ledger
  | some height =>
    ledger.names.keys.foldl (fun ledger name => ledger.scheduleNext name height) ledger

/-- Every row of the ledger, by claim hash, by output and by name. -/
def snapshot (ledger : Ledger) : Snapshot where
  height := ledger.height
  claims := ledger.claims.values
  supports := ledger.supports.values
  takeovers := ledger.names.toList.filterMap fun (name, entry) =>
    entry.takeover.map fun takeover => (name, takeover)

/-- The rows that changed since they were last handed out, by claim hash, by
output and by name. -/
def changes (ledger : Ledger) : Changes where
  claims := ledger.dirty.claims.toList.filterMap fun hash => ledger.claims[hash]?
  deletedClaims := ledger.dirty.deletedClaims.toList
  supports := ledger.dirty.supports.toList.filterMap fun outpoint => ledger.supports[outpoint]?
  deletedSupports := ledger.dirty.deletedSupports.toList
  takeovers := ledger.dirty.takeovers.toList.map fun name => (name, ledger.takeover? name)

/-- Hand out the changed rows and forget that they changed. -/
def takeChanges (ledger : Ledger) : Changes × Ledger :=
  (ledger.changes, { ledger with dirty := {} })

end Ledger

namespace Snapshot

/-- The order of outputs by the text that people read. -/
def compareShown : OutPoint → OutPoint → Ordering :=
  compareLex (compareOn fun outpoint => outpoint.txid.reverse) (compareOn OutPoint.vout)

/-- The same rows in the order of the texts that people read: claims by claim
id, supports by transaction id and index. -/
def arranged (snapshot : Snapshot) : Snapshot :=
  { snapshot with
    claims := snapshot.claims.mergeSort fun a b =>
      (compare a.hash.reverse b.hash.reverse).isLE
    supports := snapshot.supports.mergeSort fun a b =>
      (compareShown a.outpoint b.outpoint).isLE }

end Snapshot

end ClaimLedger
