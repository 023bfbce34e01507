/-
# The state of the ledger

The ledger holds every live claim and support, and for each name in use what
lives under it and who controls it. Three indexes repeat parts of that for
speed: the rows of each name, the claim that an output holds, and the heights
at which a name needs another look because something under it starts or stops
counting. Rows that changed since they were last handed out are remembered, so
that a database can follow.
-/

import Std.Data.ExtTreeMap
import Std.Data.ExtTreeSet
import ClaimLedger.Claim
import ClaimLedger.Rules

namespace ClaimLedger

/-- What lives under one name. -/
structure NameEntry where
  claims : Std.ExtTreeSet ClaimHash := ∅
  supports : Std.ExtTreeSet OutPoint := ∅
  /-- The last change of control, while some claim controls the name. -/
  takeover : Option Takeover := none

/-- A name under which nothing lives. -/
def NameEntry.isEmpty (entry : NameEntry) : Bool :=
  entry.claims.isEmpty && entry.supports.isEmpty && entry.takeover.isNone

/-- The rows that changed since they were last handed out. -/
structure Dirty where
  claims : Std.ExtTreeSet ClaimHash := ∅
  deletedClaims : Std.ExtTreeSet ClaimHash := ∅
  supports : Std.ExtTreeSet OutPoint := ∅
  deletedSupports : Std.ExtTreeSet OutPoint := ∅
  takeovers : Std.ExtTreeSet Bytes := ∅

/-- The claims on all names after some block. -/
structure Ledger where
  rules : Rules
  /-- The last applied height, if any block was applied. -/
  height : Option Height := none
  claims : Std.ExtTreeMap ClaimHash Claim := ∅
  supports : Std.ExtTreeMap OutPoint Support := ∅
  names : Std.ExtTreeMap Bytes NameEntry := ∅
  /-- The claim that an output holds. -/
  holdings : Std.ExtTreeMap OutPoint ClaimHash := ∅
  /-- The names that need another look at a height. -/
  schedule : Std.ExtTreeMap Height (Std.ExtTreeSet Bytes) := ∅
  dirty : Dirty := {}

namespace Ledger

/-- The ledger before the first block. -/
def empty (rules : Rules) : Ledger := { rules }

/-- What lives under a name, which may be nothing. -/
def entry (ledger : Ledger) (name : Bytes) : NameEntry :=
  ledger.names[name]?.getD {}

/-- Change what lives under a name, which comes into use if it was not. -/
def editEntry (ledger : Ledger) (name : Bytes) (edit : NameEntry → NameEntry) : Ledger :=
  { ledger with names := ledger.names.insert name (edit (ledger.entry name)) }

/-- Change what lives under a name in use; other names stay out of use. -/
def editUsedEntry (ledger : Ledger) (name : Bytes) (edit : NameEntry → NameEntry) : Ledger :=
  { ledger with names := ledger.names.modify name edit }

/-- The last change of control of a name. -/
def takeover? (ledger : Ledger) (name : Bytes) : Option Takeover :=
  ledger.names[name]?.bind NameEntry.takeover

/-- The recorded controller of a name, competing or not. -/
def controlling? (ledger : Ledger) (name : Bytes) : Option Claim :=
  (ledger.takeover? name).bind fun takeover => ledger.claims[takeover.claim]?

/-- Take a name out of use once nothing lives under it. -/
def prune (ledger : Ledger) (name : Bytes) : Ledger :=
  match ledger.names[name]? with
  | some entry =>
    if entry.isEmpty then { ledger with names := ledger.names.erase name } else ledger
  | none => ledger

/-- Record a claim: a new one, or new contents for the claim of that hash. -/
def putClaim (ledger : Ledger) (claim : Claim) : Ledger :=
  { ledger with
    claims := ledger.claims.insert claim.hash claim
    dirty.claims := ledger.dirty.claims.insert claim.hash }

/-- Record a support: a new one, or new contents for the support in that
output. -/
def putSupport (ledger : Ledger) (support : Support) : Ledger :=
  { ledger with
    supports := ledger.supports.insert support.outpoint support
    dirty.supports := ledger.dirty.supports.insert support.outpoint }

/-- Add a claim that was not there: to the rows, under its name, and as the
holding of its output. -/
def addClaim (ledger : Ledger) (claim : Claim) : Ledger :=
  let ledger := ledger.editEntry claim.name fun entry =>
    { entry with claims := entry.claims.insert claim.hash }
  let ledger := ledger.putClaim claim
  { ledger with
    holdings := ledger.holdings.insert claim.outpoint claim.hash
    dirty.deletedClaims := ledger.dirty.deletedClaims.erase claim.hash }

/-- Add a support to the rows and under its name. -/
def addSupport (ledger : Ledger) (support : Support) : Ledger :=
  let ledger := ledger.editEntry support.name fun entry =>
    { entry with supports := entry.supports.insert support.outpoint }
  let ledger := ledger.putSupport support
  { ledger with dirty.deletedSupports := ledger.dirty.deletedSupports.erase support.outpoint }

/-- Remove a claim from the rows, from its name, and from its output. -/
def removeClaim (ledger : Ledger) (claim : Claim) : Ledger :=
  let ledger := ledger.editUsedEntry claim.name fun entry =>
    { entry with claims := entry.claims.erase claim.hash }
  { ledger with
    claims := ledger.claims.erase claim.hash
    holdings := ledger.holdings.erase claim.outpoint
    dirty.claims := ledger.dirty.claims.erase claim.hash
    dirty.deletedClaims := ledger.dirty.deletedClaims.insert claim.hash }

/-- Remove a support from the rows and from its name. -/
def removeSupport (ledger : Ledger) (support : Support) : Ledger :=
  let ledger := ledger.editUsedEntry support.name fun entry =>
    { entry with supports := entry.supports.erase support.outpoint }
  { ledger with
    supports := ledger.supports.erase support.outpoint
    dirty.supports := ledger.dirty.supports.erase support.outpoint
    dirty.deletedSupports := ledger.dirty.deletedSupports.insert support.outpoint }

end Ledger

end ClaimLedger
