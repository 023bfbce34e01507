/-
# Settling who controls a name

A name is settled at a height by comparing the best competing claim with the
recorded controller. Where they differ, everything still waiting under the name
is let in at once and the comparison is made again, because what was waiting
may outrank both; only then does control change hands. Effective amounts and
the name's next date in the schedule are brought up to date in any case.
-/

import ClaimLedger.Error
import ClaimLedger.Ledger.State

namespace ClaimLedger

/-- The first element that no other element comes before. -/
def leastBy? {α : Type} (order : α → α → Ordering) : List α → Option α
  | [] => none
  | first :: rest =>
    match leastBy? order rest with
    | none => some first
    | some best => if order best first = .lt then some best else some first

namespace Ledger

/-- The claims under a name, in the order of their hashes. -/
def claimsOf (ledger : Ledger) (entry : NameEntry) : List Claim :=
  entry.claims.toList.filterMap fun hash => ledger.claims[hash]?

/-- The supports under a name, in the order of their outputs. -/
def supportsOf (ledger : Ledger) (entry : NameEntry) : List Support :=
  entry.supports.toList.filterMap fun outpoint => ledger.supports[outpoint]?

/-- The amounts of the counting supports that a claim has under a name. -/
def supportAmounts (ledger : Ledger) (entry : NameEntry) (height : Height) (claim : ClaimHash) :
    List Amount :=
  ((ledger.supportsOf entry).filter fun support =>
    support.claim == claim && support.term.isActiveAt height).map Support.amount

/-- The amount that counting supports under a name add to a claim, exact as
long as `amountsFit` holds. -/
def supportTotal (ledger : Ledger) (entry : NameEntry) (height : Height) (claim : ClaimHash) :
    Amount :=
  Amount.total (ledger.supportAmounts entry height claim)

/-- The competing claims under a name, each with the amount it competes
with. -/
def competitors (ledger : Ledger) (entry : NameEntry) (height : Height) :
    List (Claim × Amount) :=
  ((ledger.claimsOf entry).filter fun claim => claim.term.isActiveAt height).map fun claim =>
    (claim, claim.amount + ledger.supportTotal entry height claim.hash)

/-- The best competing claim of a name. -/
def bestClaim? (ledger : Ledger) (name : Bytes) (height : Height) : Option ClaimHash :=
  (leastBy? Claim.compareRank (ledger.competitors (ledger.entry name) height)).map fun best =>
    best.1.hash

/-- Let a waiting claim compete from this height on. -/
def admitClaim (height : Height) (ledger : Ledger) (hash : ClaimHash) : Ledger :=
  match ledger.claims[hash]? with
  | some claim =>
    if claim.term.isPendingAt height then
      ledger.putClaim { claim with term := claim.term.activateBy height }
    else ledger
  | none => ledger

/-- Let a waiting support count from this height on. -/
def admitSupport (height : Height) (ledger : Ledger) (outpoint : OutPoint) : Ledger :=
  match ledger.supports[outpoint]? with
  | some support =>
    if support.term.isPendingAt height then
      ledger.putSupport { support with term := support.term.activateBy height }
    else ledger
  | none => ledger

/-- Let everything that waits under a name in at this height. -/
def admitPending (ledger : Ledger) (name : Bytes) (height : Height) : Ledger :=
  let entry := ledger.entry name
  entry.supports.toList.foldl (admitSupport height)
    (entry.claims.toList.foldl (admitClaim height) ledger)

/-- Record a change of control of a name. -/
def setTakeover (ledger : Ledger) (name : Bytes) (takeover : Option Takeover) : Ledger :=
  let ledger := ledger.editEntry name fun entry => { entry with takeover }
  { ledger with dirty.takeovers := ledger.dirty.takeovers.insert name }

/-- Bring control of a name up to date, and report the new controller if it
changed. -/
def updateControl (ledger : Ledger) (name : Bytes) (height : Height) :
    Ledger × Option (Option ClaimHash) :=
  let previous := (ledger.takeover? name).map Takeover.claim
  if ledger.bestClaim? name height = previous then (ledger, none)
  else
    let ledger := ledger.admitPending name height
    let best := ledger.bestClaim? name height
    if best = previous then (ledger, none)
    else (ledger.setTakeover name (best.map fun claim => ⟨claim, height⟩), some best)

/-- The amount a claim should show: everything it competes with, or zero while
it does not compete. -/
def effectiveAmount (ledger : Ledger) (entry : NameEntry) (height : Height) (claim : Claim) :
    Amount :=
  if claim.term.isActiveAt height then
    claim.amount + ledger.supportTotal entry height claim.hash
  else 0

/-- Bring the effective amount of one claim under a name up to date. -/
def refreshClaim (entry : NameEntry) (height : Height) (ledger : Ledger) (hash : ClaimHash) :
    Ledger :=
  match ledger.claims[hash]? with
  | some claim =>
    let effective := ledger.effectiveAmount entry height claim
    if claim.effective = effective then ledger else ledger.putClaim { claim with effective }
  | none => ledger

/-- Bring the effective amounts under a name up to date. -/
def refreshEffective (ledger : Ledger) (name : Bytes) (height : Height) : Ledger :=
  let entry := ledger.entry name
  entry.claims.toList.foldl (refreshClaim entry height) ledger

/-- The heights at which something under a name starts or stops counting. -/
def turningPoints (ledger : Ledger) (entry : NameEntry) : List Height :=
  ((ledger.claimsOf entry).map Claim.term ++ (ledger.supportsOf entry).map Support.term).flatMap
    fun term => [term.activation, term.expiration]

/-- Put a name on the schedule for the next height at which something under it
starts or stops counting. -/
def scheduleNext (ledger : Ledger) (name : Bytes) (height : Height) : Ledger :=
  let later := (ledger.turningPoints (ledger.entry name)).filter fun h => height < h
  match later.min? with
  | none => ledger
  | some next =>
    { ledger with
      schedule := ledger.schedule.insert next ((ledger.schedule[next]?.getD ∅).insert name) }

/-- Settle a name at a height, and report the new controller if control
changed. -/
def settle (ledger : Ledger) (name : Bytes) (height : Height) :
    Ledger × Option (Option ClaimHash) :=
  if ledger.names.contains name then
    let (ledger, change) := ledger.updateControl name height
    ((ledger.refreshEffective name height).scheduleNext name height, change)
  else (ledger, none)

/-- Whether every sum that is taken to settle a name at a height fits into a
word: the counting supports of each claim they name, live or not, and what each
competing claim competes with. Letting waiting rows in only makes these sums
larger, so it is enough to look at a name when it is settled. -/
def amountsFit (ledger : Ledger) (name : Bytes) (height : Height) : Bool :=
  let entry := ledger.entry name
  let backed := (ledger.supportsOf entry).filter fun support => support.term.isActiveAt height
  let competing := (ledger.claimsOf entry).filter fun claim => claim.term.isActiveAt height
  let total (claim : ClaimHash) : Nat :=
    Amount.exactTotal ((backed.filter fun support => support.claim == claim).map Support.amount)
  ((backed.map Support.claim).eraseDups.all fun claim => total claim < Amount.bound) &&
    competing.all fun claim => claim.amount.toNat + total claim.hash < Amount.bound

/-- Whether what is recorded under a name follows the rules at a height. -/
def verify (ledger : Ledger) (name : Bytes) (height : Height) : Except Violation Unit := do
  let claims := ledger.claimsOf (ledger.entry name)
  if let some early := claims.find? fun claim => claim.term.activation < claim.created then
    throw (.activeBeforeCreation early.hash)
  let best := ledger.bestClaim? name height
  match ledger.takeover? name with
  | some takeover =>
    match ledger.claims[takeover.claim]? with
    | none => throw (.missingController takeover.claim)
    | some controller =>
      if !controller.term.isActiveAt height then throw (.inactiveController takeover.claim)
      if best ≠ some takeover.claim then throw (.outrankedController takeover.claim best)
  | none => if best.isSome then throw .noController

end Ledger

end ClaimLedger
