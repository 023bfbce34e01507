/-
# Looking names up

The state of a name at a height lists the controlling claim, the claims that
compete with it, and the claims that still wait, the last two from the oldest
to the newest.
-/

import ClaimLedger.Ledger.Settle

namespace ClaimLedger

/-- The claims on a name as seen at a height. -/
structure NameState where
  /-- The recorded controller, if it competes at that height. -/
  controlling : Option Claim := none
  /-- The other competing claims, oldest first. -/
  active : List Claim := []
  /-- The waiting claims, oldest first. -/
  accepted : List Claim := []
  deriving DecidableEq

namespace Ledger

/-- The state of a name as seen at a height. -/
def nameState (ledger : Ledger) (name : Bytes) (height : Height) : NameState :=
  let controlling := (ledger.controlling? name).filter fun claim => claim.term.isActiveAt height
  let byAge := (ledger.claimsOf (ledger.entry name)).mergeSort fun a b =>
    (Claim.compareAge a b).isLE
  { controlling
    active := byAge.filter fun claim =>
      claim.term.isActiveAt height && some claim.hash != controlling.map Claim.hash
    accepted := byAge.filter fun claim => claim.term.isPendingAt height }

/-- The size of the ledger as a short text. -/
def describe (ledger : Ledger) : String :=
  "ClaimTrie \x7b height: " ++ optionText wordText ledger.height ++ ", claims: " ++
    toString ledger.claims.size ++ ", supports: " ++ toString ledger.supports.size ++
    ", names: " ++ toString ledger.names.size ++ " \x7d"

end Ledger

end ClaimLedger
