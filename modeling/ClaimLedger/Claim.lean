/-
# Claims, supports and control

A claim bids for a name with the amount in its output, and supports add their
amounts to it. Both wait until their activation height, compete from then on,
and stop counting at their expiration height; a claim outlives neither the
spending of its output nor, as a competitor, its expiration. Among the
competing claims of a name the highest ranking one controls it.
-/

import ClaimLedger.Height
import ClaimLedger.OutPoint

namespace ClaimLedger

/-- The span of heights during which something counts. -/
structure Term where
  /-- The first height at which it counts. -/
  activation : Height
  /-- The first height at which it no longer counts. -/
  expiration : Height
  deriving DecidableEq

namespace Term

/-- It counts at the height. -/
def isActiveAt (term : Term) (height : Height) : Bool :=
  term.activation ≤ height && height < term.expiration

/-- It is accepted, and still waits at the height. -/
def isPendingAt (term : Term) (height : Height) : Bool :=
  height < term.activation && height < term.expiration

/-- Its time is over at the height. -/
def isExpiredAt (term : Term) (height : Height) : Bool :=
  term.expiration ≤ height

/-- Bring a waiting activation forward to the height. An activation never moves
later. -/
def activateBy (term : Term) (height : Height) : Term :=
  if term.isPendingAt height then { term with activation := height } else term

/-- At every height exactly one of the three holds. -/
theorem active_or_pending_or_expired (term : Term) (height : Height) :
    (term.isActiveAt height = true ∨ term.isPendingAt height = true ∨
      term.isExpiredAt height = true) ∧
    ¬ (term.isActiveAt height = true ∧ term.isPendingAt height = true) ∧
    ¬ (term.isActiveAt height = true ∧ term.isExpiredAt height = true) ∧
    ¬ (term.isPendingAt height = true ∧ term.isExpiredAt height = true) := by
  simp only [isActiveAt, isPendingAt, isExpiredAt, Bool.and_eq_true, decide_eq_true_eq,
    UInt32.le_iff_toNat_le, UInt32.lt_iff_toNat_lt]
  omega

end Term

/-- The place of an output in its block. -/
structure Position where
  txIndex : UInt32
  output : UInt32
  deriving DecidableEq

namespace Position

/-- Outputs are ordered by transaction, then by index. -/
instance : Ord Position where
  compare := compareLex (compareOn txIndex) (compareOn output)

instance : Std.TransOrd Position :=
  inferInstanceAs (Std.TransCmp (compareLex (compareOn txIndex) (compareOn output)))

instance : Std.LawfulEqOrd Position where
  eq_of_compare {a b} h := by
    obtain ⟨htx, hout⟩ := compareLex_eq_eq.mp h
    cases a; cases b
    simp only [Position.mk.injEq]
    exact ⟨Std.LawfulEqCmp.eq_of_compare htx, Std.LawfulEqCmp.eq_of_compare hout⟩

end Position

/-- A claim on a name. -/
structure Claim where
  /-- The name of the claim itself, fixed when it is created. -/
  hash : ClaimHash
  /-- The name that is claimed. -/
  name : Bytes
  /-- The output that holds the claim; an update moves it. -/
  outpoint : OutPoint
  /-- The amount in that output. -/
  amount : Amount
  /-- The script of whoever may spend that output. -/
  owner : Bytes
  /-- The height of the creating block. -/
  created : Height
  /-- The place of the creating output in that block. -/
  position : Position
  /-- The height of the last update, or of the creation. -/
  updated : Height
  /-- When the claim competes. -/
  term : Term
  /-- The amount with all counting supports, or zero while the claim does not
  compete. -/
  effective : Amount
  deriving DecidableEq

namespace Claim

/-- Older first: by the creating block, then by the place in it. -/
def compareAge : Claim → Claim → Ordering :=
  compareLex (compareOn created) (compareOn position)

/-- The order in which competing claims rank, each taken with the amount it
competes with: the larger amount first, then the older claim. -/
def compareRank : Claim × Amount → Claim × Amount → Ordering :=
  compareLex (fun a b => compare b.2 a.2) (fun a b => compareAge a.1 b.1)

end Claim

/-- An amount that backs a claim. -/
structure Support where
  /-- The output that holds the amount. -/
  outpoint : OutPoint
  /-- The name under which the claim is backed. -/
  name : Bytes
  /-- The claim that is backed. -/
  claim : ClaimHash
  amount : Amount
  /-- The height of the block that holds the output. -/
  created : Height
  /-- When the support counts. -/
  term : Term
  deriving DecidableEq

/-- A change of control: the new controller and the height of the change. -/
structure Takeover where
  claim : ClaimHash
  height : Height
  deriving DecidableEq

end ClaimLedger
