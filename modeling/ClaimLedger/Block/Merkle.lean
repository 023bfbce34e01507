/-
# Merkle roots

The root of a list of digests hashes neighbours together level by level until
one digest is left. A level with an odd number of nodes hashes its last node
with itself.
-/

import ClaimLedger.Digest.Sha256

namespace ClaimLedger

namespace Merkle

/-- The node above two nodes. -/
def join (left right : Digest 32) : Digest 32 :=
  sha256Twice (left.bytes ++ right.bytes)

/-- The level above a level. -/
def raise : List (Digest 32) → List (Digest 32)
  | [] => []
  | [last] => [join last last]
  | left :: right :: more => join left right :: raise more

theorem length_raise : ∀ level, (raise level).length = (level.length + 1) / 2
  | [] => by simp [raise]
  | [_] => by simp [raise]
  | _ :: _ :: more => by
    simp only [raise, List.length_cons, length_raise more]
    omega

/-- The root of a list of digests; an empty list has none. -/
def root? : List (Digest 32) → Option (Digest 32)
  | [] => none
  | [only] => some only
  | left :: right :: more => root? (raise (left :: right :: more))
termination_by level => level.length
decreasing_by
  simp only [length_raise, List.length_cons]
  omega

/-- A list that is not empty has a root. -/
theorem exists_root? {level : List (Digest 32)} (nonempty : level ≠ []) :
    ∃ root, root? level = some root := by
  induction level using root?.induct with
  | case1 => exact absurd rfl nonempty
  | case2 only => exact ⟨only, by rw [root?]⟩
  | case3 left right more ih =>
    rw [root?]
    exact ih (List.cons_ne_nil _ _)

end Merkle

end ClaimLedger
