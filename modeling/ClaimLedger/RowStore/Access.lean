/-
# The calls that an advance makes on a store

An advance needs three calls of a store: how far its rows have come, all of its
rows, and one write of changed rows with their cursor. Each may fail, and each
may change the store.
-/

import ClaimLedger.RowStore

namespace ClaimLedger

/-- A store of rows with states in `τ`. A call that fails says why, from the
outermost cause inwards. -/
structure RowAccess (τ : Type) where
  /-- The largest height that any block file has reached. -/
  lastSynced : τ → Except (List String) (Option Height) × τ
  /-- Every row. -/
  loadSnapshot : τ → Except (List String) Snapshot × τ
  /-- Write a batch, and report the running count of claim rows at the given
  interval. -/
  commit : Batch → Nat → τ → (List Nat × Except (List String) Unit) × τ

/-- The row store as it is: no call fails. -/
def RowStore.access : RowAccess RowStore where
  lastSynced store := (.ok store.lastSynced, store)
  loadSnapshot store := (.ok store.snapshot, store)
  commit batch every store := ((batch.reports every, .ok ()), store.commit batch)

end ClaimLedger
