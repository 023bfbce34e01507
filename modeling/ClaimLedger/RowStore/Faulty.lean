/-
# A row store that fails on request

To see what an advance does when its database refuses a call, this store fails
in one chosen call and works in all others. A refused commit writes nothing.
The store can also hide how far its rows have come, which an advance must
notice.
-/

import ClaimLedger.RowStore.Access

namespace ClaimLedger

/-- What a faulty store does wrong. -/
inductive RowFault where
  | lastSynced
  | loadSnapshot
  | commit
  /-- The snapshot comes without its height. -/
  | staleSnapshot
  deriving DecidableEq

namespace RowFault

/-- The name of the failing call in messages and requests. -/
def name : RowFault → String
  | lastSynced => "last_synced_height"
  | loadSnapshot => "load_snapshot"
  | commit => "commit"
  | staleSnapshot => "stale"

/-- The fault of a given name. -/
def ofName? (name : String) : Option RowFault :=
  [lastSynced, loadSnapshot, commit, staleSnapshot].find? fun fault => fault.name == name

end RowFault

/-- A row store and what is wrong with it, if anything. -/
structure FaultyRows where
  store : RowStore := RowStore.empty
  fault : Option RowFault := none

namespace FaultyRows

/-- The answer of a call, or the failure that was asked for. -/
def call {α : Type} (rows : FaultyRows) (fault : RowFault) (answer : α) :
    Except (List String) α :=
  if rows.fault = some fault then .error [fault.name ++ " failed", "disk full"]
  else .ok answer

/-- The largest height that any block file has reached. -/
def lastSynced (rows : FaultyRows) : Except (List String) (Option Height) :=
  rows.call .lastSynced rows.store.lastSynced

/-- Every row. -/
def snapshot (rows : FaultyRows) : Except (List String) Snapshot :=
  let snapshot := rows.store.snapshot
  rows.call .loadSnapshot
    (if rows.fault = some .staleSnapshot then { snapshot with height := none } else snapshot)

/-- The calls of the store. -/
def access : RowAccess FaultyRows where
  lastSynced rows := (rows.lastSynced, rows)
  loadSnapshot rows := (rows.snapshot, rows)
  commit batch every rows :=
    match rows.call .commit () with
    | .error causes => (([], .error causes), rows)
    | .ok () =>
      ((batch.reports every, .ok ()), { rows with store := rows.store.commit batch })

end FaultyRows

end ClaimLedger
