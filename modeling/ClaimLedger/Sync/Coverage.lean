/-
# Coverage

Before anything is applied, the runs that a source announces are checked
against the heights that are asked for: they have to cover them in order,
without a gap, an overlap or a missing end.
-/

import ClaimLedger.Chain

namespace ClaimLedger

namespace Coverage

/-- Check that runs of blocks cover the heights from the first to the tip. The
height after each run, and the one after the tip, have to exist. -/
def check (tip : Height) : Height → List BlockRun → Except SyncError Unit
  | next, [] =>
    if tip = Height.top then .error (.number .heightOverflow)
    else if next = tip + 1 then .ok ()
    else .error (.corruptBlockData none (some next) (.coverageEnd tip))
  | next, run :: more =>
    if run.first ≠ next ∨ run.last < run.first then
      .error (.corruptBlockData (some run.file) (some next)
        (.coverageGap run.first run.last next))
    else if run.last = Height.top then .error (.number .heightOverflow)
    else check tip (run.last + 1) more

/-- The number of transactions that runs announce. -/
def countTxs : List BlockRun → Except SyncError UInt64
  | [] => .ok 0
  | run :: more => do
    let rest ← countTxs more
    if run.txs + rest < rest then .error (.number .countOverflow) else .ok (run.txs + rest)

end Coverage

end ClaimLedger
