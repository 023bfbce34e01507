/-
# Following a chain

An advance brings the stored rows up to the tip of a chain: it finds the
heights that are missing, checks that the source covers them, and takes run
after run through its stages, each ending in one write of the changed rows
with the cursor of its file. After a failure nothing but the last complete
write counts, and the ledger is loaded from the rows again. A request to stop
is honoured between two runs.
-/

import ClaimLedger.Ledger.View
import ClaimLedger.Progress.Stream
import ClaimLedger.RowStore.Access
import ClaimLedger.Sync.Coverage
import ClaimLedger.Sync.Stage

namespace ClaimLedger

/-- The numbers of blocks, transactions and claim rows between two events. -/
structure Intervals where
  read : Nat
  save : Nat
  claims : Nat
  deriving DecidableEq

/-- How an advance ends when it does not fail. -/
inductive Outcome where
  /-- There was nothing to do. -/
  | upToDate
  /-- Everything after one height, up to and with another, was applied. -/
  | synced (since : Option Height) (reached : Height)
  /-- A request to stop came first; the height is the last one written. -/
  | stopped (reached : Option Height)
  deriving DecidableEq

/-- What an advance works with: the source, the store, whether a stop is
requested, and the intervals. -/
structure Surroundings (σ τ : Type) where
  source : ChainSource σ
  rows : RowAccess τ
  stopRequested : σ → Bool
  intervals : Intervals
  rules : Rules

/-- What an advance changes: the source, the store, the ledger in memory, and
the events published so far. -/
structure SyncState (σ τ : Type) where
  chain : σ
  rows : τ
  ledger : Option Ledger := none
  published : List ProgressEvent := []

/-- A step of an advance. What it changed stays changed when it fails. -/
abbrev SyncM (σ τ α : Type) := ExceptT SyncError (StateM (SyncState σ τ)) α

namespace Sync

variable {σ τ α : Type}

/-- Publish events in order. -/
def publish (events : List ProgressEvent) : SyncM σ τ Unit :=
  modify fun state => { state with published := state.published ++ events }

/-- Go on with a result, or fail. -/
def ofResult : Except SyncError α → SyncM σ τ α
  | .ok value => pure value
  | .error failure => throw failure

/-- Ask the source. -/
def askChain (question : σ → Except SyncError α × σ) : SyncM σ τ α := do
  let state ← get
  let (answer, chain) := question state.chain
  set { state with chain }
  ofResult answer

/-- Ask the store. -/
def askRows (question : τ → Except (List String) α × τ) : SyncM σ τ α := do
  let state ← get
  let (answer, rows) := question state.rows
  set { state with rows }
  match answer with
  | .ok value => return value
  | .error causes => throw (.store causes)

/-- Publish the events of a stage, and go on with its result. -/
def complete (result : StageResult α) : SyncM σ τ α := do
  publish result.1
  ofResult result.2

/-- Bring the ledger in memory to the height of the stored rows. -/
def loadLedger (env : Surroundings σ τ) (synced : Option Height) : SyncM σ τ Unit := do
  let current := (← get).ledger
  unless current.any fun ledger => ledger.height == synced do
    let snapshot ← askRows env.rows.loadSnapshot
    if snapshot.height ≠ synced then
      throw (.store ["snapshot height " ++ optionText wordText snapshot.height ++
        " does not match cursor " ++ optionText wordText synced])
    modify fun state => { state with ledger := some (Ledger.ofSnapshot env.rules snapshot) }

/-- Write a batch, and publish what the store reports of it. -/
def writeBatch (env : Surroundings σ τ) (batch : Batch) : SyncM σ τ Unit := do
  let total := batch.changes.claims.length
  publish (Stage.rowsStart batch.file total)
  let state ← get
  let ((reports, answer), rows) :=
    env.rows.commit batch (max env.intervals.claims 1) state.rows
  set { state with rows }
  publish (Stage.rowEvents batch.file total reports)
  match answer with
  | .ok () => return ()
  | .error causes => throw (.store causes)

/-- Take the blocks of a run through all stages. -/
def applyRun (env : Surroundings σ τ) (run : BlockRun) (raws : List RawBlock) :
    SyncM σ τ Unit := do
  let blocks ← complete (Stage.readBlocks run.file env.intervals.read raws)
  let some ledger := (← get).ledger | throw (.store ["claimtrie not loaded"])
  let ledger ← complete (Stage.saveBlocks run.file env.intervals.save ledger blocks)
  let (changes, ledger) := ledger.takeChanges
  modify fun state => { state with ledger := some ledger }
  writeBatch env ⟨run.file, Stage.reached run blocks, changes⟩

/-- Take runs through all stages, `last` being the height reached so far. The
result is the height reached, and whether a request to stop cut the work
short. -/
def applyRuns (env : Surroundings σ τ) (tip : Height) :
    Option Height → List BlockRun → SyncM σ τ (Option Height × Bool)
  | last, [] => return (last, false)
  | _, run :: more => do
    let raws ← askChain (env.source.readBlocks run)
    applyRun env run raws
    if env.stopRequested (← get).chain && run.last != tip then
      return (some run.last, true)
    applyRuns env tip (some run.last) more

/-- The event that says what is going to be applied. -/
def startEvent (synced : Option Height) (tip : Height) (runs : List BlockRun) (txs : UInt64) :
    ProgressEvent :=
  let before : Int := match synced with
    | none => -1
    | some height => height.toNat
  let blocks := runs.foldr (fun (run : BlockRun) count => run.blocks.toNat + count) 0
  .start before tip runs.length blocks txs.toNat

/-- Apply everything between the stored height and the tip. -/
def advanceFrom (env : Surroundings σ τ) (synced : Option Height) (tip : Height) :
    SyncM σ τ Outcome := do
  let first := Height.next synced
  let runs ← askChain (env.source.blockRuns first tip)
  ofResult (Coverage.check tip first runs)
  let txs ← ofResult (Coverage.countTxs runs)
  publish [startEvent synced tip runs txs]
  loadLedger env synced
  let (last, isStopped) ← applyRuns env tip synced runs
  if isStopped then return .stopped last
  if last ≠ some tip then
    throw (.sourceUnavailable ["block reader stopped at " ++ optionText wordText last ++
      " before tip " ++ wordText tip])
  publish [.block tip]
  return .synced synced tip

/-- Bring the stored rows up to the tip of the chain. -/
def advanceToTip (env : Surroundings σ τ) : SyncM σ τ Outcome := do
  match ← askChain env.source.tipHeight with
  | none => return .upToDate
  | some tip =>
    let synced ← askRows env.rows.lastSynced
    if synced = some Height.top then throw (.number .heightOverflow)
    if tip < Height.next synced then return .upToDate
    advanceFrom env synced tip

/-- An advance: after a failure the ledger in memory is dropped. -/
def advance (env : Surroundings σ τ) (state : SyncState σ τ) :
    Except SyncError Outcome × SyncState σ τ :=
  match (advanceToTip env).run state with
  | (.ok outcome, state) => (.ok outcome, state)
  | (.error failure, state) => (.error failure, { state with ledger := none })

/-- What a following run makes of an advance: its own end, or `none` to go on.
A source that could not be reached is waited out. -/
def verdict : Except SyncError Outcome → Option (Except SyncError Unit)
  | .ok (.stopped _) => some (.ok ())
  | .ok _ => none
  | .error failure => if failure.isRetryable then none else some (.error failure)

/-- Advance once, and again for every notification of new blocks, until a stop
is requested or an advance fails for good. -/
def run (env : Surroundings σ τ) :
    Nat → SyncState σ τ → Except SyncError Unit × SyncState σ τ
  | 0, state =>
    let (result, state) := advance env state
    ((verdict result).getD (.ok ()), state)
  | notifications + 1, state =>
    let (result, state) := advance env state
    match verdict result with
    | some ending => (ending, state)
    | none =>
      if env.stopRequested state.chain then (.ok (), state) else run env notifications state

/-- The state of a name at the height of the ledger in memory. -/
def nameState? (state : SyncState σ τ) (name : Bytes) : Option NameState := do
  let ledger ← state.ledger
  let height ← ledger.height
  return ledger.nameState name height

end Sync

end ClaimLedger
