/-
# What an advance tells

An advance finds out first what there is to do. Until the runs are checked it
tells nothing, and if there is nothing to do, or the check fails, it never does.
Then it says that it starts, and takes the runs in the order of their heights.
Of each run it tells stage by stage how far it has come. A run that fails in some
stage is not told to be through that stage, and is the last one that anything is
told of. The event that the tip is reached comes at the end of an advance that
reaches it, and of no other.
-/

import ClaimLedger.Proofs.Sync.Cursor
import ClaimLedger.Proofs.Sync.Ticks

namespace ClaimLedger

namespace Sync

open Stage (ticks Through Cut Within WithinBlock)

variable {σ τ α : Type} {env : Surroundings σ τ}

/-! ## The survey -/

/-- What an advance has found out when it starts. -/
structure Plan where
  /-- The height of the rows. -/
  synced : Option Height
  tip : Height
  runs : List BlockRun

/-- The event that an advance starts with. -/
def Plan.start (plan : Plan) (txs : UInt64) : ProgressEvent :=
  startEvent plan.synced plan.tip plan.runs txs

/-- An advance up to the check of the runs. There may be nothing to do. -/
def survey (env : Surroundings σ τ) : SyncM σ τ (Option Plan) := do
  match ← askChain env.source.tipHeight with
  | none => return none
  | some tip =>
    let synced ← askRows env.rows.lastSynced
    if synced = some Height.top then throw (.number .heightOverflow)
    if tip < Height.next synced then return none
    let runs ← askChain (env.source.blockRuns (Height.next synced) tip)
    ofResult (Coverage.check tip (Height.next synced) runs)
    return some ⟨synced, tip, runs⟩

/-- The end of an advance, behind the runs. -/
def conclude (plan : Plan) : Option Height × Bool → SyncM σ τ Outcome
  | (last, isStopped) => do
    if isStopped then return .stopped last
    if last ≠ some plan.tip then
      throw (.sourceUnavailable ["block reader stopped at " ++ optionText wordText last ++
        " before tip " ++ wordText plan.tip])
    publish [.block plan.tip]
    return .synced plan.synced plan.tip

/-- An advance behind the check of the runs. -/
def proceed (env : Surroundings σ τ) (plan : Plan) : SyncM σ τ Outcome := do
  let txs ← ofResult (Coverage.countTxs plan.runs)
  publish [plan.start txs]
  loadLedger env plan.synced
  let reached ← applyRuns env plan.tip plan.synced plan.runs
  conclude plan reached

theorem advanceToTip_eq (env : Surroundings σ τ) :
    advanceToTip env = survey env >>= fun
      | none => pure .upToDate
      | some plan => proceed env plan := by
  rw [advanceToTip, survey, bind_assoc]
  refine bind_congr fun tip => ?_
  cases tip with
  | none => rfl
  | some tip =>
    simp only [bind_assoc]
    refine bind_congr fun synced => ?_
    by_cases top : synced = some Height.top
    · simp only [if_pos top]
      rfl
    · simp only [if_neg top]
      by_cases behind : tip < Height.next synced
      · simp only [if_pos behind]
        rfl
      · simp only [if_neg behind, advanceFrom, bind_assoc, pure_bind]
        rfl

/-- The runs of a plan cover the heights between the rows and the tip, of which
there are some. -/
structure Plan.Covers (plan : Plan) : Prop where
  behind : Height.next plan.synced ≤ plan.tip
  covered : Coverage.check plan.tip (Height.next plan.synced) plan.runs = .ok ()

theorem covers_of_survey {plan : Plan} {state next : SyncState σ τ}
    (found : (survey env).run state = (.ok (some plan), next)) : plan.Covers := by
  have ensures : Ensures (fun _ => RowStore.empty) (fun _ _ => True) (survey env)
      (fun found _ _ => ∀ plan, found = some plan → plan.Covers) (fun _ => True) := by
    rw [survey]
    refine (ensures_askChain (fun _ _ _ => trivial) _).bind fun tip => ?_
    cases tip with
    | none => exact Ensures.pure fun _ _ _ _ isNone => by cases isNone
    | some tip =>
      refine (ensures_askRows (fun _ _ _ => trivial) fun _ => rfl).bind fun synced => ?_
      refine Ensures.guard (fun _ _ _ => trivial) fun _ => ?_
      refine Ensures.ite (fun _ => Ensures.pure fun _ _ _ _ isNone => by cases isNone)
        fun behind => ?_
      refine (ensures_askChain (fun _ _ _ => trivial) _).bind fun runs => ?_
      refine (ensures_ofResult (fun _ _ _ => trivial) _).bind fun _ => Ensures.pure ?_
      rintro _ _ ⟨covered, -⟩ _ ⟨⟩
      exact ⟨UInt32.not_lt.mp behind, covered⟩
  have ends := ensures state trivial
  rw [found] at ends
  exact ends plan rfl

/-! ## Steps that tell nothing -/

/-- The step publishes no event. -/
def Silent (step : SyncM σ τ α) : Prop :=
  ∀ state, (step.run state).2.published = state.published

namespace Silent

variable {β : Type}

theorem bind {step : SyncM σ τ α} {more : α → SyncM σ τ β} (first : Silent step)
    (second : ∀ value, Silent (more value)) : Silent (step >>= more) := by
  intro state
  have quiet := first state
  cases ends : step.run state with
  | mk answer next =>
    rw [ends] at quiet
    cases answer with
    | error failure =>
      rw [run_bind_error ends]
      exact quiet
    | ok value =>
      rw [run_bind_ok ends]
      exact (second value next).trans quiet

theorem pure (value : α) : Silent (Pure.pure value : SyncM σ τ α) :=
  fun _ => rfl

theorem throw (failure : SyncError) : Silent (MonadExcept.throw failure : SyncM σ τ α) :=
  fun _ => rfl

theorem ite {condition : Prop} [Decidable condition] {step other : SyncM σ τ α}
    (yes : Silent step) (no : Silent other) : Silent (if condition then step else other) := by
  by_cases holds : condition
  · rw [if_pos holds]
    exact yes
  · rw [if_neg holds]
    exact no

theorem ofResult (answer : Except SyncError α) : Silent (ofResult answer : SyncM σ τ α) := by
  cases answer with
  | error failure => exact throw failure
  | ok value => exact pure value

theorem askChain (question : σ → Except SyncError α × σ) :
    Silent (askChain question : SyncM σ τ α) := by
  intro state
  rw [run_askChain]

theorem askRows (question : τ → Except (List String) α × τ) :
    Silent (askRows question : SyncM σ τ α) := by
  intro state
  rw [run_askRows]

theorem survey (env : Surroundings σ τ) : Silent (survey env) := by
  rw [Sync.survey]
  refine (askChain _).bind fun tip => ?_
  cases tip with
  | none => exact pure none
  | some tip =>
    refine (askRows _).bind fun synced => ?_
    refine ite ((throw _).bind fun _ => ?_) ?_
    · exact ite (pure none) ((askChain _).bind fun _ => (ofResult _).bind fun _ => pure _)
    · exact ite (pure none) ((askChain _).bind fun _ => (ofResult _).bind fun _ => pure _)

theorem loadLedger (env : Surroundings σ τ) (synced : Option Height) :
    Silent (loadLedger env synced) := by
  rw [Sync.loadLedger]
  refine bind (fun _ => rfl) fun state => ?_
  refine ite (pure _) ((askRows _).bind fun snapshot => ?_)
  exact ite ((throw _).bind fun _ => fun _ => rfl) fun _ => rfl

end Silent

theorem ledger_of_loadLedger {synced : Option Height} {state next : SyncState σ τ}
    (loads : (loadLedger env synced).run state = (.ok (), next)) :
    ∃ ledger, next.ledger = some ledger := by
  have ensures : Ensures (fun _ => RowStore.empty) (fun _ _ => True) (loadLedger env synced)
      (fun _ _ ledger => ∃ current, ledger = some current) (fun _ => True) := by
    rw [loadLedger]
    refine ensures_get.bind fun state => Ensures.ite (fun current => Ensures.pure ?_) fun _ => ?_
    · rintro _ _ ⟨-, -, rfl⟩
      cases held : state.ledger with
      | none =>
        rw [held] at current
        cases current
      | some ledger => exact ⟨ledger, rfl⟩
    · refine (ensures_askRows (fun _ _ _ => trivial) fun _ => rfl).bind fun snapshot => ?_
      refine Ensures.guard (fun _ _ _ => trivial) fun _ => ?_
      exact (ensures_setLedger _).finish fun _ _ _ holds => ⟨_, holds.1⟩
  have ends := ensures state trivial
  rw [loads] at ends
  exact ends

/-! ## What is told of a run -/

/-- The blocks of a run are read, and this is told of it. -/
inductive IsRead (env : Surroundings σ τ) (run : BlockRun) (state : SyncState σ τ) :
    Stage.LinkedBlocks → List ProgressEvent → Prop
  | intro {raws : List RawBlock} {blocks : Stage.LinkedBlocks} {steps : List Nat}
      (handed : (env.source.readBlocks run state.chain).1 = .ok raws)
      (parsed : (Stage.readBlocks run.file env.intervals.read raws).2 = .ok blocks)
      (through : Through (Within env.intervals.read) raws.length steps) :
      IsRead env run state blocks (ticks .blockRead run.file raws.length steps)

/-- The blocks of a run are read and applied, and this is told of it. -/
inductive IsSaved (env : Surroundings σ τ) (run : BlockRun) (state : SyncState σ τ) :
    Stage.LinkedBlocks → Ledger → List ProgressEvent → Prop
  | intro {blocks : Stage.LinkedBlocks} {ledger after : Ledger} {events : List ProgressEvent}
      {steps : List Nat} (read : IsRead env run state blocks events)
      (held : state.ledger = some ledger)
      (applied : (Stage.saveBlocks run.file env.intervals.save ledger blocks).2 = .ok after)
      (through : Through (WithinBlock env.intervals.save blocks)
        (Stage.countTransactions blocks) steps) :
      IsSaved env run state blocks after
        (events ++ ticks .blockSave run.file (Stage.countTransactions blocks) steps)

/-- What the store answers to the rows that a run changed. -/
def answer (env : Surroundings σ τ) (run : BlockRun) (blocks : Stage.LinkedBlocks)
    (after : Ledger) (rows : τ) : (List Nat × Except (List String) Unit) × τ :=
  env.rows.commit ⟨run.file, Stage.reached run blocks, after.changes⟩
    (max env.intervals.claims 1) rows

/-- The state in which the source has been asked for the blocks of a run. -/
def fetched (env : Surroundings σ τ) (run : BlockRun) (state : SyncState σ τ) : SyncState σ τ :=
  { state with chain := (env.source.readBlocks run state.chain).2 }

/-- The state in which a run is written, apart from what is told of it. -/
def stored (env : Surroundings σ τ) (run : BlockRun) (blocks : Stage.LinkedBlocks)
    (after : Ledger) (state : SyncState σ τ) : SyncState σ τ :=
  { fetched env run state with
    rows := (answer env run blocks after state.rows).2
    ledger := some after.takeChanges.2 }

/-- A run is written, which leads to the next state, and this is told of it. -/
inductive IsWritten (env : Surroundings σ τ) (run : BlockRun) (state : SyncState σ τ) :
    SyncState σ τ → List ProgressEvent → Prop
  | intro {blocks : Stage.LinkedBlocks} {after : Ledger} {events told : List ProgressEvent}
      {steps : List Nat} (saved : IsSaved env run state blocks after events)
      (committed : (answer env run blocks after state.rows).1.2 = .ok ())
      (through : Through (Within env.intervals.claims) after.changes.claims.length steps)
      (whole : told = events ++ ticks .claimUpdate run.file after.changes.claims.length steps) :
      IsWritten env run state ((stored env run blocks after state).tell told) told

/-- A run is not written, and this is told of it. The stages that it gets through
are told of as ever. -/
inductive IsBroken (env : Surroundings σ τ) (run : BlockRun) (state : SyncState σ τ) :
    SyncError → List ProgressEvent → Prop
  /-- The source does not hand out its blocks. -/
  | source {failure : SyncError}
      (silent : (env.source.readBlocks run state.chain).1 = .error failure) :
      IsBroken env run state failure []
  | read {raws : List RawBlock} {failure : SyncError} {steps : List Nat}
      (handed : (env.source.readBlocks run state.chain).1 = .ok raws)
      (refused : (Stage.readBlocks run.file env.intervals.read raws).2 = .error failure)
      (cut : Cut (Within env.intervals.read) raws.length steps) :
      IsBroken env run state failure (ticks .blockRead run.file raws.length steps)
  | save {blocks : Stage.LinkedBlocks} {ledger : Ledger} {failure : SyncError}
      {events : List ProgressEvent} {steps : List Nat}
      (read : IsRead env run state blocks events) (held : state.ledger = some ledger)
      (refused : (Stage.saveBlocks run.file env.intervals.save ledger blocks).2 = .error failure)
      (cut : Cut (WithinBlock env.intervals.save blocks) (Stage.countTransactions blocks) steps) :
      IsBroken env run state failure
        (events ++ ticks .blockSave run.file (Stage.countTransactions blocks) steps)
  | write {blocks : Stage.LinkedBlocks} {after : Ledger} {causes : List String}
      {events : List ProgressEvent} {steps : List Nat}
      (saved : IsSaved env run state blocks after events)
      (refused : (answer env run blocks after state.rows).1.2 = .error causes)
      (cut : Cut (Within env.intervals.claims) after.changes.claims.length steps) :
      IsBroken env run state (.store causes)
        (events ++ ticks .claimUpdate run.file after.changes.claims.length steps)

/-- A run is written, or it fails, and is told of in that way. -/
def RunTold (env : Surroundings σ τ) (run : BlockRun) (state : SyncState σ τ) :
    Except SyncError Unit × SyncState σ τ → Prop
  | (.ok (), next) => ∃ events, IsWritten env run state next events
  | (.error failure, next) =>
    ∃ events, next.published = state.published ++ events ∧ IsBroken env run state failure events

/-- What is done for a run, from the question for its blocks on. -/
def takeRun (env : Surroundings σ τ) (run : BlockRun) : SyncM σ τ Unit := do
  let raws ← askChain (env.source.readBlocks run)
  applyRun env run raws

/-- What is done for a run once its blocks are read. -/
def saveRun (env : Surroundings σ τ) (run : BlockRun) (blocks : Stage.LinkedBlocks) :
    SyncM σ τ Unit := do
  let some ledger := (← get).ledger | throw (.store ["claimtrie not loaded"])
  let ledger ← complete (Stage.saveBlocks run.file env.intervals.save ledger blocks)
  let (changes, ledger) := ledger.takeChanges
  modify fun state => { state with ledger := some ledger }
  writeBatch env ⟨run.file, Stage.reached run blocks, changes⟩

section Runs

variable {run : BlockRun} {state : SyncState σ τ} {raws : List RawBlock} {failure : SyncError}
variable {blocks : Stage.LinkedBlocks} {ledger after : Ledger} {events : List ProgressEvent}

theorem run_takeRun_of_error
    (silent : (env.source.readBlocks run state.chain).1 = .error failure) :
    (takeRun env run).run state = (.error failure, fetched env run state) := by
  have answers := run_askChain (env.source.readBlocks run) state
  rw [silent] at answers
  rw [takeRun, run_bind_error answers]
  rfl

/-- What the source hands out for a run is read. -/
theorem run_takeRun_of_ok (handed : (env.source.readBlocks run state.chain).1 = .ok raws) :
    (takeRun env run).run state =
      (complete (Stage.readBlocks run.file env.intervals.read raws) >>= saveRun env run).run
        (fetched env run state) := by
  have answers := run_askChain (env.source.readBlocks run) state
  rw [handed] at answers
  rw [takeRun, run_bind_ok answers]
  rfl

theorem run_saveRun_of_error (held : state.ledger = some ledger)
    (refused : (Stage.saveBlocks run.file env.intervals.save ledger blocks).2 = .error failure) :
    (saveRun env run blocks).run state = (.error failure,
      state.tell (Stage.saveBlocks run.file env.intervals.save ledger blocks).1) := by
  have completes := run_complete (Stage.saveBlocks run.file env.intervals.save ledger blocks) state
  rw [refused] at completes
  rw [saveRun, run_get_bind, held]
  exact run_bind_error completes

theorem run_saveRun_of_ok (held : state.ledger = some ledger)
    (applied : (Stage.saveBlocks run.file env.intervals.save ledger blocks).2 = .ok after) :
    (saveRun env run blocks).run ((fetched env run state).tell events) =
      ((answer env run blocks after state.rows).1.2.mapError SyncError.store,
        (((stored env run blocks after state).tell events).tell
          (Stage.saveBlocks run.file env.intervals.save ledger blocks).1).tell
            (Stage.rowsStart run.file after.changes.claims.length ++
              Stage.rowEvents run.file after.changes.claims.length
                (answer env run blocks after state.rows).1.1)) := by
  have completes := run_complete (Stage.saveBlocks run.file env.intervals.save ledger blocks)
    ((fetched env run state).tell events)
  have held : ((fetched env run state).tell events).ledger = some ledger := held
  rw [applied] at completes
  rw [saveRun, run_get_bind, held]
  simp only
  rw [run_bind_ok completes, run_modify_bind, run_writeBatch]
  rfl

theorem IsRead.filled (read : IsRead env run state blocks events) :
    ∀ entry ∈ blocks, entry.2.transactions ≠ [] := by
  cases read with
  | intro _ parsed _ => exact (Stage.readBlocks_eq_ok_iff.mp parsed).1.filled

theorem IsRead.ne_nil (delivers : env.source.Delivers) (inOrder : run.first ≤ run.last)
    (read : IsRead env run state blocks events) : blocks ≠ [] := by
  cases read with
  | intro handed parsed _ =>
    rintro rfl
    have reads := (Stage.readBlocks_eq_ok_iff.mp parsed).1
    exact delivers ⟨inOrder, state.chain, _, Prod.ext handed rfl⟩
      (List.forall₂_nil_right_iff.mp reads)

theorem tells_answer (honest : env.rows.Reports) (run : BlockRun) (blocks : Stage.LinkedBlocks)
    (after : Ledger) (rows : τ) :
    Stage.Tells .claimUpdate run.file (Within env.intervals.claims) after.changes.claims.length
      (Stage.rowsStart run.file after.changes.claims.length ++
          Stage.rowEvents run.file after.changes.claims.length
            (answer env run blocks after rows).1.1,
        (answer env run blocks after rows).1.2.mapError SyncError.store) :=
  Stage.tells_commit honest ⟨run.file, Stage.reached run blocks, after.changes⟩ rfl

/-- Blocks that are read are applied and written, or they fail in one of the two. -/
theorem runTold_saveRun (honest : env.rows.Reports) (nonempty : blocks ≠ [])
    (read : IsRead env run state blocks events) (held : state.ledger = some ledger) :
    RunTold env run state ((saveRun env run blocks).run ((fetched env run state).tell events)) := by
  obtain ⟨saves, saveEvents, saveSteps⟩ :=
    Stage.tells_saveBlocks run.file env.intervals.save ledger nonempty read.filled
  cases applied : (Stage.saveBlocks run.file env.intervals.save ledger blocks).2 with
  | error failure =>
    have isHeld : ((fetched env run state).tell events).ledger = some ledger := held
    rw [applied] at saveSteps
    rw [run_saveRun_of_error isHeld applied, saveEvents, SyncState.tell_tell]
    exact ⟨_, rfl, .save read held applied saveSteps⟩
  | ok after =>
    rw [applied] at saveSteps
    have saved : IsSaved env run state blocks after (events ++ _) :=
      .intro read held applied saveSteps
    obtain ⟨rows, rowEvents, rowSteps⟩ := tells_answer honest run blocks after state.rows
    simp only at rowEvents
    rw [run_saveRun_of_ok held applied, saveEvents, rowEvents, SyncState.tell_tell,
      SyncState.tell_tell]
    cases committed : (answer env run blocks after state.rows).1.2 with
    | error causes =>
      rw [committed] at rowSteps
      exact ⟨_, by rw [List.append_assoc]; rfl, .write saved committed rowSteps⟩
    | ok _ =>
      rw [committed] at rowSteps
      exact ⟨_, .intro saved committed rowSteps (List.append_assoc _ _ _).symm⟩

/-- A run of a source that delivers goes through its stages, or fails in one of
them. -/
theorem runTold_takeRun (delivers : env.source.Delivers) (honest : env.rows.Reports)
    (inOrder : run.first ≤ run.last) (held : state.ledger = some ledger) :
    RunTold env run state ((takeRun env run).run state) := by
  cases handed : (env.source.readBlocks run state.chain).1 with
  | error failure =>
    rw [run_takeRun_of_error handed]
    exact ⟨[], (List.append_nil _).symm, .source handed⟩
  | ok raws =>
    rw [run_takeRun_of_ok handed]
    have nonempty : raws ≠ [] := delivers ⟨inOrder, state.chain, _, Prod.ext handed rfl⟩
    obtain ⟨reads, readEvents, readSteps⟩ :=
      Stage.tells_readBlocks run.file env.intervals.read nonempty
    have completes := run_complete (Stage.readBlocks run.file env.intervals.read raws)
      (fetched env run state)
    cases parsed : (Stage.readBlocks run.file env.intervals.read raws).2 with
    | error failure =>
      rw [parsed] at completes readSteps
      rw [run_bind_error completes, readEvents]
      exact ⟨_, rfl, .read handed parsed readSteps⟩
    | ok blocks =>
      rw [parsed] at completes readSteps
      rw [run_bind_ok completes, readEvents]
      have read : IsRead env run state blocks _ := .intro handed parsed readSteps
      exact runTold_saveRun honest (read.ne_nil delivers inOrder) read held

end Runs

/-! ## What is told of all runs -/

/-- What an advance tells behind the start, for the runs that it has yet to take,
and how it ends. -/
inductive RunsTold (env : Surroundings σ τ) (plan : Plan) :
    List BlockRun → SyncState σ τ → Except SyncError Outcome → List ProgressEvent → Prop
  | synced {state : SyncState σ τ} :
      RunsTold env plan [] state (.ok (.synced plan.synced plan.tip)) [.block plan.tip]
  /-- The run is written, and the advance goes on with the next one. -/
  | written {run : BlockRun} {more : List BlockRun} {state next : SyncState σ τ}
      {result : Except SyncError Outcome} {events later : List ProgressEvent}
      (here : IsWritten env run state next events)
      (goesOn : ¬ (env.stopRequested next.chain = true ∧ run.last ≠ plan.tip))
      (rest : RunsTold env plan more next result later) :
      RunsTold env plan (run :: more) state result (events ++ later)
  /-- The run is written, and then a stop is requested before the tip. -/
  | stopped {run : BlockRun} {more : List BlockRun} {state next : SyncState σ τ}
      {events : List ProgressEvent} (here : IsWritten env run state next events)
      (requested : env.stopRequested next.chain = true) (short : run.last ≠ plan.tip) :
      RunsTold env plan (run :: more) state (.ok (.stopped (some run.last))) events
  | broken {run : BlockRun} {more : List BlockRun} {state : SyncState σ τ}
      {failure : SyncError} {events : List ProgressEvent}
      (here : IsBroken env run state failure events) :
      RunsTold env plan (run :: more) state (.error failure) events

theorem applyRuns_cons (env : Surroundings σ τ) (tip : Height) (last : Option Height)
    (run : BlockRun) (more : List BlockRun) :
    applyRuns env tip last (run :: more) = takeRun env run >>= fun _ => get >>= fun state =>
      if env.stopRequested state.chain && run.last != tip then pure (some run.last, true)
      else applyRuns env tip (some run.last) more := by
  rw [applyRuns, takeRun, bind_assoc]

theorem IsWritten.tell {run : BlockRun} {state next : SyncState σ τ}
    {events : List ProgressEvent} (written : IsWritten env run state next events) :
    (∃ ledger, next.ledger = some ledger) ∧ next.published = state.published ++ events := by
  cases written with
  | intro _ _ _ _ => exact ⟨⟨_, rfl⟩, rfl⟩

/-- Runs that end at the tip are taken in turn, until one is broken or a stop is
requested. -/
theorem runsTold_applyRuns (delivers : env.source.Delivers) (honest : env.rows.Reports)
    {plan : Plan} {last : Option Height} {runs : List BlockRun}
    (inOrder : ∀ run ∈ runs, run.first ≤ run.last)
    (ending : (runs.map BlockRun.last).getLast?.or last = some plan.tip)
    {state : SyncState σ τ} {ledger : Ledger} (held : state.ledger = some ledger) :
    ∃ events,
      ((applyRuns env plan.tip last runs >>= conclude plan).run state).2.published =
        state.published ++ events ∧
      RunsTold env plan runs state
        ((applyRuns env plan.tip last runs >>= conclude plan).run state).1 events := by
  induction runs generalizing last state ledger with
  | nil =>
    obtain rfl : last = some plan.tip := ending
    have ends : (conclude plan (some plan.tip, false) : SyncM σ τ Outcome).run state =
        (.ok (.synced plan.synced plan.tip), state.tell [.block plan.tip]) := by
      rw [conclude, if_neg Bool.false_ne_true, if_neg (not_not.mpr rfl)]
      rfl
    rw [applyRuns, pure_bind, ends]
    exact ⟨_, rfl, .synced⟩
  | cons run more ih =>
    have told := runTold_takeRun delivers honest (inOrder run List.mem_cons_self) held
    rw [applyRuns_cons, bind_assoc]
    cases taken : (takeRun env run).run state with
    | mk answer next =>
      rw [taken] at told
      cases answer with
      | error failure =>
        obtain ⟨events, published, broken⟩ := told
        rw [run_bind_error taken]
        exact ⟨events, published, .broken broken⟩
      | ok _ =>
        obtain ⟨events, written⟩ := told
        obtain ⟨⟨ledger, held⟩, published⟩ := written.tell
        rw [run_bind_ok taken, bind_assoc, run_get_bind]
        by_cases stops : env.stopRequested next.chain = true ∧ run.last ≠ plan.tip
        · rw [if_pos (by simpa using stops), pure_bind]
          exact ⟨events, published, .stopped written stops.1 stops.2⟩
        · have ending : (more.map BlockRun.last).getLast?.or (some run.last) = some plan.tip := by
            rw [← ending, List.map_cons, List.getLast?_cons]
            cases (more.map BlockRun.last).getLast? <;> rfl
          have inOrder := fun other listed => inOrder other (List.mem_cons_of_mem run listed)
          obtain ⟨later, publishedLater, rest⟩ := ih inOrder ending held
          rw [if_neg (by simpa using stops), publishedLater, published, List.append_assoc]
          exact ⟨events ++ later, rfl, .written written stops rest⟩

/-! ## What an advance tells -/

/-- What an advance with a plan tells, and how it ends. -/
inductive PlanTold (env : Surroundings σ τ) (plan : Plan) (surveyed : SyncState σ τ) :
    Except SyncError Outcome → List ProgressEvent → Prop
  /-- The runs announce more transactions than can be counted. -/
  | uncounted {failure : SyncError} (overflow : Coverage.countTxs plan.runs = .error failure) :
      PlanTold env plan surveyed (.error failure) []
  /-- The rows do not give a ledger to start from. -/
  | unloaded {txs : UInt64} {failure : SyncError} (counted : Coverage.countTxs plan.runs = .ok txs)
      (failed : ((loadLedger env plan.synced).run (surveyed.tell [plan.start txs])).1 =
        .error failure) :
      PlanTold env plan surveyed (.error failure) [plan.start txs]
  | started {txs : UInt64} {loaded : SyncState σ τ} {result : Except SyncError Outcome}
      {events : List ProgressEvent} (counted : Coverage.countTxs plan.runs = .ok txs)
      (loads : (loadLedger env plan.synced).run (surveyed.tell [plan.start txs]) =
        (.ok (), loaded))
      (runs : RunsTold env plan plan.runs loaded result events) :
      PlanTold env plan surveyed result (plan.start txs :: events)

/-- What an advance tells, and how it ends. -/
inductive Told (env : Surroundings σ τ) (state : SyncState σ τ) :
    Except SyncError Outcome → List ProgressEvent → Prop
  /-- There is nothing to do. -/
  | upToDate (found : ((survey env).run state).1 = .ok none) : Told env state (.ok .upToDate) []
  /-- The check of the runs fails, or something before it. -/
  | unchecked {failure : SyncError} (failed : ((survey env).run state).1 = .error failure) :
      Told env state (.error failure) []
  /-- There are runs to take, in the order of their heights. -/
  | planned {plan : Plan} {surveyed : SyncState σ τ} {result : Except SyncError Outcome}
      {events : List ProgressEvent}
      (found : (survey env).run state = (.ok (some plan), surveyed))
      (ordered : plan.runs.Pairwise fun earlier later => earlier.last < later.first)
      (told : PlanTold env plan surveyed result events) : Told env state result events

theorem planTold_proceed (delivers : env.source.Delivers) (honest : env.rows.Reports)
    {plan : Plan} (covers : plan.Covers) (surveyed : SyncState σ τ) :
    ∃ events, ((proceed env plan).run surveyed).2.published = surveyed.published ++ events ∧
      PlanTold env plan surveyed ((proceed env plan).run surveyed).1 events := by
  rw [proceed]
  cases counted : Coverage.countTxs plan.runs with
  | error failure => exact ⟨[], (List.append_nil _).symm, .uncounted counted⟩
  | ok txs =>
    have quiet := Silent.loadLedger env plan.synced (surveyed.tell [plan.start txs])
    cases loads : (loadLedger env plan.synced).run (surveyed.tell [plan.start txs]) with
    | mk answer loaded =>
      rw [loads] at quiet
      rw [ofResult, pure_bind, run_bind_ok (run_publish _ _)]
      cases answer with
      | error failure =>
        have failed := congrArg Prod.fst loads
        rw [run_bind_error loads]
        exact ⟨_, quiet, .unloaded counted failed⟩
      | ok _ =>
        obtain ⟨ledger, held⟩ := ledger_of_loadLedger loads
        have ending : (plan.runs.map BlockRun.last).getLast?.or plan.synced = some plan.tip := by
          rw [Coverage.reaches_of_check covers.covered covers.behind]
          rfl
        obtain ⟨events, published, told⟩ := runsTold_applyRuns delivers honest
          (Coverage.inOrder_of_check covers.covered) ending held
        rw [run_bind_ok loads]
        refine ⟨_, ?_, .started counted loads told⟩
        rw [published, quiet]
        exact List.append_assoc _ _ _

theorem told_advanceToTip (delivers : env.source.Delivers) (honest : env.rows.Reports)
    (state : SyncState σ τ) :
    ∃ events, ((advanceToTip env).run state).2.published = state.published ++ events ∧
      Told env state ((advanceToTip env).run state).1 events := by
  have quiet := Silent.survey env state
  rw [advanceToTip_eq]
  cases found : (survey env).run state with
  | mk answer surveyed =>
    rw [found] at quiet
    have answers := congrArg Prod.fst found
    have nothing := quiet.trans (List.append_nil _).symm
    cases answer with
    | error failure =>
      rw [run_bind_error found]
      exact ⟨[], nothing, .unchecked answers⟩
    | ok plan =>
      rw [run_bind_ok found]
      cases plan with
      | none => exact ⟨[], nothing, .upToDate answers⟩
      | some plan =>
        have covers := covers_of_survey found
        obtain ⟨events, published, told⟩ := planTold_proceed delivers honest covers surveyed
        have ordered := (Coverage.ordered_of_check covers.covered).2
        exact ⟨events, by rw [published, quiet], .planned found ordered told⟩

/-! ## The end -/

section Ends

variable {run : BlockRun} {state next : SyncState σ τ} {blocks : Stage.LinkedBlocks}
variable {after : Ledger} {failure : SyncError} {result : Except SyncError Outcome}
variable {plan : Plan} {events : List ProgressEvent} {tip : Height}

theorem block_not_mem_ticks (stage : Stage) (file : UInt32) (total : Nat) (steps : List Nat) :
    .block tip ∉ ticks stage file total steps := by
  intro listed
  obtain ⟨_, _, isBlock⟩ := List.mem_map.mp listed
  cases isBlock

theorem IsRead.block_not_mem (read : IsRead env run state blocks events) :
    .block tip ∉ events := by
  cases read with
  | intro _ _ _ => exact block_not_mem_ticks _ _ _ _

theorem IsSaved.block_not_mem (saved : IsSaved env run state blocks after events) :
    .block tip ∉ events := by
  cases saved with
  | intro read _ _ _ =>
    exact List.not_mem_append read.block_not_mem (block_not_mem_ticks _ _ _ _)

theorem IsWritten.block_not_mem (written : IsWritten env run state next events) :
    .block tip ∉ events := by
  cases written with
  | intro saved _ _ whole =>
    rw [whole]
    exact List.not_mem_append saved.block_not_mem (block_not_mem_ticks _ _ _ _)

theorem IsBroken.block_not_mem (broken : IsBroken env run state failure events) :
    .block tip ∉ events := by
  cases broken with
  | source _ => exact List.not_mem_nil
  | read _ _ _ => exact block_not_mem_ticks _ _ _ _
  | save read _ _ _ => exact List.not_mem_append read.block_not_mem (block_not_mem_ticks _ _ _ _)
  | write saved _ _ => exact List.not_mem_append saved.block_not_mem (block_not_mem_ticks _ _ _ _)

/-- The event that the tip is reached is the last one, if the advance ends there. -/
def EndsWith (result : Except SyncError Outcome) (events : List ProgressEvent) : Prop :=
  ∀ tip, events.getLast? = some (.block tip) ↔ ∃ since, result = .ok (.synced since tip)

theorem EndsWith.of_not_mem (short : ∀ since tip, result ≠ .ok (.synced since tip))
    (free : ∀ tip, .block tip ∉ events) : EndsWith result events := by
  intro tip
  constructor
  · exact fun isLast => absurd (List.mem_of_getLast? isLast) (free tip)
  · rintro ⟨since, isSynced⟩
    exact absurd isSynced (short since tip)

theorem EndsWith.append {earlier : List ProgressEvent} (free : ∀ tip, .block tip ∉ earlier)
    (ends : EndsWith result events) : EndsWith result (earlier ++ events) := by
  intro tip
  rw [← ends tip, List.getLast?_append]
  cases events.getLast? with
  | none =>
    constructor
    · exact fun isLast => absurd (List.mem_of_getLast? isLast) (free tip)
    · rintro ⟨⟩
  | some event => rfl

theorem RunsTold.endsWith {runs : List BlockRun}
    (told : RunsTold env plan runs state result events) : EndsWith result events := by
  induction told with
  | synced =>
    intro tip
    constructor
    · rintro ⟨⟩
      exact ⟨_, rfl⟩
    · rintro ⟨_, ⟨⟩⟩
      rfl
  | written here _ _ ih => exact ih.append fun _ => here.block_not_mem
  | stopped here _ _ => exact .of_not_mem (by rintro _ _ ⟨⟩) fun _ => here.block_not_mem
  | broken here => exact .of_not_mem (by rintro _ _ ⟨⟩) fun _ => here.block_not_mem

theorem PlanTold.endsWith (told : PlanTold env plan state result events) :
    EndsWith result events := by
  have start {txs : UInt64} (tip : Height) : .block tip ∉ [plan.start txs] := by
    intro listed
    cases List.mem_singleton.mp listed
  cases told with
  | uncounted _ => exact .of_not_mem (by rintro _ _ ⟨⟩) fun _ => List.not_mem_nil
  | unloaded _ _ => exact .of_not_mem (by rintro _ _ ⟨⟩) start
  | started _ _ runs => exact runs.endsWith.append start

theorem Told.endsWith (told : Told env state result events) : EndsWith result events := by
  cases told with
  | upToDate _ => exact .of_not_mem (by rintro _ _ ⟨⟩) fun _ => List.not_mem_nil
  | unchecked _ => exact .of_not_mem (by rintro _ _ ⟨⟩) fun _ => List.not_mem_nil
  | planned _ _ told => exact told.endsWith

end Ends

/-- Over a source that delivers, and whatever the intervals and the blocks are,
an advance tells nothing up to the check of the runs. Behind it, it tells of its
start, and then of run after run in the order of their heights, stage by stage:
each stage from zero to its total, in steps that are not too far apart and come
to the total once, unless it fails, and then not to the total. The last event is
that the tip is reached if, and only if, the advance ends there. -/
theorem told_advance (env : Surroundings σ τ) (delivers : env.source.Delivers)
    (honest : env.rows.Reports) (state : SyncState σ τ) :
    ∃ events, (advance env state).2.published = state.published ++ events ∧
      Told env state (advance env state).1 events ∧ EndsWith (advance env state).1 events := by
  obtain ⟨events, published, told⟩ := told_advanceToTip delivers honest state
  rw [advance]
  cases ends : (advanceToTip env).run state with
  | mk answer next =>
    rw [ends] at published told
    cases answer with
    | ok outcome => exact ⟨events, published, told, told.endsWith⟩
    | error failure => exact ⟨events, published, told, told.endsWith⟩

/-- Both blocks of the fork are told of, each in a run of its own, though neither
changes a claim row. -/
theorem told_forkedSource :
    let state : SyncState Bool RowStore := { chain := true, rows := RowStore.empty }
    let events : List ProgressEvent :=
      [.start (-1) 1 2 2 2,
        .progress .blockRead 0 0 1, .progress .blockRead 0 1 1,
        .progress .blockSave 0 0 1, .progress .blockSave 0 1 1, .progress .claimUpdate 0 0 0,
        .progress .blockRead 1 0 1, .progress .blockRead 1 1 1,
        .progress .blockSave 1 0 1, .progress .blockSave 1 1 1, .progress .claimUpdate 1 0 0,
        .block 1]
    (advance forkedSurroundings state).2.published = events ∧
      Told forkedSurroundings state (advance forkedSurroundings state).1 events ∧
        EndsWith (advance forkedSurroundings state).1 events := by
  intro state events
  have published : (advance forkedSurroundings state).2.published = events := by decide +kernel
  obtain ⟨told, same, tells⟩ :=
    told_advance forkedSurroundings delivers_forkedSource RowStore.reports_access state
  obtain rfl : events = told := published.symm.trans same
  exact ⟨published, tells⟩

end Sync

end ClaimLedger
