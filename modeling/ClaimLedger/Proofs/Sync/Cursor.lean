/-
# The cursor and the blocks applied

A run that is written moves the cursor of its file. How far is told by the last
block that was handed out for the run, and by the announced end of the run if
there was none. The advance itself reports the announced end in either case. So
the cursor is where the ledger is, as long as a source hands out something for
every run, and what an advance reports is what is stored, as long as what is
handed out ends where the run was said to end. A source that keeps neither of
this makes the cursor run ahead of the blocks applied.
-/

import ClaimLedger.Proofs.Sync.Links

namespace ClaimLedger

variable {σ τ : Type}

/-- The source hands out at least one block for every run. -/
def ChainSource.Delivers (source : ChainSource σ) : Prop :=
  ∀ {run : BlockRun} {raws : List RawBlock}, source.HandsOut run raws → raws ≠ []

/-- What the source hands out for a run ends at the last height of the run. -/
def ChainSource.KeepsEnds (source : ChainSource σ) : Prop :=
  ∀ {run : BlockRun} {raws : List RawBlock}, source.HandsOut run raws →
    (raws.map RawBlock.height).getLast? = some run.last

namespace Stage

variable {file : UInt32} {every : Nat} {raws : List RawBlock} {blocks : LinkedBlocks}

theorem Reads.heights (reads : Reads raws blocks) :
    blocks.map Prod.fst = raws.map RawBlock.height := by
  induction reads with
  | nil => rfl
  | cons here _ ih => rw [List.map_cons, List.map_cons, here.1, ih]

/-- The height that a run reaches is that of the last block handed out. -/
theorem reached_eq_getD (run : BlockRun) (reads : Reads raws blocks) :
    reached run blocks = (raws.map RawBlock.height).getLast?.getD run.last := by
  rw [← reads.heights, List.getLast?_map, reached]
  cases blocks.getLast? <;> rfl

end Stage

namespace Sync

/-! ## Runs with blocks -/

/-- Where the ledger is as high as the rows, a run with blocks moves both to its
last block. -/
theorem level_of_saveBlocks {store : RowStore} {ledger after : Ledger} {every : Nat}
    {run : BlockRun} {blocks : Stage.LinkedBlocks} (level : ledger.height = store.lastSynced)
    (filled : blocks ≠ []) (saves : (Stage.saveBlocks run.file every ledger blocks).2 = .ok after) :
    after.height = some (Stage.reached run blocks) ∧
      (store.commit ⟨run.file, Stage.reached run blocks, after.changes⟩).lastSynced =
        some (Stage.reached run blocks) := by
  obtain ⟨-, count, reached⟩ :=
    Stage.heights_of_applyBlocks (Stage.applyBlocks_of_saveBlocks saves)
  have isLast := List.getLast?_eq_some_getLast filled
  have isReached : Stage.reached run blocks = (blocks.getLast filled).1 := by
    rw [Stage.reached, isLast]
  rw [List.getLast?_map, isLast] at reached
  have reached : after.height = some (Stage.reached run blocks) := by
    rw [reached, isReached]
    rfl
  refine ⟨reached, RowStore.lastSynced_commit fun last stored => ?_⟩
  rw [reached, level, stored] at count
  have count : (Stage.reached run blocks).toNat + 1 = last.toNat + 1 + blocks.length := count
  have further : 0 < blocks.length := List.length_pos_iff.mpr filled
  show last ≤ Stage.reached run blocks
  exact UInt32.le_iff_toNat_le.mpr (by omega)

/-- Where every run had a block, the ledger in memory is as high as the rows, and
what was applied is every height up to there. -/
theorem heights_of_derived {rules : Rules} {runs : List Stage.LinkedBlocks} {store : RowStore}
    {ledger : Option Ledger} (derived : Derived rules runs store ledger)
    (filled : ∀ blocks ∈ runs, blocks ≠ []) :
    runs.flatten.map (fun entry => entry.1.toNat) = List.range (Height.count store.lastSynced) ∧
      ∀ current, ledger = some current → current.height = store.lastSynced := by
  induction derived with
  | start =>
    refine ⟨rfl, ?_⟩
    rintro _ ⟨⟩
  | loaded _ same ih =>
    refine ⟨(ih filled).1, ?_⟩
    rintro _ ⟨⟩
    rw [Ledger.height_ofSnapshot, same.height]
    rfl
  | dropped _ ih =>
    refine ⟨(ih filled).1, ?_⟩
    rintro _ ⟨⟩
  | @saved runs store ledger after _ run blocks _ saves ih =>
    obtain ⟨heights, level⟩ := ih fun other listed => filled other (List.mem_append_left _ listed)
    have level := level ledger rfl
    have filled := filled blocks (List.mem_append_right _ List.mem_cons_self)
    obtain ⟨reached, stored⟩ := level_of_saveBlocks level filled saves
    obtain ⟨taken, count, -⟩ :=
      Stage.heights_of_applyBlocks (Stage.applyBlocks_of_saveBlocks saves)
    rw [level] at taken count
    constructor
    · rw [stored, ← reached, count, List.flatten_append, List.map_append, heights,
        List.flatten_singleton, taken, List.range_add, List.range'_eq_map_range]
    · rintro _ ⟨⟩
      exact reached.trans stored.symm

/-! ## What an advance reports -/

variable {env : Surroundings σ τ} {rows : τ → RowStore}

/-- The advance has come as far as the rows and the ledger in memory. -/
def Level (last : Option Height) (store : RowStore) (ledger : Option Ledger) : Prop :=
  store.lastSynced = last ∧ ∀ current, ledger = some current → current.height = last

theorem kept_level {source : ChainSource σ} (ends : source.KeepsEnds) (rules : Rules) :
    Kept source rules Level where
  started := by
    rintro _ store ledger ⟨rfl, level⟩
    exact ⟨rfl, level⟩
  loaded := by
    rintro _ store ledger snapshot ⟨rfl, -⟩ same
    refine ⟨rfl, ?_⟩
    rintro _ ⟨⟩
    rw [Ledger.height_ofSnapshot, same.height]
    rfl
  dropped := by
    rintro last store ledger ⟨stored, -⟩
    refine ⟨stored, ?_⟩
    rintro _ ⟨⟩
  saved := by
    rintro _ store ledger after run raws blocks _ _ ⟨rfl, level⟩ handed read saves
    have ending := ends handed
    have reads := (Stage.readBlocks_eq_ok_iff.mp read).1
    have isReached : Stage.reached run blocks = run.last := by
      rw [Stage.reached_eq_getD run reads, ending]
      rfl
    have filled : blocks ≠ [] := by
      rintro rfl
      rw [← reads.heights] at ending
      cases ending
    obtain ⟨reached, stored⟩ := level_of_saveBlocks (level ledger rfl) filled saves
    rw [isReached] at reached stored ⊢
    refine ⟨stored, ?_⟩
    rintro _ ⟨⟩
    exact reached

/-! ## One run -/

/-- Where a written run leaves the cursor of its file, and the ledger. -/
theorem ensures_applyRun_cursor (atomic : env.rows.Atomic rows) (run : BlockRun)
    (raws : List RawBlock) (earlier : Option Ledger) :
    Ensures rows (fun _ ledger => ledger = earlier) (applyRun env run raws)
      (fun _ store ledger => ∃ before current, earlier = some before ∧ ledger = some current ∧
        store.cursors[run.file]? = some ((raws.map RawBlock.height).getLast?.getD run.last) ∧
        current.height = (raws.map RawBlock.height).getLast?.or before.height)
      (fun _ => True) := by
  apply ensures_applyRun_of_saved atomic fun _ _ _ => trivial
  rintro store ledger after blocks rfl read saves
  have reads := (Stage.readBlocks_eq_ok_iff.mp read).1
  have reached :=
    (Stage.heights_of_applyBlocks (Stage.applyBlocks_of_saveBlocks saves)).2.2
  refine ⟨⟨ledger, after.takeChanges.2, rfl, rfl, ?_, ?_⟩, trivial⟩
  · rw [RowStore.cursors_commit, Std.ExtTreeMap.getElem?_insert_self,
      Stage.reached_eq_getD run reads]
  · rw [← reads.heights]
    exact reached

/-- Whatever a source hands out, a run that is written leaves the ledger at the
last block of it, and the cursor there too; but without a block the ledger stays
where it is, and the cursor moves on to the announced end of the run. So with a
source that delivers, the stored height is that of the ledger, and what was
applied is every height up to there, once and in order; and with a source that
keeps the announced ends, an advance reports the height that is stored then. -/
theorem cursor_of_reached (atomic : env.rows.Atomic rows) {state : SyncState σ τ}
    (reached : Reached env rows state) :
    (∀ (midway next : SyncState σ τ) (run : BlockRun) (raws : List RawBlock),
      (applyRun env run raws).run midway = (.ok (), next) →
        ∃ before current, midway.ledger = some before ∧ next.ledger = some current ∧
          (rows next.rows).cursors[run.file]? =
            some ((raws.map RawBlock.height).getLast?.getD run.last) ∧
          current.height = (raws.map RawBlock.height).getLast?.or before.height) ∧
    (env.source.Delivers → ∃ runs, Derived env.rules runs (rows state.rows) state.ledger ∧
      runs.flatten.map (fun entry => entry.1.toNat) =
        List.range (Height.count (rows state.rows).lastSynced) ∧
      ∀ current, state.ledger = some current → current.height = (rows state.rows).lastSynced) ∧
    (env.source.KeepsEnds → ∀ (intervals : Intervals) (outcome : Outcome),
      (advance { env with intervals } state).1 = .ok outcome →
        outcome.Reports (rows (advance { env with intervals } state).2.rows).lastSynced) := by
  refine ⟨?_, ?_, ?_⟩
  · intro midway next run raws written
    have ensures := ensures_applyRun_cursor atomic run raws midway.ledger midway rfl
    rw [written] at ensures
    exact ensures
  · intro delivers
    have passes {run : BlockRun} {raws : List RawBlock} {blocks : Stage.LinkedBlocks}
        (handed : env.source.HandsOut run raws) (reads : Stage.Reads raws blocks)
        (_ : blocks.IsChain Stage.Follows) : blocks ≠ [] := by
      rintro rfl
      exact delivers handed (List.forall₂_nil_right_iff.mp reads)
    obtain ⟨runs, derived, filled⟩ := derivedFrom_of_reached atomic passes reached
    exact ⟨runs, derived, heights_of_derived derived filled⟩
  · intro ends intervals outcome result
    have kept : Kept (Surroundings.source { env with intervals })
        (Surroundings.rules { env with intervals }) Level := kept_level ends env.rules
    have start : ∃ last, Level last RowStore.empty none := by
      refine ⟨none, rfl, ?_⟩
      rintro _ ⟨⟩
    have level := (kept_level ends env.rules).of_reached atomic start reached
    obtain ⟨last, ⟨stored, -⟩, reports⟩ := kept.advance atomic level
    rw [stored]
    exact reports outcome result

theorem keepsEnds_forkedSource : forkedSource.KeepsEnds := by
  rintro run raws ⟨inOrder, state, next, read⟩
  cases read
  rw [List.map_map, ← getLast?_heightsFrom inOrder]
  exact congrArg List.getLast? (List.map_id _)

theorem delivers_forkedSource : forkedSource.Delivers := by
  rintro run raws handed rfl
  cases keepsEnds_forkedSource handed

/-- The source of the fork keeps the ends that it announced. Where it has heard of
the second block, the first one is stored and applied. The run of the second one
moves the cursor and the ledger there, and an advance reports that height. -/
theorem cursor_forkedState :
    (∃ next before current,
      (applyRun forkedSurroundings ⟨1, 1, 1, 1, 1⟩
        [⟨1, (forkedBlocks[1]?.map Block.encode).getD []⟩]).run forkedState = (.ok (), next) ∧
      forkedState.ledger = some before ∧ next.ledger = some current ∧
      next.rows.cursors[(1 : UInt32)]? = some 1 ∧ current.height = some 1) ∧
    (∃ runs, Derived Rules.regtest runs forkedState.rows forkedState.ledger ∧
      runs.flatten.map (fun entry => entry.1.toNat) = List.range 1 ∧
      ∀ current, forkedState.ledger = some current → current.height = some 0) ∧
    (advance forkedSurroundings forkedState).2.rows.lastSynced = some 1 := by
  have reached : Reached forkedSurroundings (fun rows => rows) forkedState := by
    apply Reached.befall true
    · apply Reached.advance forkedSurroundings.intervals
      exact Reached.start rfl
    · rfl
  have stored : forkedState.rows.lastSynced = some 0 := by decide +kernel
  have isOk : ((applyRun forkedSurroundings ⟨1, 1, 1, 1, 1⟩
      [⟨1, (forkedBlocks[1]?.map Block.encode).getD []⟩]).run forkedState).1.isOk = true := by
    decide +kernel
  have result : (advance forkedSurroundings forkedState).1.toOption =
      some (.synced (some 0) 1) := by decide +kernel
  obtain ⟨written, applied, reports⟩ := cursor_of_reached RowStore.atomic_access reached
  refine ⟨?_, ?_, ?_⟩
  · cases runs : (applyRun forkedSurroundings ⟨1, 1, 1, 1, 1⟩
        [⟨1, (forkedBlocks[1]?.map Block.encode).getD []⟩]).run forkedState with
    | mk answer next =>
      rw [runs] at isOk
      cases answer with
      | error failure => cases isOk
      | ok _ =>
        obtain ⟨before, current, holds⟩ := written _ _ _ _ runs
        exact ⟨next, before, current, rfl, holds⟩
  · have applied := applied delivers_forkedSource
    rw [stored] at applied
    exact applied
  · have reports := reports keepsEnds_forkedSource forkedSurroundings.intervals
    cases answer : (advance forkedSurroundings forkedState).1 with
    | error failure =>
      rw [answer] at result
      cases result
    | ok outcome =>
      rw [answer] at result
      cases result
      exact reports _ answer

/-! ## A source that leaves blocks out -/

/-- A source that announces two blocks in one run. Its state tells whether it has
anything to hand out for the run: if so, it is the first of them. -/
def scantSource : ChainSource Bool where
  tipHeight has := (.ok (some 1), has)
  blockRuns first tip has := (.ok [⟨0, first, tip, tip - first + 1, 1⟩], has)
  readBlocks run has :=
    (.ok (if has then [⟨run.first, (forkedBlocks[0]?.map Block.encode).getD []⟩] else []), has)

def scantSurroundings : Surroundings Bool RowStore :=
  { forkedSurroundings with source := scantSource }

/-- The advance over a source that hands out the first of the two blocks, or
none. -/
def scantAdvance (has : Bool) : Except SyncError Outcome × SyncState Bool RowStore :=
  advance scantSurroundings { chain := has, rows := RowStore.empty }

/-- Without the second block, an advance reports it all the same. Without any
block, the cursor moves behind the second one, though nothing was applied. -/
theorem synced_scant :
    (scantAdvance true).1.toOption = some (.synced none 1) ∧
      (scantAdvance true).2.rows.lastSynced = some 0 ∧
      (scantAdvance false).1.toOption = some (.synced none 1) ∧
      (scantAdvance false).2.rows.lastSynced = some 1 ∧
      (scantAdvance false).2.ledger.bind Ledger.height = none ∧
      (scantAdvance false).2.ledger.isSome = true := by
  decide +kernel

end Sync

end ClaimLedger
