/-
# Advances that are cut short

An advance may end anywhere: the source may hide its tip, refuse to answer or
hand out corrupt bytes, the store may refuse a call, a stop may be requested, and
the process may end and start again. None of it shows in the stored rows. They
are always those of the chain up to the height they have reached, written one
run after the other, and the next advance goes on from there.
-/

import ClaimLedger.Proofs.Sync.Stages
import ClaimLedger.Proofs.Sync.Steps

namespace ClaimLedger

variable {σ τ : Type}

/-! ## What an advance works with -/

/-- A source presents a chain if it reads bytes for the heights of a run that may
be handed out for them. How high it says the chain is, how it cuts the chain into
runs, and which questions it does not answer is left to it. -/
def ChainSource.Presents (source : ChainSource σ) (chain : List Block) : Prop :=
  ∀ {run : BlockRun} {state next : σ} {raws : List RawBlock},
    source.readBlocks run state = (.ok raws, next) →
      raws.map RawBlock.height = heightsFrom run.first run.last ∧
        ∀ raw ∈ raws, raw.Shows chain run.first

/-- The source announced these runs for the blocks above a height. -/
def ChainSource.Announces (source : ChainSource σ) (last : Option Height)
    (runs : List BlockRun) : Prop :=
  ∃ tip state, (source.blockRuns (Height.next last) tip state).1 = .ok runs

/-- A store that answers from its rows, where it answers, and writes a batch as a
whole or not at all. A write that is reported to have failed may yet have been
made. -/
structure RowAccess.Atomic (access : RowAccess τ) (rows : τ → RowStore) : Prop where
  lastSynced : ∀ {state last}, (access.lastSynced state).1 = .ok last →
    last = (rows state).lastSynced
  lastSynced_rows : ∀ state, rows (access.lastSynced state).2 = rows state
  loadSnapshot : ∀ {state snapshot}, (access.loadSnapshot state).1 = .ok snapshot →
    (rows state).snapshot.Same snapshot
  loadSnapshot_rows : ∀ state, rows (access.loadSnapshot state).2 = rows state
  commit : ∀ {batch every state}, (access.commit batch every state).1.2 = .ok () →
    rows (access.commit batch every state).2 = (rows state).commit batch
  commit_rows : ∀ batch every state, rows (access.commit batch every state).2 = rows state ∨
    rows (access.commit batch every state).2 = (rows state).commit batch

/-- The row store answers every call from its rows. -/
theorem RowStore.atomic_access : RowStore.access.Atomic fun rows => rows where
  lastSynced := fun answer => by cases answer; rfl
  lastSynced_rows := fun _ => rfl
  loadSnapshot := fun answer => by cases answer; exact Snapshot.Same.refl _
  loadSnapshot_rows := fun _ => rfl
  commit := fun _ => rfl
  commit_rows := fun _ _ _ => .inr rfl

/-- The store after some runs were written, each by one batch, and each time with
the rows of the chain up to the last height of the run. -/
inductive RowStore.Committed (rules : Rules) (chain : List Block) (before : RowStore) :
    List BlockRun → RowStore → Prop where
  | none : Committed rules chain before [] before
  | more {done : List BlockRun} {store : RowStore} (run : BlockRun) (changes : Changes) :
      Committed rules chain before done store →
      (store.commit ⟨run.file, run.last, changes⟩).lastSynced = some run.last →
      (store.commit ⟨run.file, run.last, changes⟩).Reflects rules (chain.map BlockTx.ofBlock) →
      Committed rules chain before (done ++ [run]) (store.commit ⟨run.file, run.last, changes⟩)

theorem RowStore.Committed.reflects {rules : Rules} {chain : List Block}
    {before after : RowStore} {done : List BlockRun}
    (committed : before.Committed rules chain done after)
    (reflects : before.Reflects rules (chain.map BlockTx.ofBlock)) :
    after.Reflects rules (chain.map BlockTx.ofBlock) := by
  cases committed with
  | none => exact reflects
  | more _ _ _ _ reflects => exact reflects

/-- What an outcome says about the store before and after the advance. -/
def Outcome.Tells (before after : RowStore) : Outcome → Prop
  | .upToDate => after = before
  | .synced since reached => since = before.lastSynced ∧ after.lastSynced = some reached
  | .stopped reached => reached = after.lastSynced

namespace Sync

/-- Nothing was written, or the first few of the runs that the source
announced. -/
def WholeRuns (source : ChainSource σ) (rules : Rules) (chain : List Block)
    (before after : RowStore) : Prop :=
  after = before ∨ ∃ runs done, source.Announces before.lastSynced runs ∧ done <+: runs ∧
    before.Committed rules chain done after

/-- What an advance makes of the store, however it ends. -/
structure Advanced (source : ChainSource σ) (rules : Rules) (chain : List Block)
    (before after : RowStore) (result : Except SyncError Outcome) : Prop where
  reflects : after.Reflects rules (chain.map BlockTx.ofBlock)
  wholeRuns : WholeRuns source rules chain before after
  told : ∀ outcome, result = .ok outcome → outcome.Tells before after

/-- The states that an advance may find: the first one is that of an empty store,
and whatever happened since was an advance, something that befell the source or
the connection to the store, or a new start with the rows as they were. -/
inductive Reached (env : Surroundings σ τ) (rows : τ → RowStore) : SyncState σ τ → Prop where
  | start {chain : σ} {access : τ} :
      rows access = RowStore.empty → Reached env rows { chain, rows := access }
  | advance {state : SyncState σ τ} (intervals : Intervals) :
      Reached env rows state → Reached env rows (Sync.advance { env with intervals } state).2
  | befall {state : SyncState σ τ} (chain : σ) {access : τ} :
      Reached env rows state → rows access = rows state.rows →
      Reached env rows { state with chain, rows := access }
  | restart {state : SyncState σ τ} :
      Reached env rows state → Reached env rows { state with ledger := none, published := [] }

/-! ## One advance, step by step -/

/-- Between two advances the store reflects the chain, and it carries the ledger
in memory, if there is one. -/
structure Ready (rules : Rules) (chain : List Block) (store : RowStore)
    (ledger : Option Ledger) : Prop where
  reflects : store.Reflects rules (chain.map BlockTx.ofBlock)
  carried : ∀ current, ledger = some current →
    Carried rules (chain.map BlockTx.ofBlock) store current

/-- Between two runs of an advance, the ones that are done are written, and the
ledger in memory is as high as the store. -/
structure Underway (rules : Rules) (chain : List Block) (before : RowStore)
    (done : List BlockRun) (store : RowStore) (ledger : Option Ledger) : Prop where
  committed : before.Committed rules chain done store
  carried : ∃ current, ledger = some current ∧
    Carried rules (chain.map BlockTx.ofBlock) store current ∧ current.height = store.lastSynced

theorem WholeRuns.reflects {source : ChainSource σ} {rules : Rules} {chain : List Block}
    {before after : RowStore} (wholeRuns : WholeRuns source rules chain before after)
    (reflects : before.Reflects rules (chain.map BlockTx.ofBlock)) :
    after.Reflects rules (chain.map BlockTx.ofBlock) := by
  rcases wholeRuns with rfl | ⟨_, _, -, -, committed⟩
  · exact reflects
  · exact committed.reflects reflects

variable {env : Surroundings σ τ} {rows : τ → RowStore} {chain : List Block}
variable {before : RowStore} {done : List BlockRun} {failed : RowStore → Prop}

/-- Whether the ledger in memory is used or loaded anew, the store carries it at
its own height. -/
theorem ensures_loadLedger (atomic : env.rows.Atomic rows)
    (fresh : Fresh (chain.map BlockTx.ofBlock)) (fall : failed before) :
    Ensures rows
      (fun store ledger => store = before ∧ Ready env.rules chain store ledger)
      (loadLedger env before.lastSynced)
      (fun _ store ledger => store.lastSynced = before.lastSynced ∧
        Underway env.rules chain before [] store ledger)
      failed := by
  have fall (store : RowStore) (same : store = before) : failed store := by
    rw [same]
    exact fall
  have loads : Ensures rows
      (fun store ledger => store = before ∧ Ready env.rules chain store ledger)
      (askRows env.rows.loadSnapshot : SyncM σ τ Snapshot)
      (fun snapshot store _ => before.snapshot.Same snapshot ∧ store = before ∧
        store.Reflects env.rules (chain.map BlockTx.ofBlock))
      failed := by
    refine (ensures_askRows (fun store _ holds => fall store holds.1)
      atomic.loadSnapshot_rows).finish ?_
    rintro snapshot _ ledger ⟨⟨state, rfl, answer⟩, same, ready⟩
    rw [← same]
    exact ⟨atomic.loadSnapshot answer, rfl, ready.reflects⟩
  rw [loadLedger]
  refine ensures_get.bind fun state => ?_
  refine Ensures.ite (fun current => Ensures.pure ?_) fun _ => ?_
  · rintro _ _ ⟨⟨rfl, ready⟩, -, rfl⟩
    cases held : state.ledger with
    | none =>
      rw [held] at current
      cases current
    | some ledger =>
      rw [held] at current
      exact ⟨rfl, .none, ledger, rfl, ready.carried ledger held, eq_of_beq current⟩
  · refine (loads.start fun _ _ holds => holds.1).bind fun snapshot => ?_
    refine Ensures.guard (fun store _ holds => fall store holds.2.1) fun _ => ?_
    apply (ensures_setLedger _).finish
    rintro _ _ ledger ⟨isLedger, _, same, rfl, reflects⟩
    obtain ⟨carried, height⟩ := Carried.of_reflects fresh reflects same
    exact ⟨rfl, .none, _, isLedger, carried, height⟩

/-- A run that gets through its stages is saved as a whole. One that does not has
left the rows as they were, or written them all the same. -/
theorem ensures_applyRun_of_saved (atomic : env.rows.Atomic rows) {run : BlockRun}
    {raws : List RawBlock} {before said : RowStore → Option Ledger → Prop}
    (fall : ∀ store ledger, before store ledger → failed store)
    (saved : ∀ {store : RowStore} {ledger after : Ledger} {blocks : Stage.LinkedBlocks},
      before store (some ledger) →
        (Stage.readBlocks run.file env.intervals.read raws).2 = .ok blocks →
          (Stage.saveBlocks run.file env.intervals.save ledger blocks).2 = .ok after →
            said (store.commit ⟨run.file, Stage.reached run blocks, after.changes⟩)
              (some after.takeChanges.2) ∧
            failed (store.commit ⟨run.file, Stage.reached run blocks, after.changes⟩)) :
    Ensures rows before (applyRun env run raws) (fun _ => said) failed := by
  rw [applyRun]
  refine (ensures_complete fall _).bind fun blocks => Ensures.of_imp fun read => ?_
  refine ensures_get.bind fun state => ?_
  cases held : state.ledger with
  | none => exact Ensures.throw fun _ _ holds => fall _ _ holds.1
  | some ledger =>
    refine (ensures_complete (fun _ _ holds => fall _ _ holds.1) _).bind
      fun after => Ensures.of_imp fun saves => ?_
    refine (ensures_setLedger after.takeChanges.2).bind fun _ => ?_
    rintro state ⟨isCurrent, _, holds, -, rfl⟩
    obtain ⟨written, writtenYet⟩ := saved holds read saves
    rw [run_writeBatch]
    cases answer : (env.rows.commit ⟨run.file, Stage.reached run blocks, after.changes⟩
        (max env.intervals.claims 1) state.rows).1.2 with
    | error causes =>
      simp only [Except.mapError, SyncState.rows_tell]
      rcases atomic.commit_rows ⟨run.file, Stage.reached run blocks, after.changes⟩
        (max env.intervals.claims 1) state.rows with same | made
      · rw [same]
        exact fall _ _ holds
      · rw [made]
        exact writtenYet
    | ok _ =>
      simp only [Except.mapError, SyncState.rows_tell, SyncState.ledger_tell]
      rw [atomic.commit answer, isCurrent]
      exact written

/-- A run that gets through is written, and one that fails may be. -/
theorem ensures_applyRun (atomic : env.rows.Atomic rows)
    (fresh : Fresh (chain.map BlockTx.ofBlock)) {run : BlockRun} {raws : List RawBlock}
    (heights : raws.map RawBlock.height = heightsFrom run.first run.last)
    (shows : ∀ raw ∈ raws, raw.Shows chain run.first) (inOrder : run.first ≤ run.last)
    (fall : ∀ store, before.Committed env.rules chain done store ∨
      before.Committed env.rules chain (done ++ [run]) store → failed store) :
    Ensures rows
      (Underway env.rules chain before done)
      (applyRun env run raws)
      (fun _ store ledger => store.lastSynced = some run.last ∧
        Underway env.rules chain before (done ++ [run]) store ledger)
      failed := by
  apply ensures_applyRun_of_saved atomic
    fun store _ underway => fall store (.inl underway.committed)
  intro store ledger after blocks underway read saves
  obtain ⟨heights, listed⟩ := Stage.of_readBlocks heights shows read
  obtain ⟨_, ⟨⟩, carried, -⟩ := underway.carried
  obtain ⟨carried, height⟩ :=
    Stage.carried_saveBlocks fresh carried heights inOrder listed saves
  rw [Stage.reached_eq heights inOrder]
  obtain ⟨last, reflects, further⟩ := carried.commit fresh height run.file
  have written := underway.committed.more run after.changes last reflects
  have carriesOn : Underway env.rules chain before (done ++ [run]) _ (some after.takeChanges.2) :=
    ⟨written, after.takeChanges.2, rfl, further, height.trans last.symm⟩
  exact ⟨⟨last, carriesOn⟩, fall _ (.inr written)⟩

/-- Of all runs, the first few are written, up to the one that fails or after
which a stop is requested. -/
theorem ensures_applyRuns (presents : env.source.Presents chain) (atomic : env.rows.Atomic rows)
    (fresh : Fresh (chain.map BlockTx.ofBlock)) {tip : Height} {last : Option Height}
    {runs all : List BlockRun} (inOrder : ∀ run ∈ runs, run.first ≤ run.last)
    (whole : done ++ runs = all)
    (fall : ∀ done store, done <+: all → before.Committed env.rules chain done store →
      failed store) :
    Ensures rows
      (fun store ledger => store.lastSynced = last ∧
        Underway env.rules chain before done store ledger)
      (applyRuns env tip last runs)
      (fun result store ledger => store.lastSynced = result.1 ∧ ∃ done, done <+: all ∧
        Underway env.rules chain before done store ledger)
      failed := by
  induction runs generalizing done last with
  | nil =>
    rw [applyRuns]
    exact Ensures.pure fun store ledger holds => ⟨holds.1, done, ⟨[], whole⟩, holds.2⟩
  | cons run more ih =>
    have behind : (done ++ [run]) ++ more = all := by
      rw [List.append_assoc]
      exact whole
    have untouched (store : RowStore) (committed : before.Committed env.rules chain done store) :
        failed store := fall done store ⟨run :: more, whole⟩ committed
    rw [applyRuns]
    refine (ensures_askChain (fun store _ holds => untouched store holds.2.committed) _).bind
      fun raws => Ensures.of_imp fun read => ?_
    obtain ⟨state, next, read⟩ := read
    obtain ⟨heights, shows⟩ := presents read
    have first : Ensures rows
        (fun store ledger => store.lastSynced = last ∧
          Underway env.rules chain before done store ledger)
        (applyRun env run raws)
        (fun _ store ledger => store.lastSynced = some run.last ∧
          Underway env.rules chain before (done ++ [run]) store ledger)
        failed := by
      refine (ensures_applyRun atomic fresh heights shows (inOrder run List.mem_cons_self)
        ?_).start fun _ _ holds => holds.2
      rintro store (committed | committed)
      · exact untouched store committed
      · exact fall (done ++ [run]) store ⟨more, behind⟩ committed
    refine first.bind fun _ => ensures_get.bind fun state => ?_
    refine Ensures.ite (fun _ => Ensures.pure ?_) fun _ => ?_
    · rintro store ledger ⟨⟨last, underway⟩, -⟩
      exact ⟨last, done ++ [run], ⟨more, behind⟩, underway⟩
    · have later (other : BlockRun) (listed : other ∈ more) : other.first ≤ other.last :=
        inOrder other (List.mem_cons_of_mem run listed)
      exact (ih later behind).start fun _ _ holds => holds.1

theorem ensures_advanceFrom (presents : env.source.Presents chain)
    (atomic : env.rows.Atomic rows) (fresh : Fresh (chain.map BlockTx.ofBlock))
    (reflects : before.Reflects env.rules (chain.map BlockTx.ofBlock)) {tip : Height} :
    Ensures rows
      (fun store ledger => store = before ∧ Ready env.rules chain store ledger)
      (advanceFrom env before.lastSynced tip)
      (fun outcome store ledger => outcome.Tells before store ∧
        WholeRuns env.source env.rules chain before store ∧ Ready env.rules chain store ledger)
      (WholeRuns env.source env.rules chain before) := by
  have untouched (store : RowStore) (same : store = before) :
      WholeRuns env.source env.rules chain before store := .inl same
  rw [advanceFrom]
  refine (ensures_askChain (fun store _ holds => untouched store holds.1) _).bind
    fun runs => Ensures.of_imp fun answer => ?_
  obtain ⟨state, next, answer⟩ := answer
  have announced : env.source.Announces before.lastSynced runs :=
    ⟨tip, state, congrArg Prod.fst answer⟩
  refine (ensures_ofResult (fun store _ holds => untouched store holds.1) _).bind
    fun _ => Ensures.of_imp fun covered => ?_
  refine (ensures_ofResult (fun store _ holds => untouched store holds.1) _).bind
    fun txs => Ensures.of_imp fun _ => ?_
  refine (ensures_publish _).bind fun _ => ?_
  refine (ensures_loadLedger atomic fresh (untouched before rfl)).bind fun _ => ?_
  refine (ensures_applyRuns presents atomic fresh (Coverage.inOrder_of_check covered)
    (List.nil_append runs) fun done store isPrefix committed =>
      .inr ⟨runs, done, announced, isPrefix, committed⟩).bind ?_
  rintro ⟨last, isStopped⟩
  have finished {store : RowStore} {ledger : Option Ledger}
      (holds : ∃ done, done <+: runs ∧ Underway env.rules chain before done store ledger) :
      WholeRuns env.source env.rules chain before store ∧ Ready env.rules chain store ledger := by
    obtain ⟨done, isPrefix, underway⟩ := holds
    refine ⟨.inr ⟨runs, done, announced, isPrefix, underway.committed⟩,
      underway.committed.reflects reflects, ?_⟩
    intro current isCurrent
    obtain ⟨held, isHeld, carried, -⟩ := underway.carried
    cases isCurrent.symm.trans isHeld
    exact carried
  refine Ensures.ite (fun _ => Ensures.pure ?_) fun _ => ?_
  · rintro store ledger ⟨reached, holds⟩
    exact ⟨reached.symm, finished holds⟩
  · refine Ensures.guard (fun _ _ holds => (finished holds.2).1) fun atTip => ?_
    refine (ensures_publish _).bind fun _ => Ensures.pure ?_
    rintro store ledger ⟨reached, holds⟩
    exact ⟨⟨rfl, reached.trans (not_not.mp atTip)⟩, finished holds⟩

theorem ensures_advanceToTip (presents : env.source.Presents chain)
    (atomic : env.rows.Atomic rows) (fresh : Fresh (chain.map BlockTx.ofBlock))
    (reflects : before.Reflects env.rules (chain.map BlockTx.ofBlock)) :
    Ensures rows
      (fun store ledger => store = before ∧ Ready env.rules chain store ledger)
      (advanceToTip env)
      (fun outcome store ledger => outcome.Tells before store ∧
        WholeRuns env.source env.rules chain before store ∧ Ready env.rules chain store ledger)
      (WholeRuns env.source env.rules chain before) := by
  have untouched (store : RowStore) (same : store = before) :
      WholeRuns env.source env.rules chain before store := .inl same
  rw [advanceToTip]
  refine (ensures_askChain (fun store _ holds => untouched store holds.1) _).bind
    fun tip => Ensures.of_imp fun _ => ?_
  cases tip with
  | none => exact Ensures.pure fun store ledger holds => ⟨holds.1, .inl holds.1, holds.2⟩
  | some tip =>
    have asks : Ensures rows
        (fun store ledger => store = before ∧ Ready env.rules chain store ledger)
        (askRows env.rows.lastSynced : SyncM σ τ (Option Height))
        (fun synced store ledger => synced = before.lastSynced ∧ store = before ∧
          Ready env.rules chain store ledger)
        (WholeRuns env.source env.rules chain before) := by
      refine (ensures_askRows (fun store _ holds => untouched store holds.1)
        atomic.lastSynced_rows).finish ?_
      rintro synced _ ledger ⟨⟨state, rfl, answer⟩, rfl, ready⟩
      exact ⟨atomic.lastSynced answer, rfl, ready⟩
    refine asks.bind fun synced => Ensures.of_imp ?_
    rintro rfl
    refine Ensures.guard (fun store _ holds => untouched store holds.1) fun _ => ?_
    refine Ensures.ite (fun _ => Ensures.pure ?_) fun _ => ?_
    · exact fun store ledger holds => ⟨holds.1, .inl holds.1, holds.2⟩
    · exact ensures_advanceFrom presents atomic fresh reflects

/-! ## Any number of advances -/

/-- An advance that finds the store and the ledger in memory in order leaves them
in order. -/
theorem ready_advance (env : Surroundings σ τ) (presents : env.source.Presents chain)
    (atomic : env.rows.Atomic rows) (fresh : Fresh (chain.map BlockTx.ofBlock))
    {state : SyncState σ τ} (ready : Ready env.rules chain (rows state.rows) state.ledger) :
    Advanced env.source env.rules chain (rows state.rows) (rows (advance env state).2.rows)
        (advance env state).1 ∧
      Ready env.rules chain (rows (advance env state).2.rows) (advance env state).2.ledger := by
  have ensures := ensures_advanceToTip presents atomic fresh ready.reflects state ⟨rfl, ready⟩
  rw [advance]
  cases result : (advanceToTip env).run state with
  | mk answer next =>
    rw [result] at ensures
    cases answer with
    | ok outcome =>
      obtain ⟨tells, wholeRuns, ready⟩ := ensures
      exact ⟨⟨ready.reflects, wholeRuns, fun _ same => by cases same; exact tells⟩, ready⟩
    | error failure =>
      have reflects := WholeRuns.reflects ensures ready.reflects
      exact ⟨⟨reflects, ensures, fun _ same => by cases same⟩, reflects,
        fun _ same => by cases same⟩

theorem ready_of_reached (presents : env.source.Presents chain) (atomic : env.rows.Atomic rows)
    (fresh : Fresh (chain.map BlockTx.ofBlock)) {state : SyncState σ τ}
    (reached : Reached env rows state) :
    Ready env.rules chain (rows state.rows) state.ledger := by
  induction reached with
  | start isEmpty =>
    rw [isEmpty]
    exact ⟨RowStore.reflects_empty env.rules _, fun _ same => by cases same⟩
  | advance intervals _ ready =>
    exact (ready_advance { env with intervals } presents atomic fresh ready).2
  | befall chain _ same ready =>
    rw [same]
    exact ready
  | restart _ ready => exact ⟨ready.reflects, fun _ same => by cases same⟩

/-- Whatever happened before, the stored rows are those of the chain up to the
height they have reached, each block applied once and in order. The next advance
writes whole runs or nothing, and reports the height that is stored then. -/
theorem advanced_of_reached (presents : env.source.Presents chain)
    (atomic : env.rows.Atomic rows) (fresh : Fresh (chain.map BlockTx.ofBlock))
    {state : SyncState σ τ} (reached : Reached env rows state) :
    (rows state.rows).Reflects env.rules (chain.map BlockTx.ofBlock) ∧
      ∀ intervals : Intervals,
        Advanced env.source env.rules chain (rows state.rows)
          (rows (advance { env with intervals } state).2.rows)
          (advance { env with intervals } state).1 := by
  have ready := ready_of_reached presents atomic fresh reached
  refine ⟨ready.reflects, fun intervals => ?_⟩
  exact (ready_advance { env with intervals } presents atomic fresh ready).1

/-- A chain of two blocks, the first with a claim. -/
def damagedChain : List Block :=
  let coinbase (script : Bytes) : Transaction :=
    ⟨1, [⟨⟨Digest.zero 32, 0xffffffff⟩, [], 0xffffffff, []⟩], [⟨5, script⟩], 0⟩
  let header (previous : BlockHash) (root : Digest 32) : Header :=
    ⟨1, previous, root, Digest.zero 32, 0, 0, 0⟩
  let root : Digest 32 :=
    ⟨[0x4e, 0xcb, 0x55, 0x6e, 0x4b, 0x06, 0x88, 0xa2, 0x0f, 0x61, 0x40, 0x88, 0x05, 0xb1, 0xe3,
      0xfa, 0xbd, 0x75, 0xf1, 0x66, 0x6b, 0x60, 0x68, 0xeb, 0x86, 0xd5, 0xcf, 0xbc, 0x86, 0xb2,
      0xd9, 0x93], rfl⟩
  let first : Block := ⟨header (Digest.zero 32) root,
    [coinbase [0xb5, 1, 0x61, 1, 0x62, 0x6d, 0x75]]⟩
  [first, Block.assemble (header first.hash (Digest.zero 32)) [coinbase []]]

/-- A source that has lost the bytes of the second block. Its state tells whether
it has heard of that block. -/
def damagedSource : ChainSource Bool where
  tipHeight heard := (.ok (some (if heard then 1 else 0)), heard)
  blockRuns first tip heard := (.ok [⟨0, first, tip, tip - first + 1, 1⟩], heard)
  readBlocks run heard :=
    (.ok ((heightsFrom run.first run.last).map fun height =>
      ⟨height, if height = 0 then (damagedChain.head?.map Block.encode).getD [] else []⟩), heard)

def damagedSurroundings : Surroundings Bool RowStore :=
  ⟨damagedSource, RowStore.access, fun _ => false, ⟨1, 1, 1⟩, Rules.regtest⟩

/-- After a first advance, the source has heard of the second block. -/
def damagedState : SyncState Bool RowStore :=
  { (advance damagedSurroundings { chain := false, rows := RowStore.empty }).2 with chain := true }

theorem presents_damagedSource : damagedSource.Presents damagedChain := by
  have parsed : Block.parse ((damagedChain.head?.map Block.encode).getD []) =
      .ok (damagedChain.head (List.cons_ne_nil _ _)) := by decide +kernel
  intro run state next raws read
  cases read
  constructor
  · rw [List.map_map]
    exact List.map_id _
  · intro raw listed block isBlock
    obtain ⟨height, -, rfl⟩ := List.mem_map.mp listed
    left
    by_cases isFirst : height = 0
    · rw [if_pos isFirst, parsed] at isBlock
      cases isBlock
      rw [isFirst]
      rfl
    · rw [if_neg isFirst] at isBlock
      cases isBlock

theorem reached_damagedState : Reached damagedSurroundings (fun rows => rows) damagedState := by
  rw [damagedState]
  apply Reached.befall true
  · apply Reached.advance damagedSurroundings.intervals
    exact Reached.start rfl
  · rfl

/-- The next advance fails at the lost bytes, and leaves the rows of the first
block as they are. -/
theorem advanced_damagedState :
    (damagedState.rows.lastSynced = some 0 ∧
      (advance damagedSurroundings damagedState).1.toOption = none) ∧
    damagedState.rows.Reflects Rules.regtest (damagedChain.map BlockTx.ofBlock) ∧
    Advanced damagedSource Rules.regtest damagedChain damagedState.rows
      (advance damagedSurroundings damagedState).2.rows
      (advance damagedSurroundings damagedState).1 := by
  have outputs : ((damagedChain.map BlockTx.ofBlock).flatMap BlockTx.allOutputs).length = 1 := by
    decide +kernel
  have hashes : ((damagedChain.map BlockTx.ofBlock).flatMap BlockTx.allCreated).length = 1 := by
    decide +kernel
  have fresh : Fresh (damagedChain.map BlockTx.ofBlock) := by
    obtain ⟨output, outputs⟩ := List.length_eq_one_iff.mp outputs
    obtain ⟨hash, hashes⟩ := List.length_eq_one_iff.mp hashes
    constructor
    · rw [outputs]
      exact List.nodup_singleton output
    · rw [hashes]
      exact List.nodup_singleton hash
  have always := advanced_of_reached presents_damagedSource RowStore.atomic_access fresh
    reached_damagedState
  exact ⟨by decide +kernel, always.1, always.2 damagedSurroundings.intervals⟩

end Sync

end ClaimLedger
