/-
# What every advance keeps

Whatever a source answers and whenever a store refuses a call, three things are
all that happens to the stored rows and the ledger in memory: the ledger is
loaded from the rows, it is dropped, and the blocks of a run go through the
stages and what they changed is written. A property of rows and ledger that these
three keep therefore holds in every state that can be reached. The property may
speak of the height that the advance would report by then: it starts with what is
stored, and goes on with the announced end of each run.
-/

import ClaimLedger.Proofs.Sync.Resume

namespace ClaimLedger

variable {σ τ : Type}

/-- The source reads these bytes for a run that goes upwards. -/
def ChainSource.HandsOut (source : ChainSource σ) (run : BlockRun) (raws : List RawBlock) : Prop :=
  run.first ≤ run.last ∧ ∃ state next, source.readBlocks run state = (.ok raws, next)

/-- The height that an outcome says is reached. -/
def Outcome.Reports (last : Option Height) : Outcome → Prop
  | .upToDate => True
  | .synced _ reached => last = some reached
  | .stopped reached => last = reached

namespace Sync

variable {env : Surroundings σ τ} {rows : τ → RowStore}

/-- The property outlasts everything that an advance does to the stored rows and
the ledger in memory. The height is the one that the advance would report. -/
structure Kept (source : ChainSource σ) (rules : Rules)
    (P : Option Height → RowStore → Option Ledger → Prop) : Prop where
  started : ∀ {last : Option Height} {store : RowStore} {ledger : Option Ledger},
    P last store ledger → P store.lastSynced store ledger
  loaded : ∀ {last : Option Height} {store : RowStore} {ledger : Option Ledger}
    {snapshot : Snapshot}, P last store ledger → store.snapshot.Same snapshot →
      P last store (some (Ledger.ofSnapshot rules snapshot))
  dropped : ∀ {last : Option Height} {store : RowStore} {ledger : Option Ledger},
    P last store ledger → P last store none
  saved : ∀ {last : Option Height} {store : RowStore} {ledger after : Ledger} {run : BlockRun}
    {raws : List RawBlock} {blocks : Stage.LinkedBlocks} {readEvery saveEvery : Nat},
    P last store (some ledger) → source.HandsOut run raws →
      (Stage.readBlocks run.file readEvery raws).2 = .ok blocks →
        (Stage.saveBlocks run.file saveEvery ledger blocks).2 = .ok after →
          P (some run.last) (store.commit ⟨run.file, Stage.reached run blocks, after.changes⟩)
            (some after.takeChanges.2)

namespace Kept

variable {P : Option Height → RowStore → Option Ledger → Prop}

section Steps

variable (kept : Kept env.source env.rules P) (atomic : env.rows.Atomic rows)

include kept

theorem fall (last : Option Height) (store : RowStore) (ledger : Option Ledger)
    (holds : P last store ledger) : ∃ last, P last store none :=
  ⟨last, kept.dropped holds⟩

include atomic

theorem loadLedger (last synced : Option Height) :
    Ensures rows (P last) (loadLedger env synced) (fun _ => P last)
      (fun store => ∃ last, P last store none) := by
  have loads : Ensures rows (P last) (askRows env.rows.loadSnapshot : SyncM σ τ Snapshot)
      (fun snapshot store ledger => store.snapshot.Same snapshot ∧ P last store ledger)
      (fun store => ∃ last, P last store none) := by
    refine (ensures_askRows (kept.fall last) atomic.loadSnapshot_rows).finish ?_
    rintro snapshot _ ledger ⟨⟨state, rfl, answer⟩, holds⟩
    exact ⟨atomic.loadSnapshot answer, holds⟩
  rw [Sync.loadLedger]
  refine ensures_get.bind fun state => ?_
  refine Ensures.ite (fun _ => Ensures.pure fun _ _ holds => holds.1) fun _ => ?_
  refine (loads.start fun _ _ holds => holds.1).bind fun snapshot => ?_
  refine Ensures.guard (fun _ _ holds => ⟨last, kept.dropped holds.2⟩) fun _ => ?_
  apply (ensures_setLedger _).finish
  rintro _ _ ledger ⟨rfl, _, same, holds⟩
  exact kept.loaded holds same

/-- If a write is reported to have failed, the ledger is ahead of the rows, or it
is not, so it matters that it is dropped. -/
theorem applyRun {run : BlockRun} {raws : List RawBlock} (handed : env.source.HandsOut run raws)
    (last : Option Height) :
    Ensures rows (P last) (applyRun env run raws) (fun _ => P (some run.last))
      (fun store => ∃ last, P last store none) := by
  apply ensures_applyRun_of_saved atomic (kept.fall last)
  intro store ledger after blocks holds read saves
  have written := kept.saved holds handed read saves
  exact ⟨written, some run.last, kept.dropped written⟩

theorem applyRuns (tip : Height) (last : Option Height) {runs : List BlockRun}
    (inOrder : ∀ run ∈ runs, run.first ≤ run.last) :
    Ensures rows (P last) (applyRuns env tip last runs)
      (fun result store ledger => P result.1 store ledger)
      (fun store => ∃ last, P last store none) := by
  induction runs generalizing last with
  | nil => exact Ensures.pure fun _ _ holds => holds
  | cons run more ih =>
    rw [Sync.applyRuns]
    refine (ensures_askChain (kept.fall last) _).bind fun raws => Ensures.of_imp fun read => ?_
    have handed : env.source.HandsOut run raws := ⟨inOrder run List.mem_cons_self, read⟩
    refine (kept.applyRun atomic handed last).bind fun _ => ensures_get.bind fun state => ?_
    refine Ensures.ite (fun _ => Ensures.pure fun _ _ holds => holds.1) fun _ => ?_
    have later (other : BlockRun) (listed : other ∈ more) : other.first ≤ other.last :=
      inOrder other (List.mem_cons_of_mem run listed)
    exact (ih (some run.last) later).start fun _ _ holds => holds.1

theorem advanceFrom (synced : Option Height) (tip : Height) :
    Ensures rows (P synced) (advanceFrom env synced tip)
      (fun outcome store ledger => ∃ last, P last store ledger ∧ outcome.Reports last)
      (fun store => ∃ last, P last store none) := by
  rw [Sync.advanceFrom]
  refine (ensures_askChain (kept.fall synced) _).bind fun runs => Ensures.of_imp fun _ => ?_
  refine (ensures_ofResult (kept.fall synced) _).bind
    fun _ => Ensures.of_imp fun covered => ?_
  refine (ensures_ofResult (kept.fall synced) _).bind fun txs => Ensures.of_imp fun _ => ?_
  refine (ensures_publish _).bind fun _ => (kept.loadLedger atomic synced synced).bind fun _ => ?_
  refine (kept.applyRuns atomic tip synced (Coverage.inOrder_of_check covered)).bind ?_
  rintro ⟨last, isStopped⟩
  refine Ensures.ite (fun _ => Ensures.pure fun _ _ holds => ⟨last, holds, rfl⟩) fun _ => ?_
  refine Ensures.guard (kept.fall last) fun atTip => ?_
  refine (ensures_publish _).bind fun _ => Ensures.pure fun _ _ holds => ?_
  exact ⟨last, holds, not_not.mp atTip⟩

theorem advanceToTip :
    Ensures rows (fun store ledger => ∃ last, P last store ledger) (advanceToTip env)
      (fun outcome store ledger => ∃ last, P last store ledger ∧ outcome.Reports last)
      (fun store => ∃ last, P last store none) := by
  have fall (store : RowStore) (ledger : Option Ledger) :
      (∃ last, P last store ledger) → ∃ last, P last store none :=
    fun ⟨last, holds⟩ => kept.fall last store ledger holds
  have nothing (store : RowStore) (ledger : Option Ledger) :
      (∃ last, P last store ledger) →
        ∃ last, P last store ledger ∧ Outcome.upToDate.Reports last :=
    fun ⟨last, holds⟩ => ⟨last, holds, trivial⟩
  rw [Sync.advanceToTip]
  refine (ensures_askChain fall _).bind fun tip => Ensures.of_imp fun _ => ?_
  cases tip with
  | none => exact Ensures.pure nothing
  | some tip =>
    have asks : Ensures rows (fun store ledger => ∃ last, P last store ledger)
        (askRows env.rows.lastSynced : SyncM σ τ (Option Height)) P
        (fun store => ∃ last, P last store none) := by
      refine (ensures_askRows fall atomic.lastSynced_rows).finish ?_
      rintro synced _ ledger ⟨⟨state, rfl, answer⟩, last, holds⟩
      rw [atomic.lastSynced answer]
      exact kept.started holds
    refine asks.bind fun synced => Ensures.guard (kept.fall synced) fun _ => ?_
    refine Ensures.ite (fun _ => Ensures.pure fun _ _ holds => ?_) fun _ => ?_
    · exact nothing _ _ ⟨synced, holds⟩
    · exact kept.advanceFrom atomic synced tip

theorem advance {state : SyncState σ τ}
    (holds : ∃ last, P last (rows state.rows) state.ledger) :
    ∃ last, P last (rows (advance env state).2.rows) (advance env state).2.ledger ∧
      ∀ outcome, (advance env state).1 = .ok outcome → outcome.Reports last := by
  have ensures := kept.advanceToTip atomic state holds
  rw [Sync.advance]
  cases result : (Sync.advanceToTip env).run state with
  | mk answer next =>
    rw [result] at ensures
    cases answer with
    | ok outcome =>
      obtain ⟨last, holds, reports⟩ := ensures
      refine ⟨last, holds, ?_⟩
      rintro _ ⟨⟩
      exact reports
    | error failure =>
      obtain ⟨last, holds⟩ := ensures
      refine ⟨last, holds, ?_⟩
      rintro _ ⟨⟩

end Steps

/-- What is kept, and holds at the start, holds whatever happens. -/
theorem of_reached (kept : Kept env.source env.rules P) (atomic : env.rows.Atomic rows)
    (start : ∃ last, P last RowStore.empty none) {state : SyncState σ τ}
    (reached : Reached env rows state) : ∃ last, P last (rows state.rows) state.ledger := by
  induction reached with
  | start isEmpty =>
    rw [isEmpty]
    exact start
  | @advance state intervals _ holds =>
    have kept : Kept (Surroundings.source { env with intervals })
        (Surroundings.rules { env with intervals }) P := kept
    obtain ⟨last, holds, -⟩ := kept.advance atomic holds
    exact ⟨last, holds⟩
  | befall chain _ same holds =>
    rw [same]
    exact holds
  | restart _ holds =>
    obtain ⟨last, holds⟩ := holds
    exact ⟨last, kept.dropped holds⟩

end Kept

end Sync

end ClaimLedger
