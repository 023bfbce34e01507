/-
# Links between blocks

The blocks of a run are checked for their links before any of them is applied:
each has to name the block before it, and a run that breaks off is refused as a
whole. Nothing is checked where a run starts. The rows tell how far they reach
but not by which block they got there, and the check of a run knows nothing of
the run before it. So whatever a source hands out, the blocks that were ever
applied are linked within each run; as a whole they are linked exactly if the
first block of each run happens to follow the last block of the run before.
-/

import Mathlib.Data.List.Chain
import ClaimLedger.Proofs.Sync.Kept

namespace ClaimLedger

namespace Stage

/-- A block at the next height that names the block before it. -/
def Follows (before after : Height × Block) : Prop :=
  after.1.toNat = before.1.toNat + 1 ∧ after.2.header.previous = before.2.hash

/-- The bytes hold these blocks. -/
def Reads (raws : List RawBlock) (blocks : LinkedBlocks) : Prop :=
  List.Forall₂ (fun raw entry => entry.1 = raw.height ∧ Block.parse raw.bytes = .ok entry.2)
    raws blocks

/-- Where a run of blocks ends, the next one that is not empty follows on. -/
def Seamless (runs : List LinkedBlocks) : Prop :=
  (runs.filter fun run => !run.isEmpty).IsChain fun before after =>
    ∀ last ∈ before.getLast?, ∀ first ∈ after.head?, Follows last first

variable {file : UInt32} {every total : Nat} {raws : List RawBlock} {blocks : LinkedBlocks}

/-- Runs that are linked make up a linked chain if there is no break between
them. -/
theorem isChain_flatten_iff {runs : List LinkedBlocks}
    (linked : ∀ run ∈ runs, run.IsChain Follows) :
    runs.flatten.IsChain Follows ↔ Seamless runs := by
  rw [← List.flatten_filter_not_isEmpty, List.isChain_flatten (by simp), Seamless]
  exact and_iff_right fun run listed => linked run (List.mem_of_mem_filter listed)

/-! ## The check of a run -/

/-- What passes is read off the bytes, each block following the one before. -/
theorem parseBlocks_eq_ok_iff {done : Nat} {last : Option (Height × BlockHash)} :
    (parseBlocks file every total done last raws).2 = .ok blocks ↔
      Reads raws blocks ∧ blocks.IsChain Follows ∧
        ∀ entry ∈ blocks.head?, checkLink file last entry.1 entry.2 = .ok () := by
  induction raws generalizing done last blocks with
  | nil =>
    rw [parseBlocks, Reads, List.forall₂_nil_left_iff]
    constructor
    · intro parsed
      cases parsed
      exact ⟨rfl, .nil, by simp⟩
    · rintro ⟨rfl, -⟩
      rfl
  | cons raw more ih =>
    rw [parseBlocks, Reads, List.forall₂_cons_left_iff]
    cases isBlock : Block.parse raw.bytes with
    | error cause =>
      constructor
      · intro parsed
        cases parsed
      · rintro ⟨⟨_, _, ⟨-, isBlock⟩, -⟩, -⟩
        cases isBlock
    | ok block =>
      cases linked : checkLink file last raw.height block with
      | error failure =>
        simp only [linked]
        constructor
        · intro parsed
          cases parsed
        · rintro ⟨⟨⟨_, _⟩, _, ⟨rfl, same⟩, -, rfl⟩, -, first⟩
          cases same
          have passes := first _ rfl
          rw [linked] at passes
          cases passes
      | ok _ =>
        -- for the next block, the check against this one asks for `Follows`
        have follows (rest : LinkedBlocks) :
            (∀ entry ∈ rest.head?, checkLink file (some (raw.height, block.hash)) entry.1 entry.2 =
              .ok ()) ↔ ∀ entry ∈ rest.head?, Follows (raw.height, block) entry := by
          simp only [checkLink_eq_ok_iff, Follows]
        simp only [linked, map_eq_ok_iff]
        constructor
        · rintro ⟨rest, isRest, rfl⟩
          obtain ⟨reads, isChain, first⟩ := ih.mp isRest
          refine ⟨⟨_, rest, ⟨rfl, rfl⟩, reads, rfl⟩, ?_, ?_⟩
          · exact List.isChain_cons.mpr ⟨(follows rest).mp first, isChain⟩
          · rintro _ ⟨⟩
            exact linked
        · rintro ⟨⟨⟨_, _⟩, rest, ⟨rfl, same⟩, reads, rfl⟩, isChain, -⟩
          cases same
          obtain ⟨first, isChain⟩ := List.isChain_cons.mp isChain
          exact ⟨rest, ih.mpr ⟨reads, isChain, (follows rest).mpr first⟩, rfl⟩

/-- What does not pass is reported as corrupt. -/
theorem corrupt_of_parseBlocks {done : Nat} {last : Option (Height × BlockHash)}
    {failure : SyncError} (below : ∀ raw ∈ raws, raw.height ≠ Height.top)
    (notTop : ∀ before ∈ last, before.1 ≠ Height.top)
    (failed : (parseBlocks file every total done last raws).2 = .error failure) :
    ∃ height reason, failure = .corruptBlockData (some file) (some height) reason := by
  induction raws generalizing done last with
  | nil => cases failed
  | cons raw more ih =>
    rw [parseBlocks] at failed
    split at failed
    · cases failed
      exact ⟨_, _, rfl⟩
    · next block _ =>
      split at failed
      · next unlinked =>
        cases failed
        rw [checkLink.eq_def] at unlinked
        split at unlinked
        · cases unlinked
        · -- only behind the largest height is the failure another one
          rw [if_neg (notTop _ rfl)] at unlinked
          split at unlinked
          · cases unlinked
          · cases unlinked
            exact ⟨_, _, rfl⟩
      · simp only at failed
        cases rest : (parseBlocks file every total (done + 1) (some (raw.height, block.hash))
            more).2 with
        | ok _ =>
          rw [rest] at failed
          cases failed
        | error other =>
          rw [rest] at failed
          cases failed
          refine ih (fun raw listed => below raw (List.mem_cons_of_mem _ listed)) ?_ rest
          rintro _ ⟨⟩
          exact below raw List.mem_cons_self

theorem readBlocks_snd : (readBlocks file every raws).2 =
    (parseBlocks file (max every 1) raws.length 0 none raws).2 := by
  rw [readBlocks]
  rcases parseBlocks file (max every 1) raws.length 0 none raws with ⟨events, _ | _⟩ <;> rfl

/-- A run passes if its bytes hold blocks that are linked. -/
theorem readBlocks_eq_ok_iff :
    (readBlocks file every raws).2 = .ok blocks ↔ Reads raws blocks ∧ blocks.IsChain Follows := by
  rw [readBlocks_snd, parseBlocks_eq_ok_iff]
  exact ⟨fun ⟨reads, isChain, _⟩ => ⟨reads, isChain⟩,
    fun ⟨reads, isChain⟩ => ⟨reads, isChain, fun _ _ => rfl⟩⟩

theorem readBlocks_refuses (below : ∀ raw ∈ raws, raw.height ≠ Height.top)
    (broken : ¬ ∃ blocks, Reads raws blocks ∧ blocks.IsChain Follows) :
    ∃ height reason, (readBlocks file every raws).2 =
      .error (.corruptBlockData (some file) (some height) reason) := by
  cases result : (readBlocks file every raws).2 with
  | ok blocks => exact absurd ⟨blocks, readBlocks_eq_ok_iff.mp result⟩ broken
  | error failure =>
    rw [readBlocks_snd] at result
    obtain ⟨height, reason, rfl⟩ := corrupt_of_parseBlocks below (by simp) result
    exact ⟨height, reason, rfl⟩

end Stage

/-! ## Where the rows come from -/

namespace Sync

variable {σ τ : Type}

/-- The runs of blocks that were applied, one after the other, on the way to the
stored rows and the ledger in memory. The ledger goes on from where the run
before left it, or from the rows as they are stored. -/
inductive Derived (rules : Rules) :
    List Stage.LinkedBlocks → RowStore → Option Ledger → Prop
  | start : Derived rules [] RowStore.empty none
  | loaded {runs : List Stage.LinkedBlocks} {store : RowStore} {ledger : Option Ledger}
      {snapshot : Snapshot} (derived : Derived rules runs store ledger)
      (same : store.snapshot.Same snapshot) :
      Derived rules runs store (some (Ledger.ofSnapshot rules snapshot))
  | dropped {runs : List Stage.LinkedBlocks} {store : RowStore} {ledger : Option Ledger}
      (derived : Derived rules runs store ledger) : Derived rules runs store none
  | saved {runs : List Stage.LinkedBlocks} {store : RowStore} {ledger after : Ledger}
      {every : Nat} {run : BlockRun} {blocks : Stage.LinkedBlocks}
      (derived : Derived rules runs store (some ledger))
      (saves : (Stage.saveBlocks run.file every ledger blocks).2 = .ok after) :
      Derived rules (runs ++ [blocks])
        (store.commit ⟨run.file, Stage.reached run blocks, after.changes⟩)
        (some after.takeChanges.2)

/-- What was applied came in runs of this kind. -/
def DerivedFrom (rules : Rules) (kind : Stage.LinkedBlocks → Prop) (store : RowStore)
    (ledger : Option Ledger) : Prop :=
  ∃ runs, Derived rules runs store ledger ∧ ∀ blocks ∈ runs, kind blocks

/-- If all that passes the check of a run is of some kind, then all that was
applied is. -/
theorem kept_derivedFrom {source : ChainSource σ} {kind : Stage.LinkedBlocks → Prop}
    (passes : ∀ {run : BlockRun} {raws : List RawBlock} {blocks : Stage.LinkedBlocks},
      source.HandsOut run raws → Stage.Reads raws blocks → blocks.IsChain Stage.Follows →
        kind blocks) (rules : Rules) :
    Kept source rules (fun _ => DerivedFrom rules kind) where
  started := fun derived => derived
  loaded := by
    rintro _ store ledger snapshot ⟨runs, derived, each⟩ same
    exact ⟨runs, derived.loaded same, each⟩
  dropped := by
    rintro _ store ledger ⟨runs, derived, each⟩
    exact ⟨runs, derived.dropped, each⟩
  saved := by
    rintro _ store ledger after run raws blocks _ _ ⟨runs, derived, each⟩ handed read saves
    obtain ⟨reads, isChain⟩ := Stage.readBlocks_eq_ok_iff.mp read
    refine ⟨runs ++ [blocks], derived.saved saves, fun other listed => ?_⟩
    rcases List.mem_append.mp listed with listed | listed
    · exact each other listed
    · rw [List.mem_singleton.mp listed]
      exact passes handed reads isChain

variable {env : Surroundings σ τ} {rows : τ → RowStore}

theorem derivedFrom_of_reached {kind : Stage.LinkedBlocks → Prop} (atomic : env.rows.Atomic rows)
    (passes : ∀ {run : BlockRun} {raws : List RawBlock} {blocks : Stage.LinkedBlocks},
      env.source.HandsOut run raws → Stage.Reads raws blocks → blocks.IsChain Stage.Follows →
        kind blocks) {state : SyncState σ τ} (reached : Reached env rows state) :
    DerivedFrom env.rules kind (rows state.rows) state.ledger := by
  have start : DerivedFrom env.rules kind RowStore.empty none := by
    refine ⟨[], .start, ?_⟩
    rintro _ ⟨⟩
  obtain ⟨_, derived⟩ :=
    (kept_derivedFrom passes env.rules).of_reached atomic ⟨none, start⟩ reached
  exact derived

/-! ## A run that breaks off -/

/-- A run that does not pass the check ends the work on all runs, before anything
else is done. -/
theorem run_applyRuns_of_error {run : BlockRun} {raws : List RawBlock} {chain : σ}
    {failure : SyncError} {state : SyncState σ τ}
    (read : env.source.readBlocks run state.chain = (.ok raws, chain))
    (refused : (Stage.readBlocks run.file env.intervals.read raws).2 = .error failure)
    (tip : Height) (last : Option Height) (more : List BlockRun) :
    ∃ published, (applyRuns env tip last (run :: more)).run state =
      (.error failure, { state with chain, published }) := by
  have asked : (askChain (env.source.readBlocks run) : SyncM σ τ (List RawBlock)).run state =
      (.ok raws, { state with chain }) := by
    rw [run_askChain, read]
  have stopped : (applyRun env run raws).run { state with chain } = (.error failure,
      { state with
        chain
        published := state.published ++
          (Stage.readBlocks run.file env.intervals.read raws).1 }) := by
    rw [applyRun]
    apply run_bind_error
    rw [complete, refused]
    rfl
  rw [applyRuns]
  exact ⟨_, (run_bind_ok asked).trans (run_bind_error stopped)⟩

/-- Whatever the source hands out and however its chain changes between advances,
the stored rows and the ledger in memory come from runs of blocks that are
linked, each in itself. The blocks of all runs are linked exactly if there is no
break between one run and the next, which nothing makes sure of. A run that
breaks off in itself is reported as corrupt, and nothing of it is applied. -/
theorem linked_of_reached (atomic : env.rows.Atomic rows) {state : SyncState σ τ}
    (reached : Reached env rows state) :
    (∃ runs, Derived env.rules runs (rows state.rows) state.ledger ∧
      (∀ run ∈ runs, run.IsChain Stage.Follows) ∧
      (runs.flatten.IsChain Stage.Follows ↔ Stage.Seamless runs)) ∧
    ∀ (midway : SyncState σ τ) (run : BlockRun) (raws : List RawBlock) (chain : σ),
      env.source.readBlocks run midway.chain = (.ok raws, chain) →
      (∀ raw ∈ raws, raw.height ≠ Height.top) →
      (¬ ∃ blocks, Stage.Reads raws blocks ∧ blocks.IsChain Stage.Follows) →
      ∀ (tip : Height) (last : Option Height) (more : List BlockRun),
        ∃ height reason published, (applyRuns env tip last (run :: more)).run midway =
          (.error (.corruptBlockData (some run.file) (some height) reason),
            { midway with chain, published }) := by
  constructor
  · obtain ⟨runs, derived, each⟩ :=
      derivedFrom_of_reached atomic (fun _ _ isChain => isChain) reached
    exact ⟨runs, derived, each, Stage.isChain_flatten_iff each⟩
  · intro midway run raws chain read below broken tip last more
    obtain ⟨height, reason, refused⟩ := Stage.readBlocks_refuses below broken
    exact ⟨height, reason, run_applyRuns_of_error read refused tip last more⟩

/-! ## A fork -/

/-- The first block of a chain, and the second block of another one, in which
the block before it has a hash of zeros. -/
def forkedBlocks : List Block :=
  let root : Digest 32 :=
    ⟨[0x7d, 0xb3, 0xe8, 0x64, 0xcc, 0xa2, 0x0b, 0x00, 0x4c, 0x9a, 0x7c, 0x40, 0x10, 0x96, 0x60,
      0x10, 0x53, 0x30, 0x87, 0xba, 0x81, 0xf9, 0xb6, 0x11, 0x71, 0xcd, 0xa9, 0x06, 0x4a, 0x9f,
      0x27, 0x2b], rfl⟩
  let block (nonce : UInt32) : Block :=
    ⟨⟨1, Digest.zero 32, root, Digest.zero 32, 0, 0, nonce⟩,
      [⟨1, [⟨⟨Digest.zero 32, 0xffffffff⟩, [], 0xffffffff, []⟩], [], 0⟩]⟩
  [block 0, block 1]

/-- A source with each block in a file of its own. Its state tells whether it has
heard of the second one. -/
def forkedSource : ChainSource Bool where
  tipHeight heard := (.ok (some (if heard then 1 else 0)), heard)
  blockRuns first tip heard :=
    (.ok ((heightsFrom first tip).map fun height => ⟨height, height, height, 1, 1⟩), heard)
  readBlocks run heard :=
    (.ok ((heightsFrom run.first run.last).map fun height =>
      ⟨height, (forkedBlocks[height.toNat]?.map Block.encode).getD []⟩), heard)

def forkedSurroundings : Surroundings Bool RowStore :=
  ⟨forkedSource, RowStore.access, fun _ => false, ⟨1, 1, 1⟩, Rules.regtest⟩

/-- After a first advance, the source has heard of the second block. -/
def forkedState : SyncState Bool RowStore :=
  { (advance forkedSurroundings { chain := false, rows := RowStore.empty }).2 with chain := true }

/-- The second block does not name the first one. It is applied all the same, be
it in the same advance or in the next one. -/
theorem synced_forked :
    (forkedBlocks[1]?.map fun block => block.header.previous) ≠ forkedBlocks[0]?.map Block.hash ∧
      (advance forkedSurroundings { chain := true, rows := RowStore.empty }).1.toOption =
        some (.synced none 1) ∧
      forkedState.rows.lastSynced = some 0 ∧
      (advance forkedSurroundings forkedState).1.toOption = some (.synced (some 0) 1) := by
  decide +kernel

/-- Of the fork, each run is linked in itself. What the source hands out beyond it
holds no block, and is refused. -/
theorem linked_forkedState :
    (∃ runs, Derived Rules.regtest runs forkedState.rows forkedState.ledger ∧
      (∀ run ∈ runs, run.IsChain Stage.Follows) ∧
      (runs.flatten.IsChain Stage.Follows ↔ Stage.Seamless runs)) ∧
    ∃ height reason published,
      (applyRuns forkedSurroundings 5 (some 0) [⟨5, 5, 5, 1, 1⟩]).run forkedState =
        (.error (.corruptBlockData (some 5) (some height) reason),
          { forkedState with chain := true, published }) := by
  have reached : Reached forkedSurroundings (fun rows => rows) forkedState := by
    apply Reached.befall true
    · apply Reached.advance forkedSurroundings.intervals
      exact Reached.start rfl
    · rfl
  obtain ⟨derived, refuses⟩ := linked_of_reached RowStore.atomic_access reached
  refine ⟨derived, refuses forkedState ⟨5, 5, 5, 1, 1⟩ [⟨5, []⟩] true rfl ?_ ?_ 5 (some 0) []⟩
  · intro raw listed
    rw [List.mem_singleton.mp listed]
    decide
  · rintro ⟨_, reads, -⟩
    cases reads with
    | cons parsed _ => cases parsed.2

end Sync

end ClaimLedger
