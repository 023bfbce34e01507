/-
# How far a stage has come

A stage tells in steps how far it has come. Each of the three stages counts in a
way of its own: blocks that are read are counted one by one, and told of at the
multiples of the interval; claim rows are counted by the store, which reports at
the multiples as well; transactions are counted by whole blocks, and told of as
soon as an interval has gone by. A total may be a multiple of the interval, less
than it, or nothing at all. What is told always has the same shape: it goes up
from zero, and comes to the total once and at the end. A stage that fails tells
of the first of these steps, and not of the total.
-/

import ClaimLedger.Proofs.Block.RoundTrip
import ClaimLedger.Proofs.Sync.Links
import ClaimLedger.RowStore.Faulty

namespace ClaimLedger

namespace Stage

/-- The events of a stage for its steps. -/
def ticks (stage : Stage) (file : UInt32) (total : Nat) (steps : List Nat) :
    List ProgressEvent :=
  steps.map fun step => .progress stage file step total

/-- The steps of a stage that is through. Two steps in a row are `close` to each
other. -/
structure Through (close : Nat → Nat → Prop) (total : Nat) (steps : List Nat) : Prop where
  start : steps.head? = some 0
  finish : steps.getLast? = some total
  once : steps.count total = 1
  increasing : steps.Pairwise (· < ·)
  spaced : steps.IsChain close
  /-- Where there is nothing to do, a single step says so. -/
  alone : total = 0 → steps = [0]

/-- The steps of a stage that fails on the way: the first of those that it would
tell of, and not the total. -/
structure Cut (close : Nat → Nat → Prop) (total : Nat) (steps : List Nat) : Prop where
  unfinished : total ∉ steps
  begun : ∃ whole, Through close total whole ∧ steps <+: whole

/-- What a stage tells, whether it gets through or not. -/
def Tells {α : Type} (stage : Stage) (file : UInt32) (close : Nat → Nat → Prop) (total : Nat)
    (result : StageResult α) : Prop :=
  ∃ steps, result.1 = ticks stage file total steps ∧
    match result.2 with
    | .ok _ => Through close total steps
    | .error _ => Cut close total steps

/-- Two steps are no more than the interval apart. An interval of zero acts as
one. -/
def Within (every before after : Nat) : Prop :=
  after ≤ before + max every 1

theorem within_max (every : Nat) : Within (max every 1) = Within every := by
  funext before after
  rw [Within, Within, Nat.max_assoc, Nat.max_self]

/-- Two steps are less than the interval and the transactions of one of the
blocks apart. -/
def WithinBlock (every : Nat) (blocks : LinkedBlocks) (before after : Nat) : Prop :=
  ∃ entry ∈ blocks, after < before + max every 1 + entry.2.transactions.length

variable {α : Type} {stage : Stage} {file : UInt32} {every total : Nat}
variable {close : Nat → Nat → Prop} {steps told : List Nat}

/-! ## The shape of the steps -/

theorem ticks_append (earlier later : List Nat) :
    ticks stage file total (earlier ++ later) =
      ticks stage file total earlier ++ ticks stage file total later :=
  List.map_append

namespace Through

theorem zero : Through close 0 [0] where
  start := rfl
  finish := rfl
  once := rfl
  increasing := List.pairwise_singleton _ _
  spaced := .singleton 0
  alone := fun _ => rfl

/-- Steps that go up from zero to the total come to it once. -/
theorem of_isChain (positive : 0 < total)
    (chain : (0 :: (steps ++ [total])).IsChain fun before after =>
      before < after ∧ close before after) :
    Through close total (0 :: (steps ++ [total])) := by
  have increasing : (0 :: (steps ++ [total])).Pairwise (· < ·) :=
    List.isChain_iff_pairwise.mp (chain.imp fun _ _ apart => apart.1)
  refine ⟨rfl, ?_, ?_, increasing, chain.imp fun _ _ apart => apart.2, ?_⟩
  · rw [← List.cons_append, List.getLast?_concat]
  · exact List.count_eq_one_of_mem (increasing.imp Nat.ne_of_lt) (by simp)
  · intro nothing
    omega

/-- What is told before the total does not come to it. -/
theorem cut (through : Through close total (steps ++ [total])) (begun : told <+: steps) :
    Cut close total told := by
  refine ⟨fun listed => ?_, steps ++ [total], through, begun.trans (List.prefix_append _ _)⟩
  have earlier := List.count_pos_iff.mpr (begun.subset listed)
  have once := through.once
  rw [List.count_append, List.count_singleton_self] at once
  omega

end Through

/-! ## Counting one by one -/

/-- Of the next counts, those that are told of on the way to the total. -/
def marks (every total done count : Nat) : List Nat :=
  (List.range' (done + 1) count).filter fun step => step % every = 0 ∧ step ≠ total

theorem marks_succ (every total done count : Nat) :
    marks every total done (count + 1) =
      (if (done + 1) % every = 0 ∧ done + 1 ≠ total then [done + 1] else []) ++
        marks every total (done + 1) count := by
  rw [marks, List.range'_succ, List.filter_cons]
  by_cases told : (done + 1) % every = 0 ∧ done + 1 ≠ total
  · rw [if_pos told, if_pos (decide_eq_true told)]
    rfl
  · rw [if_neg told, if_neg (by simpa using told)]
    rfl

/-- Behind a multiple of the interval, the next one is told of, or the total if
it comes first. -/
theorem isChain_marks {done last count : Nat} (positive : 0 < every)
    (whole : done + count = total) (multiple : last % every = 0) (reached : last ≤ done)
    (ahead : last < total) (near : count ≠ 0 → done < last + every)
    (nearEnd : done ≤ last + every) :
    (last :: (marks every total done count ++ [total])).IsChain fun before after =>
      before < after ∧ after ≤ before + every := by
  induction count generalizing done last with
  | zero =>
    obtain rfl : done = total := whole
    exact List.isChain_pair.mpr ⟨ahead, nearEnd⟩
  | succ count ih =>
    have near := near (Nat.succ_ne_zero count)
    rw [marks_succ]
    by_cases told : (done + 1) % every = 0 ∧ done + 1 ≠ total
    · rw [if_pos told]
      exact List.isChain_cons_cons.mpr ⟨⟨by omega, by omega⟩,
        ih (by omega) told.1 le_rfl (by omega) (by omega) (by omega)⟩
    · rw [if_neg told, List.nil_append]
      refine ih (by omega) multiple (by omega) ahead (fun more => ?_) (by omega)
      -- were the interval over, this count would be told of
      by_contra beyond
      have next : done + 1 = last + every := by omega
      refine told ⟨?_, by omega⟩
      rw [next, Nat.add_mod_right, multiple]

theorem through_marks (positive : 0 < total) :
    Through (Within every) total (0 :: (marks (max every 1) total 0 total ++ [total])) :=
  .of_isChain positive (isChain_marks (by omega) (Nat.zero_add _) (Nat.zero_mod _) le_rfl positive
    (by omega) (by omega))

/-- A total that is itself a multiple is not told of on the way. -/
example : marks 5 10 0 10 = [5] := by decide

/-! ## Counting by blocks -/

/-- Of the counts behind the next blocks, those that are told of on the way to
the total. -/
def blockMarks (every total : Nat) : Nat → Nat → LinkedBlocks → List Nat
  | _, _, [] => []
  | done, reported, (_, block) :: more =>
    let done := done + block.transactions.length
    if every ≤ done - reported ∧ done ≠ total then done :: blockMarks every total done done more
    else blockMarks every total done reported more

theorem countTransactions_cons (entry : Height × Block) (blocks : LinkedBlocks) :
    countTransactions (entry :: blocks) =
      entry.2.transactions.length + countTransactions blocks :=
  rfl

theorem countTransactions_pos {blocks : LinkedBlocks} (nonempty : blocks ≠ [])
    (filled : ∀ entry ∈ blocks, entry.2.transactions ≠ []) : 0 < countTransactions blocks := by
  obtain ⟨entry, more, rfl⟩ := List.exists_cons_of_ne_nil nonempty
  have here := List.length_pos_iff.mpr (filled entry List.mem_cons_self)
  rw [countTransactions_cons]
  omega

/-- As long as less than an interval has gone by since the last step, the next
one comes with some block, or the total does. -/
theorem isChain_blockMarks {blocks all : LinkedBlocks} {done reported : Nat} (positive : 0 < every)
    (nonempty : blocks ≠ []) (listed : ∀ entry ∈ blocks, entry ∈ all)
    (filled : ∀ entry ∈ blocks, entry.2.transactions ≠ [])
    (whole : done + countTransactions blocks = total) (reached : reported ≤ done)
    (near : done < reported + every) :
    (reported :: (blockMarks every total done reported blocks ++ [total])).IsChain
      fun before after => before < after ∧
        ∃ entry ∈ all, after < before + every + entry.2.transactions.length := by
  induction blocks generalizing done reported with
  | nil => exact absurd rfl nonempty
  | cons entry more ih =>
    have here := List.length_pos_iff.mpr (filled entry List.mem_cons_self)
    have filled := fun other member => filled other (List.mem_cons_of_mem entry member)
    have inAll := listed entry List.mem_cons_self
    have listed := fun other member => listed other (List.mem_cons_of_mem entry member)
    rw [countTransactions_cons] at whole
    rw [blockMarks]
    by_cases isLast : more = []
    · subst isLast
      have atEnd : done + entry.2.transactions.length = total := whole
      rw [if_neg fun told => told.2 atEnd]
      exact List.isChain_pair.mpr ⟨by omega, entry, inAll, by omega⟩
    · have behind := countTransactions_pos isLast filled
      by_cases told : every ≤ done + entry.2.transactions.length - reported ∧
          done + entry.2.transactions.length ≠ total
      · rw [if_pos told]
        exact List.isChain_cons_cons.mpr ⟨⟨by omega, entry, inAll, by omega⟩,
          ih isLast listed filled (by omega) le_rfl (by omega)⟩
      · rw [if_neg told]
        exact ih isLast listed filled (by omega) (by omega) (by omega)

theorem through_blockMarks {blocks : LinkedBlocks} (nonempty : blocks ≠ [])
    (filled : ∀ entry ∈ blocks, entry.2.transactions ≠ []) :
    Through (WithinBlock every blocks) (countTransactions blocks)
      (0 :: (blockMarks (max every 1) (countTransactions blocks) 0 0 blocks ++
        [countTransactions blocks])) :=
  .of_isChain (countTransactions_pos nonempty filled) (isChain_blockMarks (by omega) nonempty
    (fun _ listed => listed) filled (Nat.zero_add _) le_rfl (by omega))

/-! ## What the stages tell -/

/-- Between its first event and its last one, a stage tells of these steps, or of
the first of them if it fails. -/
def Counts (stage : Stage) (file : UInt32) (total : Nat) (steps : List Nat)
    (result : StageResult α) : Prop :=
  ∃ told, result.1 = ticks stage file total told ∧ told <+: steps ∧
    ∀ value, result.2 = .ok value → told = steps

/-- A stage with the event in front of it, and the one behind it if it gets
through. -/
def framed (stage : Stage) (file : UInt32) (total : Nat) :
    StageResult α → StageResult α
  | (events, .error failure) => (.progress stage file 0 total :: events, .error failure)
  | (events, .ok value) =>
    (.progress stage file 0 total :: events ++ [.progress stage file total total], .ok value)

theorem Counts.framed {result : StageResult α} (counts : Counts stage file total steps result)
    (through : Through close total (0 :: (steps ++ [total]))) :
    Tells stage file close total (framed stage file total result) := by
  obtain ⟨told, events, begun, full⟩ := counts
  obtain ⟨published, answer⟩ := result
  obtain rfl : published = ticks stage file total told := events
  cases answer with
  | error failure =>
    exact ⟨0 :: told, rfl, through.cut ((List.prefix_cons_inj 0).mpr begun)⟩
  | ok value =>
    obtain rfl := full value rfl
    refine ⟨0 :: (told ++ [total]), ?_, through⟩
    show _ = ProgressEvent.progress stage file 0 total :: ticks stage file total (told ++ [total])
    rw [ticks_append]
    rfl

theorem counts_parseBlocks (done : Nat) (last : Option (Height × BlockHash))
    (raws : List RawBlock) :
    Counts .blockRead file total (marks every total done raws.length)
      (parseBlocks file every total done last raws) := by
  induction raws generalizing done last with
  | nil => exact ⟨[], rfl, List.nil_prefix, fun _ _ => rfl⟩
  | cons raw more ih =>
    rw [parseBlocks]
    split
    · refine ⟨[], rfl, List.nil_prefix, ?_⟩
      rintro _ ⟨⟩
    · next block _ =>
      split
      · refine ⟨[], rfl, List.nil_prefix, ?_⟩
        rintro _ ⟨⟩
      · obtain ⟨told, events, begun, full⟩ := ih (done + 1) (some (raw.height, block.hash))
        rw [List.length_cons, marks_succ]
        refine ⟨_, ?_, (List.prefix_append_right_inj _).mpr begun, fun value isOk => ?_⟩
        · simp only
          rw [events, ticks_append]
          congr 1
          split <;> rfl
        · obtain ⟨rest, isRest, -⟩ := map_eq_ok_iff.mp isOk
          rw [full rest isRest]

theorem counts_applyBlocks (done reported : Nat) (ledger : Ledger) (blocks : LinkedBlocks) :
    Counts .blockSave file total (blockMarks every total done reported blocks)
      (applyBlocks file every total done reported ledger blocks) := by
  induction blocks generalizing done reported ledger with
  | nil => exact ⟨[], rfl, List.nil_prefix, fun _ _ => rfl⟩
  | cons entry more ih =>
    rw [applyBlocks, blockMarks]
    rcases ledger.applyBlock entry.1 (BlockTx.ofBlock entry.2) with ⟨further, _ | _⟩
    · refine ⟨[], rfl, List.nil_prefix, ?_⟩
      rintro _ ⟨⟩
    · simp only
      by_cases isMark : every ≤ done + entry.2.transactions.length - reported ∧
          done + entry.2.transactions.length ≠ total
      · rw [if_pos isMark, if_pos isMark]
        obtain ⟨told, events, begun, full⟩ := ih (done + entry.2.transactions.length)
          (done + entry.2.transactions.length) further
        refine ⟨_ :: told, congrArg _ events, (List.prefix_cons_inj _).mpr begun,
          fun value isOk => ?_⟩
        rw [full value isOk]
      · rw [if_neg isMark, if_neg isMark]
        exact ih _ reported further

/-- The blocks of a run are told of as they are read. -/
theorem tells_readBlocks (file : UInt32) (every : Nat) {raws : List RawBlock}
    (nonempty : raws ≠ []) :
    Tells .blockRead file (Within every) raws.length (readBlocks file every raws) := by
  have isFramed : readBlocks file every raws =
      framed .blockRead file raws.length
        (parseBlocks file (max every 1) raws.length 0 none raws) := by
    rw [readBlocks]
    rcases parseBlocks file (max every 1) raws.length 0 none raws with ⟨_, _ | _⟩ <;> rfl
  rw [isFramed]
  exact (counts_parseBlocks 0 none raws).framed (through_marks (List.length_pos_iff.mpr nonempty))

/-- The transactions of a run are told of as its blocks are applied. -/
theorem tells_saveBlocks (file : UInt32) (every : Nat) (ledger : Ledger) {blocks : LinkedBlocks}
    (nonempty : blocks ≠ [])
    (filled : ∀ entry ∈ blocks, entry.2.transactions ≠ []) :
    Tells .blockSave file (WithinBlock every blocks) (countTransactions blocks)
      (saveBlocks file every ledger blocks) := by
  have isFramed : saveBlocks file every ledger blocks =
      framed .blockSave file (countTransactions blocks)
        (applyBlocks file (max every 1) (countTransactions blocks) 0 0 ledger blocks) := by
    rw [saveBlocks]
    rcases applyBlocks file (max every 1) (countTransactions blocks) 0 0 ledger blocks with
      ⟨_, _ | _⟩ <;> rfl
  rw [isFramed]
  exact (counts_applyBlocks 0 0 ledger blocks).framed (through_blockMarks nonempty filled)

/-- A block that is read has transactions. -/
theorem Reads.filled {raws : List RawBlock} {blocks : LinkedBlocks} (reads : Reads raws blocks) :
    ∀ entry ∈ blocks, entry.2.transactions ≠ [] := by
  induction reads with
  | nil => exact fun _ listed => by cases listed
  | cons here _ ih =>
    intro entry listed
    rcases List.mem_cons.mp listed with rfl | listed
    · exact (Block.parse_eq_ok_iff.mp here.2).1.nonempty
    · exact ih entry listed

/-! ## What the store reports -/

theorem reports_eq (batch : Batch) (every : Nat) :
    batch.reports every =
      marks (max every 1) batch.changes.claims.length 0 batch.changes.claims.length ++
        [batch.changes.claims.length] := by
  have counts : (List.range batch.changes.claims.length).map (· + 1) =
      List.range' 1 batch.changes.claims.length := by
    rw [List.range'_eq_map_range]
    exact List.map_congr_left fun count _ => Nat.add_comm count 1
  rw [Batch.reports, counts, marks]
  congr 1
  exact List.filter_congr fun step _ => by simp [Bool.beq_eq_decide_eq, bne]

end Stage

/-- The store reports the claim rows of a batch that it writes, and breaks off
before the last report for one that it does not write. -/
structure RowAccess.Reports {τ : Type} (access : RowAccess τ) : Prop where
  written : ∀ {batch : Batch} {every : Nat} {before after : τ} {reports : List Nat},
    access.commit batch every before = ((reports, .ok ()), after) →
      reports = batch.reports every
  refused : ∀ {batch : Batch} {every : Nat} {before after : τ} {reports : List Nat}
    {causes : List String},
    access.commit batch every before = ((reports, .error causes), after) →
      reports <+: batch.reports every ∧ reports ≠ batch.reports every

theorem RowStore.reports_access : RowStore.access.Reports where
  written := by
    rintro batch every before after reports ⟨⟩
    rfl
  refused := by
    rintro batch every before after reports causes ⟨⟩

theorem FaultyRows.reports_access : FaultyRows.access.Reports where
  written := by
    intro batch every before after reports written
    simp only [access] at written
    split at written
    · cases written
    · cases written
      rfl
  refused := by
    intro batch every before after reports causes refused
    simp only [access] at refused
    split at refused
    · cases refused
      refine ⟨List.nil_prefix, fun none => ?_⟩
      rw [Stage.reports_eq] at none
      simp at none
    · cases refused

namespace Stage

/-- The steps for what the store reports, with the one in front of the rows if
there are any. -/
def rowSteps (total : Nat) (reports : List Nat) : List Nat :=
  (if total = 0 then [] else [0]) ++ reports

theorem ticks_rowSteps (reports : List Nat) :
    ticks .claimUpdate file total (rowSteps total reports) =
      rowsStart file total ++ rowEvents file total reports := by
  rw [rowSteps, ticks_append, rowsStart]
  split <;> rfl

theorem through_rowSteps (batch : Batch) (every : Nat) :
    Through (Within every) batch.changes.claims.length
      (rowSteps batch.changes.claims.length (batch.reports every)) := by
  rw [rowSteps, reports_eq]
  by_cases nothing : batch.changes.claims.length = 0
  · rw [if_pos nothing, nothing]
    exact .zero
  · rw [if_neg nothing]
    exact through_marks (Nat.pos_of_ne_zero nothing)

/-- The claim rows of a run are told of as the store writes them. -/
theorem tells_commit {τ : Type} {access : RowAccess τ} (honest : access.Reports) (batch : Batch)
    {before after : τ} {reports : List Nat} {answer : Except (List String) Unit}
    (committed : access.commit batch (max every 1) before = ((reports, answer), after)) :
    Tells .claimUpdate batch.file (Within every) batch.changes.claims.length
      (rowsStart batch.file batch.changes.claims.length ++
          rowEvents batch.file batch.changes.claims.length reports,
        answer.mapError SyncError.store) := by
  refine ⟨_, (ticks_rowSteps reports).symm, ?_⟩
  have through := through_rowSteps batch (max every 1)
  rw [within_max] at through
  cases answer with
  | ok _ =>
    rw [honest.written committed]
    exact through
  | error causes =>
    obtain ⟨begun, short⟩ := honest.refused committed
    rw [reports_eq] at begun short
    rw [rowSteps, reports_eq, ← List.append_assoc] at through
    have begun := (List.prefix_concat_iff.mp begun).resolve_left short
    exact through.cut ((List.prefix_append_right_inj _).mpr begun)

end Stage

end ClaimLedger
