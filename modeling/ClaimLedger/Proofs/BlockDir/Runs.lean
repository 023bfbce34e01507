/-
# Runs of a directory

The blocks between two heights are announced in runs, one for each stretch of
blocks that lie in the same file. The runs cover the heights without a gap, count
their blocks and transactions, and reading them one after the other gives the
blocks again in order.
-/

import Mathlib.Data.List.Chain
import ClaimLedger.BlockDir
import ClaimLedger.Proofs.Ledger.Replay
import ClaimLedger.Sync.Coverage

namespace ClaimLedger

theorem Height.toNat_succ {height : Height} (notTop : height ≠ Height.top) :
    (height + 1).toNat = height.toNat + 1 :=
  Ledger.toNat_next notTop

theorem Height.ne_top_of_lt {height other : Height} (lt : height.toNat < other.toNat) :
    height ≠ Height.top := by
  rintro rfl
  have below := other.toNat_lt
  have top : Height.top.toNat = 4294967295 := rfl
  omega

namespace BlockDir

/-- The height and the place of a block. -/
abbrev Place := Height × Location

/-- The places are those of heights that follow one another. -/
def Consecutive (first : Nat) (places : List Place) : Prop :=
  places.map (fun place => place.1.toNat) = List.range' first places.length

/-- The number of transactions announced at some places. -/
def txsAt (places : List Place) : Nat :=
  (places.map fun place => place.2.txs.toNat).sum

/-- The run stands for a stretch of blocks in one file. -/
structure Spans (run : BlockRun) (part : List Place) : Prop where
  consecutive : Consecutive run.first.toNat part
  last : run.last.toNat + 1 = run.first.toNat + part.length
  inOrder : run.first ≤ run.last
  file : ∀ place ∈ part, place.2.file = run.file
  blocks : run.blocks.toNat = part.length
  txs : run.txs.toNat = txsAt part

namespace Consecutive

variable {first : Nat} {place : Place} {places : List Place}

theorem cons_iff : Consecutive first (place :: places) ↔
    place.1.toNat = first ∧ Consecutive (first + 1) places := by
  rw [Consecutive, Consecutive, List.map_cons, List.length_cons, List.range'_succ,
    List.cons.injEq]

end Consecutive

/-- A single block is a run. -/
theorem spans_alone (place : Place) :
    Spans ⟨place.2.file, place.1, place.1, 1, place.2.txs⟩ [place] where
  consecutive := rfl
  last := rfl
  inOrder := UInt32.le_refl _
  file := fun other listed => by rw [List.mem_singleton.mp listed]
  blocks := rfl
  txs := rfl

/-- A block in front of a run in the same file makes the run longer. -/
theorem Spans.cons {run : BlockRun} {part : List Place} {place : Place} (spans : Spans run part)
    (before : place.1.toNat + 1 = run.first.toNat) (file : run.file = place.2.file)
    (few : part.length + 1 < 2 ^ 32) (fits : txsAt (place :: part) < 2 ^ 64) :
    Spans { run with
      first := place.1
      blocks := run.blocks + 1
      txs := place.2.txs + run.txs } (place :: part) := by
  have last := spans.last
  have inOrder := UInt32.le_iff_toNat_le.mp spans.inOrder
  have txs : txsAt (place :: part) = place.2.txs.toNat + run.txs.toNat := by
    rw [spans.txs, txsAt, txsAt, List.map_cons, List.sum_cons]
  constructor
  · rw [Consecutive.cons_iff]
    refine ⟨rfl, ?_⟩
    rw [before]
    exact spans.consecutive
  · show run.last.toNat + 1 = place.1.toNat + (part.length + 1)
    omega
  · show place.1 ≤ run.last
    exact UInt32.le_iff_toNat_le.mpr (by omega)
  · intro other listed
    rcases List.mem_cons.mp listed with rfl | listed
    · exact file.symm
    · exact spans.file other listed
  · show (run.blocks + 1).toNat = part.length + 1
    rw [UInt32.toNat_add, spans.blocks, UInt32.toNat_one]
    exact Nat.mod_eq_of_lt few
  · show (place.2.txs + run.txs).toNat = _
    rw [txs] at fits ⊢
    rw [UInt64.toNat_add]
    exact Nat.mod_eq_of_lt fits

theorem Spans.ne_nil {run : BlockRun} {part : List Place} (spans : Spans run part) :
    part ≠ [] := by
  rintro rfl
  have last : run.last.toNat + 1 = run.first.toNat := spans.last
  have inOrder := UInt32.le_iff_toNat_le.mp spans.inOrder
  omega

/-- A run starts where its blocks do. -/
theorem Spans.first_eq {run : BlockRun} {part more : List Place} {first : Nat}
    (spans : Spans run part) (consecutive : Consecutive first (part ++ more)) :
    run.first.toNat = first := by
  cases part with
  | nil => exact absurd rfl spans.ne_nil
  | cons place part =>
    obtain ⟨isFirst, -⟩ := Consecutive.cons_iff.mp consecutive
    obtain ⟨isFirst', -⟩ := Consecutive.cons_iff.mp spans.consecutive
    exact isFirst'.symm.trans isFirst

/-- Places that follow one another are put together in runs, neighbours of which
lie in different files. -/
theorem joinRuns_of_consecutive {places : List Place} {first : Nat}
    (consecutive : Consecutive first places) (few : places.length < 2 ^ 32)
    (fits : txsAt places < 2 ^ 64) :
    ∃ runs parts, joinRuns places = .ok runs ∧ List.Forall₂ Spans runs parts ∧
      parts.flatten = places ∧ runs.IsChain fun before after => before.file ≠ after.file := by
  induction places generalizing first with
  | nil => exact ⟨[], [], rfl, .nil, rfl, List.isChain_nil⟩
  | cons place more ih =>
    obtain ⟨isFirst, consecutive⟩ := Consecutive.cons_iff.mp consecutive
    have sum : txsAt (place :: more) = place.2.txs.toNat + txsAt more := by
      rw [txsAt, List.map_cons, List.sum_cons, txsAt]
    have step : joinRuns (place :: more) = joinRuns more >>= joinRun place.1 place.2 := rfl
    rw [List.length_cons] at few
    obtain ⟨runs, parts, joined, spans, rfl, apart⟩ := ih consecutive (by omega) (by omega)
    rw [step, joined]
    show ∃ runs' parts', joinRun place.1 place.2 runs = _ ∧ _
    cases spans with
    | nil =>
      exact ⟨_, [[place]], rfl, .cons (spans_alone place) .nil, rfl, List.isChain_singleton _⟩
    | @cons run part runs parts here later =>
      rw [List.flatten_cons] at *
      rw [joinRun]
      by_cases same : run.file = place.2.file
      · have before : place.1.toNat + 1 = run.first.toNat := by
          rw [isFirst, here.first_eq consecutive]
        have txs : txsAt (part ++ parts.flatten) = run.txs.toNat + txsAt parts.flatten := by
          rw [here.txs, txsAt, txsAt, txsAt, List.map_append, List.sum_append]
        have txs' : txsAt (place :: part) = place.2.txs.toNat + run.txs.toNat := by
          rw [here.txs, txsAt, txsAt, List.map_cons, List.sum_cons]
        rw [List.length_append] at few
        have longer := here.cons before same (by omega) (by omega)
        have noOverflow : ¬ place.2.txs + run.txs < run.txs := by
          have total := longer.txs
          rw [UInt64.lt_iff_toNat_lt, total]
          omega
        rw [if_neg (not_not.mpr same)]
        simp only
        rw [if_neg noOverflow]
        refine ⟨_, (place :: part) :: parts, rfl, .cons longer later, rfl, ?_⟩
        cases runs with
        | nil => exact List.isChain_singleton _
        | cons next runs =>
          rw [List.isChain_cons_cons] at apart ⊢
          exact apart
      · rw [if_pos same]
        refine ⟨_, [place] :: part :: parts, rfl, .cons (spans_alone place) (.cons here later), rfl,
          ?_⟩
        exact List.isChain_cons_cons.mpr ⟨fun other => same other.symm, apart⟩

/-! ## What the runs amount to -/

section Amounts

variable {runs : List BlockRun} {parts : List (List Place)}

theorem Consecutive.append_iff {first : Nat} {left right : List Place} :
    Consecutive first (left ++ right) ↔
      Consecutive first left ∧ Consecutive (first + left.length) right := by
  induction left generalizing first with
  | nil =>
    rw [List.nil_append, List.length_nil, Nat.add_zero]
    exact (and_iff_right rfl).symm
  | cons place left ih =>
    rw [List.cons_append, cons_iff, cons_iff, ih, and_assoc, List.length_cons, Nat.add_assoc,
      Nat.add_comm 1]

/-- The runs cover the heights of their blocks. -/
theorem check_of_spans (spans : List.Forall₂ Spans runs parts) {next tip : Height}
    (consecutive : Consecutive next.toNat parts.flatten) (below : tip ≠ Height.top)
    (whole : next.toNat + parts.flatten.length = tip.toNat + 1) :
    Coverage.check tip next runs = .ok () := by
  induction spans generalizing next with
  | nil =>
    have isNext : next = tip + 1 := by
      rw [← UInt32.toNat_inj, Height.toNat_succ below]
      exact whole
    rw [Coverage.check, if_neg below, if_pos isNext]
  | @cons run part runs parts here later ih =>
    rw [List.flatten_cons] at consecutive whole
    rw [List.length_append] at whole
    have first : run.first = next := UInt32.toNat_inj.mp (here.first_eq consecutive)
    have last := here.last
    have inOrder := UInt32.le_iff_toNat_le.mp here.inOrder
    have notTop : run.last ≠ Height.top := by
      rw [first] at last
      rcases Nat.lt_or_eq_of_le (show run.last.toNat ≤ tip.toNat by omega) with lt | same
      · exact Height.ne_top_of_lt lt
      · rwa [UInt32.toNat_inj.mp same]
    have following := Height.toNat_succ notTop
    rw [Coverage.check, if_neg, if_neg notTop]
    · apply ih
      · rw [following, last, first]
        exact (Consecutive.append_iff.mp consecutive).2
      · rw [following, last, first]
        omega
    · rw [first]
      simp [here.inOrder, ← first]

theorem sum_blocks_of_spans (spans : List.Forall₂ Spans runs parts) :
    (runs.map fun run => run.blocks.toNat).sum = parts.flatten.length := by
  induction spans with
  | nil => rfl
  | cons here _ ih =>
    rw [List.map_cons, List.sum_cons, ih, here.blocks, List.flatten_cons, List.length_append]

theorem sum_txs_of_spans (spans : List.Forall₂ Spans runs parts) :
    (runs.map fun run => run.txs.toNat).sum = txsAt parts.flatten := by
  induction spans with
  | nil => rfl
  | cons here _ ih =>
    rw [List.map_cons, List.sum_cons, ih, here.txs, List.flatten_cons, txsAt, txsAt, txsAt,
      List.map_append, List.sum_append]

end Amounts

/-! ## Reading the blocks of a run -/

section Reading

variable {directory : Directory} {index : BlockIndex} {file : UInt32}

/-- What is read at a place. -/
def rawAt (directory : Directory) (place : Place) : RawBlock :=
  ⟨place.1, (readAt directory place.2).toOption.getD []⟩

/-- The index has the place, and there is something to read. -/
def Readable (directory : Directory) (index : BlockIndex) (place : Place) : Prop :=
  (∃ hash, index.blockAt? place.1 = some (hash, place.2)) ∧
    ∃ bytes, readAt directory place.2 = .ok bytes

theorem readAll_of_consecutive {part : List Place} {first : Height}
    (consecutive : Consecutive first.toNat part)
    (readable : ∀ place ∈ part, Readable directory index place) :
    readAll directory index file part.length first = .ok (part.map (rawAt directory)) := by
  induction part generalizing first with
  | nil => rfl
  | cons place part ih =>
    obtain ⟨isFirst, consecutive⟩ := Consecutive.cons_iff.mp consecutive
    obtain ⟨⟨hash, found⟩, bytes, read⟩ := readable place List.mem_cons_self
    have isFirst : place.1 = first := UInt32.toNat_inj.mp isFirst
    have later : readAll directory index file part.length (first + 1) =
        .ok (part.map (rawAt directory)) := by
      cases part with
      | nil => rfl
      | cons next part =>
        -- the height behind the first one exists, since there is a block at it
        have isNext := (Consecutive.cons_iff.mp consecutive).1
        have lt : first.toNat < next.1.toNat := by omega
        have notTop := Height.ne_top_of_lt lt
        apply ih
        · rw [Height.toNat_succ notTop]
          exact consecutive
        · exact fun other listed => readable other (List.mem_cons_of_mem place listed)
    have raw : rawAt directory place = ⟨first, bytes⟩ := by
      rw [rawAt, read, isFirst]
      rfl
    rw [List.length_cons, readAll, ← isFirst, found]
    simp only
    rw [read, isFirst, later, List.map_cons, raw]
    rfl

/-- Run by run, the blocks are read in order. -/
theorem readAll_of_spans {runs : List BlockRun} {parts : List (List Place)}
    (spans : List.Forall₂ Spans runs parts)
    (readable : ∀ place ∈ parts.flatten, Readable directory index place) :
    List.Forall₂ (fun run raws => readAll directory index run.file
      (run.last.toNat + 1 - run.first.toNat) run.first = .ok raws) runs
      (parts.map fun part => part.map (rawAt directory)) := by
  induction spans with
  | nil => exact .nil
  | @cons run part runs parts here later ih =>
    rw [List.flatten_cons] at readable
    have count : run.last.toNat + 1 - run.first.toNat = part.length := by
      rw [here.last]
      omega
    refine .cons ?_ (ih fun place listed => readable place (List.mem_append_right part listed))
    rw [count]
    exact readAll_of_consecutive here.consecutive fun place listed =>
      readable place (List.mem_append_left _ listed)

end Reading

end BlockDir

end ClaimLedger
