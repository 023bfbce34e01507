/-
# Runs that cover what is asked for

A source may announce anything for the heights that an advance asks for: runs that overlap, leave
heights out, go backwards, end early or go past the tip, or no runs at all. `IsCover` says what it
has to announce, in terms of the heights alone: the runs, read one after the other, are the heights
that were asked for. The check goes over the runs once and compares where each one starts with
where the one before it ended, and it accepts these and no others. An advance asks three questions
before the check, and if the check fails it stops with nothing told and nothing written.
-/

import ClaimLedger.Proofs.Sync.Told

namespace ClaimLedger

/-! ## Heights in a row -/

/-- A row of heights goes on behind any of them. -/
theorem heightsFrom_append {first between last : Height} (notTop : between ≠ Height.top)
    (inOrder : first ≤ between) (within : between ≤ last) :
    heightsFrom first last = heightsFrom first between ++ heightsFrom (between + 1) last := by
  have next : (between + 1).toNat = between.toNat + 1 := Ledger.toNat_next notTop
  rw [UInt32.le_iff_toNat_le] at inOrder within
  have count : last.toNat + 1 - first.toNat =
      (between.toNat + 1 - first.toNat) + (last.toNat + 1 - (between.toNat + 1)) := by omega
  have start : between.toNat + 1 = first.toNat + (between.toNat + 1 - first.toNat) := by omega
  rw [heightsFrom, heightsFrom, heightsFrom, next, count, ← List.map_append,
    ← List.range'_append_1, ← start]

theorem heightsFrom_eq_nil_iff {first last : Height} :
    heightsFrom first last = [] ↔ last < first := by
  rw [heightsFrom, List.map_eq_nil_iff, List.range'_eq_nil_iff, UInt32.lt_iff_toNat_lt]
  omega

theorem length_heightsFrom (first last : Height) :
    (heightsFrom first last).length = last.toNat + 1 - first.toNat := by
  rw [heightsFrom, List.length_map, List.length_range']

/-- The first height of a row that holds any. -/
theorem head?_heightsFrom_of_le {first last : Height} (inOrder : first ≤ last) :
    (heightsFrom first last).head? = some first := by
  cases found : (heightsFrom first last).head? with
  | none =>
    have nothing := heightsFrom_eq_nil_iff.mp (List.head?_eq_none_iff.mp found)
    exact absurd nothing (UInt32.not_lt.mpr inOrder)
  | some height => rw [head?_heightsFrom found]

namespace Coverage

variable {tip first : Height} {run : BlockRun} {runs : List BlockRun}

/-- None of the runs goes backwards, and read one after the other they are the heights from the
first to the tip, each of them once and in order. -/
def IsCover (first tip : Height) (runs : List BlockRun) : Prop :=
  (∀ run ∈ runs, run.first ≤ run.last) ∧
    runs.flatMap (fun run => heightsFrom run.first run.last) = heightsFrom first tip

instance (first tip : Height) (runs : List BlockRun) : Decidable (IsCover first tip runs) :=
  inferInstanceAs (Decidable (_ ∧ _))

theorem isCover_nil : IsCover first tip [] ↔ tip < first := by
  rw [IsCover, List.flatMap_nil, eq_comm, heightsFrom_eq_nil_iff]
  exact and_iff_right (List.forall_mem_nil _)

/-- The first run of a cover starts it, ends within it, and leaves the rest to the others. -/
theorem isCover_cons (notTop : run.last ≠ Height.top) :
    IsCover first tip (run :: runs) ↔
      run.first = first ∧ run.first ≤ run.last ∧ run.last ≤ tip ∧
        IsCover (run.last + 1) tip runs := by
  rw [IsCover, IsCover, List.flatMap_cons, List.forall_mem_cons]
  constructor
  · rintro ⟨⟨inOrder, ordered⟩, same⟩
    have isFirst : run.first = first := by
      have isHead := congrArg List.head? same
      rw [List.head?_append, head?_heightsFrom_of_le inOrder, Option.some_or] at isHead
      exact head?_heightsFrom isHead.symm
    have within : run.last ≤ tip := by
      have count := congrArg List.length same
      rw [List.length_append, length_heightsFrom, length_heightsFrom, isFirst] at count
      rw [isFirst, UInt32.le_iff_toNat_le] at inOrder
      rw [UInt32.le_iff_toNat_le]
      omega
    refine ⟨isFirst, inOrder, within, ordered, ?_⟩
    rw [heightsFrom_append notTop (isFirst ▸ inOrder) within, ← isFirst] at same
    exact List.append_cancel_left same
  · rintro ⟨rfl, inOrder, within, ordered, same⟩
    exact ⟨⟨inOrder, ordered⟩, by rw [same, ← heightsFrom_append notTop inOrder within]⟩

/-- What is covered starts no later than right behind the tip. -/
theorem le_of_check (covered : check tip first runs = .ok ()) : first.toNat ≤ tip.toNat + 1 := by
  induction runs generalizing first with
  | nil =>
    obtain ⟨notTop, rfl⟩ := check_nil covered
    exact Nat.le_of_eq (Ledger.toNat_next notTop)
  | cons run more ih =>
    obtain ⟨rfl, inOrder, notTop, covered⟩ := check_cons covered
    have behind := ih covered
    rw [show (run.last + 1).toNat = run.last.toNat + 1 from Ledger.toNat_next notTop] at behind
    rw [UInt32.le_iff_toNat_le] at inOrder
    omega

/-- The check accepts the covers and nothing else. -/
theorem check_eq_ok_iff (tipExists : tip ≠ Height.top)
    (endsExist : ∀ run ∈ runs, run.last ≠ Height.top) (within : first.toNat ≤ tip.toNat + 1) :
    check tip first runs = .ok () ↔ IsCover first tip runs := by
  have behindTip : (tip + 1).toNat = tip.toNat + 1 := Ledger.toNat_next tipExists
  induction runs generalizing first with
  | nil =>
    rw [isCover_nil, check, if_neg tipExists]
    constructor
    · intro accepted
      split at accepted
      · next isNext =>
        rw [isNext, UInt32.lt_iff_toNat_lt]
        omega
      · cases accepted
    · intro behind
      rw [UInt32.lt_iff_toNat_lt] at behind
      rw [if_pos (UInt32.toNat_inj.mp (by omega))]
  | cons run more ih =>
    obtain ⟨notTop, endsExist⟩ := List.forall_mem_cons.mp endsExist
    have next : (run.last + 1).toNat = run.last.toNat + 1 := Ledger.toNat_next notTop
    rw [isCover_cons notTop]
    constructor
    · intro accepted
      obtain ⟨isFirst, inOrder, -, rest⟩ := check_cons accepted
      have behind := le_of_check rest
      exact ⟨isFirst, inOrder, UInt32.le_iff_toNat_le.mpr (by omega),
        (ih endsExist (by omega)).mp rest⟩
    · rintro ⟨isFirst, inOrder, upTo, rest⟩
      rw [UInt32.le_iff_toNat_le] at upTo
      rw [check, if_neg, if_neg notTop]
      · exact (ih endsExist (by omega)).mpr rest
      · exact not_or.mpr ⟨not_not.mpr isFirst, UInt32.not_lt.mpr inOrder⟩

/-- As long as there is a height behind each run, runs are refused as corrupt. -/
theorem check_eq_ok_or_corrupt (tipExists : tip ≠ Height.top)
    (endsExist : ∀ run ∈ runs, run.last ≠ Height.top) (first : Height) :
    check tip first runs = .ok () ∨ ∃ file height reason,
      check tip first runs = .error (.corruptBlockData file (some height) reason) := by
  induction runs generalizing first with
  | nil =>
    rw [check, if_neg tipExists]
    split
    · exact .inl rfl
    · exact .inr ⟨_, _, _, rfl⟩
  | cons run more ih =>
    obtain ⟨notTop, endsExist⟩ := List.forall_mem_cons.mp endsExist
    rw [check, if_neg notTop]
    split
    · exact .inr ⟨_, _, _, rfl⟩
    · exact ih endsExist _

end Coverage

/-! ## An advance up to the check -/

namespace Sync

variable {σ τ : Type} {env : Surroundings σ τ} {state asked : SyncState σ τ}
variable {synced : Option Height} {tip : Height} {runs : List BlockRun}

/-- Asked by an advance, the source has blocks up to a tip that the rows have not reached, and
announces these runs for them. What the questions change is the state of the source, and that of
the store as far as its answer does. -/
structure Announced (env : Surroundings σ τ) (state : SyncState σ τ) (synced : Option Height)
    (tip : Height) (runs : List BlockRun) (asked : SyncState σ τ) : Prop where
  rows : env.rows.lastSynced state.rows = (.ok synced, asked.rows)
  source : ∃ heard, env.source.tipHeight state.chain = (.ok (some tip), heard) ∧
    env.source.blockRuns (Height.next synced) tip heard = (.ok runs, asked.chain)
  notTop : synced ≠ some Height.top
  behind : Height.next synced ≤ tip
  ledger : asked.ledger = state.ledger
  published : asked.published = state.published

/-- The survey finds the plan, or what the check has against it. -/
theorem run_survey (announced : Announced env state synced tip runs asked) :
    (survey env).run state =
      ((Coverage.check tip (Height.next synced) runs).map fun _ => some ⟨synced, tip, runs⟩,
        asked) := by
  obtain ⟨chain, rows, ledger, published⟩ := asked
  obtain ⟨cursor, ⟨heard, known, listed⟩, notTop, behind, rfl, rfl⟩ := announced
  have tips : (askChain env.source.tipHeight : SyncM σ τ (Option Height)).run state =
      (.ok (some tip), { state with chain := heard }) := by
    rw [run_askChain, known]
  have cursors : (askRows env.rows.lastSynced : SyncM σ τ (Option Height)).run
      { state with chain := heard } = (.ok synced, { state with chain := heard, rows }) := by
    rw [run_askRows, cursor]
    rfl
  have announces : (askChain (env.source.blockRuns (Height.next synced) tip) :
      SyncM σ τ (List BlockRun)).run { state with chain := heard, rows } =
      (.ok runs, { state with chain, rows }) := by
    rw [run_askChain, listed]
  rw [survey, run_bind_ok tips]
  simp only
  rw [run_bind_ok cursors, if_neg notTop, if_neg (UInt32.not_lt.mpr behind), run_bind_ok announces]
  cases Coverage.check tip (Height.next synced) runs with
  | error failure => rfl
  | ok _ => rfl

/-- An advance whose runs do not pass the check ends with what the check says. Nothing was told or
written, and the ledger in memory is dropped. -/
theorem advance_of_check_error (announced : Announced env state synced tip runs asked)
    {failure : SyncError}
    (refused : Coverage.check tip (Height.next synced) runs = .error failure) :
    advance env state = (.error failure, { asked with ledger := none }) := by
  have surveyed := run_survey announced
  rw [refused] at surveyed
  have stopped : (advanceToTip env).run state = (.error failure, asked) := by
    rw [advanceToTip_eq, run_bind_error surveyed]
  rw [advance, stopped]

end Sync

namespace Coverage

/-- The runs that a source announces pass the check if, and only if, they are a cover of the
heights that were asked for. Any others are refused as corrupt, and so is the advance that asked
for them, with no event told and the rows of the store as they were. -/
theorem check_decides_isCover {first tip : Height} {runs : List BlockRun} (asked : first ≤ tip)
    (tipBelow : tip < Height.top) (endsBelow : ∀ run ∈ runs, run.last < Height.top) :
    (check tip first runs = .ok () ↔ IsCover first tip runs) ∧
      (¬ IsCover first tip runs → ∃ file height reason,
        check tip first runs = .error (.corruptBlockData file (some height) reason) ∧
          ∀ {σ τ : Type} {env : Surroundings σ τ} {rows : τ → RowStore}
            {state heard : SyncState σ τ} {synced : Option Height}, env.rows.Atomic rows →
            Sync.Announced env state synced tip runs heard → Height.next synced = first →
              (Sync.advance env state).1 = .error (.corruptBlockData file (some height) reason) ∧
              (Sync.advance env state).2.published = state.published ∧
              rows (Sync.advance env state).2.rows = rows state.rows) := by
  have tipExists := UInt32.ne_of_lt tipBelow
  have endsExist (run : BlockRun) (listed : run ∈ runs) : run.last ≠ Height.top :=
    UInt32.ne_of_lt (endsBelow run listed)
  have accepts : check tip first runs = .ok () ↔ IsCover first tip runs :=
    check_eq_ok_iff tipExists endsExist (Nat.le_succ_of_le (UInt32.le_iff_toNat_le.mp asked))
  refine ⟨accepts, fun uncovered => ?_⟩
  obtain accepted | ⟨file, height, reason, refused⟩ :=
    check_eq_ok_or_corrupt tipExists endsExist first
  · exact absurd (accepts.mp accepted) uncovered
  refine ⟨file, height, reason, refused, ?_⟩
  intro σ τ env rows state heard synced atomic announced isFirst
  have read := atomic.lastSynced_rows state.rows
  rw [announced.rows] at read
  rw [Sync.advance_of_check_error announced (isFirst ▸ refused)]
  exact ⟨rfl, announced.published, read⟩

/-- Runs up to height 5 that leave height 3 out, and go over height 2 twice. -/
def patchyRuns : List BlockRun :=
  [⟨0, 0, 2, 3, 3⟩, ⟨1, 2, 2, 1, 1⟩, ⟨2, 4, 5, 2, 2⟩]

/-- A source that announces them, whatever it is asked for. -/
def patchySurroundings : Surroundings Unit RowStore :=
  ⟨⟨fun _ => (.ok (some 5), ()), fun _ _ _ => (.ok patchyRuns, ()), fun _ _ => (.ok [], ())⟩,
    RowStore.access, fun _ => false, ⟨1, 1, 1⟩, Rules.regtest⟩

/-- As many heights as asked for are not enough. -/
theorem check_decides_patchy :
    let state : SyncState Unit RowStore := { chain := (), rows := RowStore.empty }
    ¬ IsCover 0 5 patchyRuns ∧
      (patchyRuns.flatMap fun run => heightsFrom run.first run.last).length =
        (heightsFrom 0 5).length ∧
      ∃ file height reason,
        check 5 0 patchyRuns = .error (.corruptBlockData file (some height) reason) ∧
          (Sync.advance patchySurroundings state).1 =
            .error (.corruptBlockData file (some height) reason) ∧
          (Sync.advance patchySurroundings state).2.published = [] ∧
          (Sync.advance patchySurroundings state).2.rows = RowStore.empty := by
  intro state
  have uncovered : ¬ IsCover 0 5 patchyRuns := by decide
  have asked : (0 : Height) ≤ 5 := by decide
  have tipBelow : (5 : Height) < Height.top := by decide
  have endsBelow : ∀ run ∈ patchyRuns, run.last < Height.top := by decide
  obtain ⟨file, height, reason, refused, ends⟩ :=
    (check_decides_isCover asked tipBelow endsBelow).2 uncovered
  have announced : Sync.Announced patchySurroundings state none 5 patchyRuns state :=
    ⟨rfl, ⟨(), rfl, rfl⟩, by simp, by decide, rfl, rfl⟩
  exact ⟨uncovered, by decide, file, height, reason, refused,
    ends RowStore.atomic_access announced rfl⟩

end Coverage

end ClaimLedger
