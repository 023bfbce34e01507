/-
# Starting again from stored rows

A ledger that is rebuilt from stored rows has the rows of the ledger that they
came from, and so the same standings. Its schedule is its own: every name is put
on it for its next date, which is all that a schedule has to promise. So it
takes the coming blocks in the same way, and what a chain leads to does not
depend on how often it was rebuilt on the way.
-/

import ClaimLedger.Proofs.Ledger.Eager
import ClaimLedger.Proofs.Ledger.Rebuild
import ClaimLedger.Proofs.RowStore.Tracked

namespace ClaimLedger

namespace Ledger

variable {ledger left right replica after : Ledger} {height : Height} {txs : List BlockTx}

/-! ## The schedule of a rebuilt ledger -/

/-- Once every name of a list was put on the schedule, each of them is listed no
later than any of its coming dates. -/
theorem exists_dueAt_foldl_scheduleNext {names : List Bytes} {name : Bytes}
    (listed : name ∈ names) {date : Height} (coming : date ∈ (ledger.standing name).dates)
    (later : height < date) :
    ∃ key, height < key ∧ key ≤ date ∧
      name ∈ (names.foldl (fun ledger name => ledger.scheduleNext name height)
        ledger).dueAt key := by
  -- nothing comes off the schedule on the way
  have stays (names : List Bytes) {ledger : Ledger} {key : Height}
      (due : name ∈ ledger.dueAt key) :
      name ∈ (names.foldl (fun ledger name => ledger.scheduleNext name height)
        ledger).dueAt key :=
    List.foldlRecOn (motive := fun now : Ledger => name ∈ now.dueAt key) _ _ due
      fun _ due other _ => mem_dueAt_scheduleNext.mpr (.inl due)
  induction names generalizing ledger with
  | nil => cases listed
  | cons first more ih =>
    rw [List.foldl_cons]
    rcases List.mem_cons.mp listed with rfl | listed
    · obtain ⟨key, next, inTime, due⟩ := exists_dueAt_scheduleNext coming later
      exact ⟨key, next, inTime, stays more due⟩
    · apply ih listed
      rw [standing_scheduleNext]
      exact coming

theorem ofSnapshot_eq {rules : Rules} {snapshot : Snapshot}
    (last : snapshot.height = some height) :
    ofSnapshot rules snapshot =
      (loaded rules snapshot).names.keys.foldl (fun ledger name => ledger.scheduleNext name height)
        (loaded rules snapshot) := by
  simp only [ofSnapshot, loaded, last]

/-- A rebuilt ledger has every name on its schedule in time. -/
theorem exists_dueAt_ofSnapshot {rules : Rules} {snapshot : Snapshot}
    (last : snapshot.height = some height) {name : Bytes} {date : Height}
    (coming : date ∈ ((ofSnapshot rules snapshot).standing name).dates) (later : height < date) :
    ∃ key, height < key ∧ key ≤ date ∧ name ∈ (ofSnapshot rules snapshot).dueAt key := by
  rw [(alike_ofSnapshot False rules snapshot).standing_eq] at coming
  by_cases used : name ∈ (loaded rules snapshot).names
  · rw [ofSnapshot_eq last]
    exact exists_dueAt_foldl_scheduleNext (Std.ExtTreeMap.mem_keys.mpr used) coming later
  · rw [standing_of_not_mem used] at coming
    cases coming

theorem height_ofSnapshot (rules : Rules) (snapshot : Snapshot) :
    (ofSnapshot rules snapshot).height = snapshot.height :=
  (alike_ofSnapshot False rules snapshot).height.trans (height_loaded rules snapshot)

/-- A rebuilt ledger has no changes to hand out. -/
theorem dirty_ofSnapshot (rules : Rules) (snapshot : Snapshot) :
    (ofSnapshot rules snapshot).dirty = {} :=
  ((alike_ofSnapshot True rules snapshot).dirty trivial).trans (dirty_loaded rules snapshot)

/-! ## Ledgers that take the coming blocks alike -/

theorem Alike.grounded {marks : Prop} {used : List OutPoint} (alike : Alike marks left right)
    (grounded : left.Grounded used) : right.Grounded used := by
  obtain ⟨schedule, dirty, rfl, -⟩ := alike.eq_with
  exact ⟨grounded.claims, grounded.supports, grounded.apart⟩

/-- A ledger that is alike a sound one is sound, if its own schedule keeps the
promise. -/
theorem Alike.sound {marks : Prop} (alike : Alike marks left right) (sound : left.Sound)
    (scheduled : ∀ {height : Height}, right.height = some height → ∀ name,
      ∀ date ∈ (right.standing name).dates, height < date →
        ∃ key, height < key ∧ key ≤ date ∧ name ∈ right.dueAt key) : right.Sound where
  indexed := alike.indexed sound.indexed
  inUse := by
    intro name used
    rw [alike.names] at used
    rw [alike.standing_eq]
    exact sound.inUse name used
  unused := by
    rw [alike.height, alike.names]
    exact sound.unused
  settled := by
    intro height last name
    rw [alike.height] at last
    rw [alike.standing_eq]
    exact sound.settled last name
  scheduled := scheduled

/-- Sound ledgers that are alike take a block in the same way, whatever their
schedules. -/
theorem sameOutcome_applyBlock {marks : Prop} {earlier : List OutPoint} (sound : left.Sound)
    (sound' : right.Sound) (grounded : left.Grounded earlier)
    (fresh : (earlier ++ BlockTx.allOutputs txs).Nodup) (alike : Alike marks left right)
    (height : Height) :
    SameOutcome marks (left.applyBlock height txs) (right.applyBlock height txs) := by
  -- the engine that settles every name looks at no schedule
  have first := sameOutcome_applyBlockEagerly sound grounded fresh alike height
  have second : SameOutcome marks (right.applyBlock height txs)
      (right.applyBlockEagerly height txs) :=
    sameOutcome_applyBlockEagerly sound' (alike.grounded grounded) fresh (Alike.refl right) height
  exact first.trans second.symm

/-- A ledger is alike the one that is rebuilt from its rows, in whatever order
they come. -/
theorem alike_ofSnapshot_of_same (sound : ledger.Sound) {snapshot : Snapshot}
    (same : ledger.snapshot.Same snapshot) :
    Alike False ledger (ofSnapshot ledger.rules snapshot) := by
  have holds := holds_ofSnapshot ledger.rules ((distinct_snapshot sound.indexed).of_same same)
  have alike := alike_ofSnapshot False ledger.rules snapshot
  apply alike_of_standing sound.indexed holds.indexed sound.inUse holds.inUse
  · intro name
    apply standing_eq_of_rows sound.indexed holds.indexed
    · exact holds.claims_eq sound.indexed.claim_hash fun claim => same.claims.mem_iff
    · exact holds.supports_eq sound.indexed.support_outpoint fun support => same.supports.mem_iff
    · rw [Option.ext_iff]
      intro takeover
      rw [holds.takeovers, same.takeovers.mem_iff, mem_snapshot_takeovers]
  · exact alike.rules.trans (rules_loaded ledger.rules snapshot)
  · exact (height_ofSnapshot ledger.rules snapshot).trans same.height

/-- The ledger answers like one that took in these blocks from the first one
on. -/
structure Stands (rules : Rules) (blocks : List (List BlockTx)) (ledger : Ledger) : Prop where
  replayed : ∃ replica summaries,
    Engine.replay applyBlock rules blocks = .ok (replica, summaries) ∧ Alike False replica ledger
  sound : ledger.Sound

namespace Stands

variable {rules : Rules} {blocks : List (List BlockTx)} {summary : BlockSummary}

/-- One more block takes it one block further. -/
theorem concat (stands : Stands rules blocks ledger) (fresh : Fresh (blocks ++ [txs]))
    (done : ledger.applyBlock height txs = (after, .ok summary)) :
    Stands rules (blocks ++ [txs]) after := by
  obtain ⟨replica, summaries, run, alike⟩ := stands.replayed
  obtain ⟨sound, grounded⟩ := sound_and_grounded_of_replay fresh.init run
  obtain ⟨same, answer⟩ :=
    sameOutcome_applyBlock sound stands.sound grounded fresh.outputs_concat alike height
  have taken := taken_of_applyBlock stands.sound.indexed (alike.grounded grounded)
    fresh.outputs_concat done
  refine ⟨?_, taken.sound stands.sound⟩
  have next : height = Height.next replica.height := by
    rw [taken.next, alike.height]
  rw [done, next] at same answer
  cases result : replica.applyBlock (Height.next replica.height) txs with
  | mk last outcome =>
    rw [result] at same answer
    have accepted : replica.applyBlock (Height.next replica.height) txs = (last, .ok summary) :=
      result.trans (congrArg (Prod.mk last) answer.symm)
    exact ⟨last, summaries ++ [summary],
      Engine.replay_concat_eq_ok.mpr ⟨replica, summaries, summary, run, accepted, rfl⟩, same⟩

/-- Forgetting the marks takes nothing away. -/
theorem takeChanges (stands : Stands rules blocks ledger) :
    Stands rules blocks ledger.takeChanges.2 := by
  have alike : Alike False ledger ledger.takeChanges.2 :=
    ⟨rfl, rfl, rfl, rfl, rfl, rfl, False.elim⟩
  obtain ⟨replica, summaries, run, same⟩ := stands.replayed
  exact ⟨⟨replica, summaries, run, same.trans alike⟩,
    alike.sound stands.sound stands.sound.scheduled⟩

/-- Rebuilt from its rows, in whatever order they come, it stands where it
stood. -/
theorem ofSnapshot (stands : Stands rules blocks ledger) {snapshot : Snapshot}
    (same : ledger.snapshot.Same snapshot) :
    Stands rules blocks (Ledger.ofSnapshot ledger.rules snapshot) := by
  obtain ⟨replica, summaries, run, alike⟩ := stands.replayed
  have rebuilt := alike_ofSnapshot_of_same stands.sound same
  refine ⟨⟨replica, summaries, run, alike.trans rebuilt⟩, rebuilt.sound stands.sound ?_⟩
  intro height isLast name date coming later
  rw [rebuilt.height] at isLast
  exact exists_dueAt_ofSnapshot (same.height.trans isLast) coming later

end Stands

end Ledger

/-! ## Rows of a store -/

namespace RowStore

variable {store : RowStore} {ledger : Ledger}

/-- A store that mirrors a ledger lists its rows, in an order of its own and at
the height that the store has reached. -/
theorem same_snapshot (mirrors : store.Mirrors ledger) :
    Snapshot.Same { ledger.snapshot with height := store.lastSynced } store.snapshot where
  height := rfl
  claims := by
    show (store.listClaims fun _ => true).Perm ledger.claims.values
    rw [listClaims, List.filter_true, mirrors.claims]
    exact List.mergeSort_perm _ _
  supports := by
    show (store.listSupports fun _ => true).Perm ledger.supports.values
    rw [listSupports, List.filter_true, mirrors.supports]
    exact List.mergeSort_perm _ _
  takeovers := by
    have distinct : store.takeovers.toList.Nodup := by
      apply store.takeovers.distinct_keys_toList.imp
      rintro left _ different rfl
      exact different Std.ReflCmp.compare_self
    have distinct' : ledger.snapshot.takeovers.Nodup := by
      apply ledger.pairwise_snapshot_takeovers.imp
      rintro left _ different rfl
      exact different rfl
    apply (List.perm_ext_iff_of_nodup distinct distinct').mpr
    rintro ⟨name, takeover⟩
    rw [Std.ExtTreeMap.mem_toList_iff_getElem?_eq_some, mirrors.takeovers,
      Ledger.mem_snapshot_takeovers]

end RowStore

end ClaimLedger
