/-
# Rebuilding a ledger from its rows

Rows can be put back in any order: what matters is that no claim, no output and
no name comes twice. `Holds` says that a ledger holds exactly the listed rows,
with indexes that follow from them, and putting one more row in extends the
list.
-/

import ClaimLedger.Ledger.Snapshot
import ClaimLedger.Proofs.Ledger.Alike
import ClaimLedger.Proofs.Ledger.Edits
import ClaimLedger.Proofs.Maps

namespace ClaimLedger

/-- No claim, no output and no name comes twice among the rows. -/
structure Snapshot.Distinct (snapshot : Snapshot) : Prop where
  claims : snapshot.claims.Pairwise fun a b => a.hash ≠ b.hash ∧ a.outpoint ≠ b.outpoint
  supports : snapshot.supports.Pairwise fun a b => a.outpoint ≠ b.outpoint
  takeovers : snapshot.takeovers.Pairwise fun a b => a.1 ≠ b.1

/-- The rows are the same, whatever their order. -/
structure Snapshot.Same (left right : Snapshot) : Prop where
  height : right.height = left.height
  claims : right.claims.Perm left.claims
  supports : right.supports.Perm left.supports
  takeovers : right.takeovers.Perm left.takeovers

namespace Snapshot

variable {left right third : Snapshot}

theorem Same.refl (snapshot : Snapshot) : snapshot.Same snapshot :=
  ⟨rfl, .refl _, .refl _, .refl _⟩

theorem Same.trans (first : left.Same right) (second : right.Same third) : left.Same third where
  height := second.height.trans first.height
  claims := second.claims.trans first.claims
  supports := second.supports.trans first.supports
  takeovers := second.takeovers.trans first.takeovers

theorem Distinct.of_same (distinct : left.Distinct) (same : left.Same right) : right.Distinct where
  claims := (same.claims.pairwise_iff fun apart => ⟨apart.1.symm, apart.2.symm⟩).mpr distinct.claims
  supports := (same.supports.pairwise_iff fun apart => apart.symm).mpr distinct.supports
  takeovers := (same.takeovers.pairwise_iff fun apart => apart.symm).mpr distinct.takeovers

end Snapshot

namespace Ledger

/-- The ledger holds exactly these rows, and has indexes to match. -/
structure Holds (ledger : Ledger) (claims : List Claim) (supports : List Support)
    (takeovers : List (Bytes × Takeover)) : Prop where
  indexed : ledger.Indexed
  claims : ∀ {hash : ClaimHash} {claim : Claim},
    ledger.claims[hash]? = some claim ↔ claim ∈ claims ∧ claim.hash = hash
  supports : ∀ {outpoint : OutPoint} {support : Support},
    ledger.supports[outpoint]? = some support ↔ support ∈ supports ∧ support.outpoint = outpoint
  takeovers : ∀ {name : Bytes} {takeover : Takeover},
    ledger.takeover? name = some takeover ↔ (name, takeover) ∈ takeovers
  /-- Something lives under every name in use. -/
  inUse : ∀ name ∈ ledger.names, ledger.standing name ≠ {}

variable {ledger : Ledger} {claims : List Claim} {supports : List Support}
variable {takeovers : List (Bytes × Takeover)}

/-- Putting a stored claim back is adding it, without the mark. -/
theorem alike_loadClaim (ledger : Ledger) (claim : Claim) :
    Alike False (ledger.addClaim claim) (ledger.loadClaim claim) :=
  ⟨rfl, rfl, rfl, rfl, rfl, rfl, False.elim⟩

/-- Putting a stored support back is adding it, without the mark. -/
theorem alike_loadSupport (ledger : Ledger) (support : Support) :
    Alike False (ledger.addSupport support) (ledger.loadSupport support) :=
  ⟨rfl, rfl, rfl, rfl, rfl, rfl, False.elim⟩

/-- Putting a stored change of control back is recording it, without the
mark. -/
theorem alike_loadTakeover (ledger : Ledger) (row : Bytes × Takeover) :
    Alike False (ledger.setTakeover row.1 (some row.2)) (ledger.loadTakeover row) :=
  ⟨rfl, rfl, rfl, rfl, rfl, rfl, False.elim⟩

namespace Holds

theorem of_alike {other : Ledger} (alike : Alike False ledger other)
    (holds : ledger.Holds claims supports takeovers) :
    other.Holds claims supports takeovers where
  indexed := alike.indexed holds.indexed
  claims := by
    intro hash claim
    rw [alike.claims]
    exact holds.claims
  supports := by
    intro outpoint support
    rw [alike.supports]
    exact holds.supports
  takeovers := by
    intro name takeover
    rw [alike.takeover?_eq]
    exact holds.takeovers
  inUse := by
    intro name used
    rw [alike.names] at used
    rw [alike.standing_eq]
    exact holds.inUse name used

theorem empty (rules : Rules) (height : Option Height) :
    ({ rules, height } : Ledger).Holds [] [] [] where
  indexed :=
    have indexed := indexed_empty rules
    ⟨indexed.claim_hash, indexed.support_outpoint, indexed.mem_claims, indexed.mem_supports,
      indexed.holdings⟩
  claims := by simp
  supports := by simp
  takeovers := by simp [takeover?]
  inUse := by simp

theorem loadClaim (holds : ledger.Holds claims supports takeovers) (claim : Claim)
    (new : ∀ other ∈ claims, other.hash ≠ claim.hash ∧ other.outpoint ≠ claim.outpoint) :
    (ledger.loadClaim claim).Holds (claims ++ [claim]) supports takeovers := by
  have unknown : ledger.claims[claim.hash]? = none := by
    rw [Option.eq_none_iff_forall_ne_some]
    intro other live
    obtain ⟨listed, same⟩ := holds.claims.mp live
    exact (new other listed).1 same
  have free : ledger.holdings[claim.outpoint]? = none := by
    rw [Option.eq_none_iff_forall_ne_some]
    intro hash held
    obtain ⟨other, live, sits⟩ := holds.indexed.holdings.mp held
    exact (new other (holds.claims.mp live).1).2 sits
  have edit : Edit 0 claim.name ledger (ledger.addClaim claim) := .addClaim claim unknown free
  apply of_alike (alike_loadClaim ledger claim)
  exact {
    indexed := edit.indexed holds.indexed
    claims := by
      intro hash row
      rw [getElem?_claims_addClaim, List.mem_append, List.mem_singleton]
      split
      · next isHash =>
        subst isHash
        rw [Option.some.injEq]
        constructor
        · rintro rfl
          exact ⟨.inr rfl, rfl⟩
        · rintro ⟨listed | rfl, same⟩
          · exact absurd same (new row listed).1
          · rfl
      · next notHash =>
        rw [holds.claims]
        constructor
        · rintro ⟨listed, same⟩
          exact ⟨.inl listed, same⟩
        · rintro ⟨listed | rfl, same⟩
          · exact ⟨listed, same⟩
          · exact absurd same notHash
    supports := holds.supports
    takeovers := by
      intro name takeover
      rw [takeover?_eq_entry, edit.takeover_eq holds.indexed, ← takeover?_eq_entry]
      exact holds.takeovers
    inUse := by
      intro name used
      by_cases named : claim.name = name
      · intro nothing
        have listed : claim ∈ ((ledger.addClaim claim).standing name).claims := by
          rw [mem_standing_claims (edit.indexed holds.indexed), getElem?_claims_addClaim]
          exact ⟨if_pos rfl, named⟩
        rw [nothing] at listed
        cases listed
      · rw [edit.standing_eq holds.indexed named]
        exact holds.inUse name ((edit.mem_names_iff named).mp used) }

theorem loadSupport (holds : ledger.Holds claims supports takeovers) (support : Support)
    (new : ∀ other ∈ supports, other.outpoint ≠ support.outpoint) :
    (ledger.loadSupport support).Holds claims (supports ++ [support]) takeovers := by
  have unknown : ledger.supports[support.outpoint]? = none := by
    rw [Option.eq_none_iff_forall_ne_some]
    intro other live
    obtain ⟨listed, same⟩ := holds.supports.mp live
    exact new other listed same
  have edit : Edit 0 support.name ledger (ledger.addSupport support) :=
    .addSupport support unknown
  apply of_alike (alike_loadSupport ledger support)
  exact {
    indexed := edit.indexed holds.indexed
    claims := holds.claims
    supports := by
      intro outpoint row
      rw [getElem?_supports_addSupport, List.mem_append, List.mem_singleton]
      split
      · next sits =>
        subst sits
        rw [Option.some.injEq]
        constructor
        · rintro rfl
          exact ⟨.inr rfl, rfl⟩
        · rintro ⟨listed | rfl, same⟩
          · exact absurd same (new row listed)
          · rfl
      · next elsewhere =>
        rw [holds.supports]
        constructor
        · rintro ⟨listed, same⟩
          exact ⟨.inl listed, same⟩
        · rintro ⟨listed | rfl, same⟩
          · exact ⟨listed, same⟩
          · exact absurd same elsewhere
    takeovers := by
      intro name takeover
      rw [takeover?_eq_entry, edit.takeover_eq holds.indexed, ← takeover?_eq_entry]
      exact holds.takeovers
    inUse := by
      intro name used
      by_cases named : support.name = name
      · intro nothing
        have listed : support ∈ ((ledger.addSupport support).standing name).supports := by
          rw [mem_standing_supports (edit.indexed holds.indexed), getElem?_supports_addSupport]
          exact ⟨if_pos rfl, named⟩
        rw [nothing] at listed
        cases listed
      · rw [edit.standing_eq holds.indexed named]
        exact holds.inUse name ((edit.mem_names_iff named).mp used) }

theorem loadTakeover (holds : ledger.Holds claims supports takeovers) (row : Bytes × Takeover)
    (new : ∀ other ∈ takeovers, other.1 ≠ row.1) :
    (ledger.loadTakeover row).Holds claims supports (takeovers ++ [row]) := by
  obtain ⟨changed, record⟩ := row
  have unknown : ledger.takeover? changed = none := by
    rw [Option.eq_none_iff_forall_ne_some]
    intro takeover recorded
    exact new _ (holds.takeovers.mp recorded) rfl
  apply of_alike (alike_loadTakeover ledger (changed, record))
  exact {
    indexed := indexed_setTakeover holds.indexed changed (some record)
    claims := holds.claims
    supports := holds.supports
    takeovers := by
      intro name takeover
      rw [takeover?_setTakeover, List.mem_append, List.mem_singleton, Prod.mk.injEq]
      split
      · next same =>
        subst same
        rw [Option.some.injEq, ← holds.takeovers, unknown]
        simp [eq_comm]
      · next different =>
        rw [holds.takeovers]
        simp [Ne.symm different]
    inUse := by
      intro name used
      rw [standing_setTakeover]
      split
      · intro nothing
        have recorded : some record = none := congrArg Standing.takeover nothing
        cases recorded
      · next different =>
        apply holds.inUse name
        simpa [setTakeover, editEntry, Std.ExtTreeMap.mem_insert, different] using used }

/-- Rows that come one after the other, each of them new. -/
theorem foldl {α : Type} {load : Ledger → α → Ledger} {P : Ledger → List α → Prop}
    {apart : α → α → Prop}
    (next : ∀ {ledger : Ledger} {rows : List α}, P ledger rows →
      ∀ row, (∀ other ∈ rows, apart other row) → P (load ledger row) (rows ++ [row]))
    {done : List α} (shows : P ledger done) (rows : List α)
    (distinct : (done ++ rows).Pairwise apart) :
    P (rows.foldl load ledger) (done ++ rows) := by
  induction rows generalizing ledger done with
  | nil =>
    rw [List.append_nil]
    exact shows
  | cons row more ih =>
    rw [List.append_cons] at distinct ⊢
    refine ih (next shows row fun other listed => ?_) distinct
    have before := (List.pairwise_append.mp (List.pairwise_append.mp distinct).1).2.2
    exact before other listed row (List.mem_singleton_self row)

end Holds

/-- Every row put back, before any name is on the schedule. -/
def loaded (rules : Rules) (snapshot : Snapshot) : Ledger :=
  snapshot.takeovers.foldl loadTakeover
    (snapshot.supports.foldl loadSupport
      (snapshot.claims.foldl loadClaim { rules, height := snapshot.height }))

/-- What no row changes is as it was at the start. -/
theorem view_loaded {α : Type} (view : Ledger → α) (rules : Rules) (snapshot : Snapshot)
    (claim : ∀ ledger claim, view (loadClaim ledger claim) = view ledger)
    (support : ∀ ledger support, view (loadSupport ledger support) = view ledger)
    (takeover : ∀ ledger row, view (loadTakeover ledger row) = view ledger) :
    view (loaded rules snapshot) = view { rules, height := snapshot.height } := by
  rw [loaded, foldl_keeps view loadTakeover takeover, foldl_keeps view loadSupport support,
    foldl_keeps view loadClaim claim]

theorem rules_loaded (rules : Rules) (snapshot : Snapshot) :
    (loaded rules snapshot).rules = rules :=
  view_loaded Ledger.rules rules snapshot (fun _ _ => rfl) (fun _ _ => rfl) fun _ _ => rfl

theorem height_loaded (rules : Rules) (snapshot : Snapshot) :
    (loaded rules snapshot).height = snapshot.height :=
  view_loaded Ledger.height rules snapshot (fun _ _ => rfl) (fun _ _ => rfl) fun _ _ => rfl

theorem dirty_loaded (rules : Rules) (snapshot : Snapshot) :
    (loaded rules snapshot).dirty = {} :=
  view_loaded Ledger.dirty rules snapshot (fun _ _ => rfl) (fun _ _ => rfl) fun _ _ => rfl

theorem holds_loaded (rules : Rules) {snapshot : Snapshot} (distinct : snapshot.Distinct) :
    (loaded rules snapshot).Holds snapshot.claims snapshot.supports snapshot.takeovers := by
  have claims := Holds.foldl (P := fun ledger claims => ledger.Holds claims [] [])
    (fun holds claim new => holds.loadClaim claim new) (.empty rules snapshot.height)
    snapshot.claims distinct.claims
  have supports := Holds.foldl
    (P := fun ledger supports => ledger.Holds snapshot.claims supports [])
    (fun holds support new => holds.loadSupport support new) claims snapshot.supports
    distinct.supports
  exact Holds.foldl
    (P := fun ledger takeovers => ledger.Holds snapshot.claims snapshot.supports takeovers)
    (fun holds row new => holds.loadTakeover row new) supports snapshot.takeovers
    distinct.takeovers

/-- Putting names on the schedule shows nowhere else. -/
theorem alike_foldl_scheduleNext (marks : Prop) (ledger : Ledger) (names : List Bytes)
    (height : Height) :
    Alike marks ledger (names.foldl (fun ledger name => ledger.scheduleNext name height) ledger) :=
  List.foldlRecOn (motive := fun now => Alike marks ledger now) _ _ (Alike.refl ledger)
    fun now alike name _ => alike.trans (Alike.scheduleNext_self now name height)

theorem alike_ofSnapshot (marks : Prop) (rules : Rules) (snapshot : Snapshot) :
    Alike marks (loaded rules snapshot) (ofSnapshot rules snapshot) := by
  unfold ofSnapshot
  simp only
  split
  · exact Alike.refl _
  · exact alike_foldl_scheduleNext marks _ _ _

/-- A rebuilt ledger holds the rows that it was rebuilt from. -/
theorem holds_ofSnapshot (rules : Rules) {snapshot : Snapshot} (distinct : snapshot.Distinct) :
    (ofSnapshot rules snapshot).Holds snapshot.claims snapshot.supports snapshot.takeovers :=
  (holds_loaded rules distinct).of_alike (alike_ofSnapshot False rules snapshot)

/-! ## Ledgers with the same rows -/

/-- Names in use are those that something lives under, so the standings of all
names leave nothing open but the schedule and the marks. -/
theorem alike_of_standing {left right : Ledger} (indexed : left.Indexed)
    (indexed' : right.Indexed) (inUse : ∀ name ∈ left.names, left.standing name ≠ {})
    (inUse' : ∀ name ∈ right.names, right.standing name ≠ {})
    (same : ∀ name, right.standing name = left.standing name)
    (rules : right.rules = left.rules) (height : right.height = left.height) :
    Alike False left right := by
  have claims := claims_eq_of_standing indexed indexed' same
  have supports := supports_eq_of_standing indexed indexed' same
  refine ⟨rules, height, claims, supports, ?_, ?_, False.elim⟩
  · have used (name : Bytes) : name ∈ right.names ↔ name ∈ left.names := by
      constructor
      · intro used
        by_contra unused
        exact inUse' name used ((same name).trans (standing_of_not_mem unused))
      · intro used
        by_contra unused
        exact inUse name used ((same name).symm.trans (standing_of_not_mem unused))
    have entry (name : Bytes) : right.entry name = left.entry name := by
      rw [NameEntry.mk.injEq]
      refine ⟨?_, ?_, congrArg Standing.takeover (same name)⟩
      · apply Std.ExtTreeSet.ext_mem
        intro hash
        rw [indexed.mem_claims, indexed'.mem_claims, claims]
      · apply Std.ExtTreeSet.ext_mem
        intro outpoint
        rw [indexed.mem_supports, indexed'.mem_supports, supports]
    apply Std.ExtTreeMap.ext_getElem?
    intro name
    by_cases isUsed : name ∈ left.names
    · have isUsed' := (used name).mpr isUsed
      have shown := entry name
      unfold Ledger.entry at shown
      rw [Std.ExtTreeMap.getElem?_eq_some_getElem isUsed,
        Std.ExtTreeMap.getElem?_eq_some_getElem isUsed'] at shown ⊢
      exact congrArg some shown
    · rw [Std.ExtTreeMap.getElem?_eq_none isUsed,
        Std.ExtTreeMap.getElem?_eq_none (mt (used name).mp isUsed)]
  · apply Std.ExtTreeMap.ext_getElem?
    intro outpoint
    rw [Option.ext_iff]
    intro hash
    rw [indexed.holdings, indexed'.holdings, claims]

theorem Alike.snapshot_eq {marks : Prop} {left right : Ledger} (alike : Alike marks left right) :
    right.snapshot = left.snapshot := by
  obtain ⟨schedule, dirty, rfl, -⟩ := alike.eq_with
  rfl

theorem mem_snapshot_takeovers {name : Bytes} {takeover : Takeover} :
    (name, takeover) ∈ ledger.snapshot.takeovers ↔ ledger.takeover? name = some takeover := by
  rw [takeover?]
  simp only [snapshot, List.mem_filterMap, Prod.exists, Option.map_eq_some_iff, Prod.mk.injEq,
    Std.ExtTreeMap.mem_toList_iff_getElem?_eq_some, Option.bind_eq_some_iff]
  constructor
  · rintro ⟨_, entry, found, _, recorded, rfl, rfl⟩
    exact ⟨entry, found, recorded⟩
  · rintro ⟨entry, found, recorded⟩
    exact ⟨name, entry, found, takeover, recorded, rfl, rfl⟩

/-- A ledger hands out one record of control for a name. -/
theorem pairwise_snapshot_takeovers (ledger : Ledger) :
    ledger.snapshot.takeovers.Pairwise fun left right => left.1 ≠ right.1 := by
  refine List.Pairwise.filterMap _ (fun left right different => ?_)
    ledger.names.distinct_keys_toList
  rintro _ isLeft _ isRight same
  obtain ⟨_, _, rfl⟩ := Option.map_eq_some_iff.mp isLeft
  obtain ⟨_, _, rfl⟩ := Option.map_eq_some_iff.mp isRight
  apply different
  rw [show left.1 = right.1 from same]
  exact Std.ReflCmp.compare_self

/-- The rows of a ledger name no claim, no output and no name twice. -/
theorem distinct_snapshot (indexed : ledger.Indexed) : ledger.snapshot.Distinct where
  claims := by
    refine pairwise_values fun hash hash' claim claim' live live' different => ⟨?_, ?_⟩
    · rw [indexed.claim_hash live, indexed.claim_hash live']
      exact different
    · intro same
      have held := indexed.holdings.mpr ⟨claim, live, rfl⟩
      have held' := indexed.holdings.mpr ⟨claim', live', same.symm⟩
      rw [held, Option.some.injEq] at held'
      exact different held'
  supports := pairwise_values_of_keyed indexed.support_outpoint
  takeovers := ledger.pairwise_snapshot_takeovers

namespace Holds

/-- A ledger that holds the values of a map of claims has that map. -/
theorem claims_eq {map : Std.ExtTreeMap ClaimHash Claim}
    (holds : ledger.Holds claims supports takeovers)
    (keyed : ∀ {hash : ClaimHash} {claim : Claim}, map[hash]? = some claim → claim.hash = hash)
    (listed : ∀ claim, claim ∈ claims ↔ claim ∈ map.values) : ledger.claims = map := by
  apply Std.ExtTreeMap.ext_getElem?
  intro hash
  rw [Option.ext_iff]
  intro claim
  rw [holds.claims, listed, mem_values]
  constructor
  · rintro ⟨⟨key, found⟩, rfl⟩
    rw [keyed found]
    exact found
  · intro found
    exact ⟨⟨hash, found⟩, keyed found⟩

theorem supports_eq {map : Std.ExtTreeMap OutPoint Support}
    (holds : ledger.Holds claims supports takeovers)
    (keyed : ∀ {outpoint : OutPoint} {support : Support},
      map[outpoint]? = some support → support.outpoint = outpoint)
    (listed : ∀ support, support ∈ supports ↔ support ∈ map.values) : ledger.supports = map := by
  apply Std.ExtTreeMap.ext_getElem?
  intro outpoint
  rw [Option.ext_iff]
  intro support
  rw [holds.supports, listed, mem_values]
  constructor
  · rintro ⟨⟨key, found⟩, rfl⟩
    rw [keyed found]
    exact found
  · intro found
    exact ⟨⟨outpoint, found⟩, keyed found⟩

theorem takeover?_eq {other : Ledger}
    (holds : ledger.Holds claims supports other.snapshot.takeovers) (name : Bytes) :
    ledger.takeover? name = other.takeover? name := by
  rw [Option.ext_iff]
  intro takeover
  rw [holds.takeovers, mem_snapshot_takeovers]

end Holds

end Ledger

end ClaimLedger
