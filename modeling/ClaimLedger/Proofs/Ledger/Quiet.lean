/-
# Names that need no look

A name is quiet at a height when it is settled there already. Settling a quiet
name changes nothing but the schedule, so it does not show whether a block
settles its quiet names or leaves them out.
-/

import Mathlib.Data.List.Sort
import ClaimLedger.Proofs.Ledger.Alike
import ClaimLedger.Proofs.Ledger.Settlement

namespace ClaimLedger

namespace Ledger

/-- Settling the name at the height would change nothing. -/
structure Quiet (ledger : Ledger) (height : Height) (name : Bytes) : Prop where
  settled : (ledger.standing name).Settled height
  inUse : name ∈ ledger.names → ledger.standing name ≠ {}

variable {ledger : Ledger} {height : Height} {name : Bytes}

namespace Quiet

theorem of_not_mem (unused : name ∉ ledger.names) : ledger.Quiet height name where
  settled := by
    rw [standing_of_not_mem unused]
    exact Standing.settled_empty height
  inUse := fun used => absurd used unused

theorem updateControl_eq (quiet : ledger.Quiet height name) :
    ledger.updateControl name height = (ledger, none) := by
  have control := quiet.settled.control
  unfold Standing.controller? at control
  rw [updateControl]
  simp only [takeover?_eq_standing, bestClaim?_eq]
  rw [if_pos control]

theorem refreshEffective_eq (quiet : ledger.Quiet height name) :
    ledger.refreshEffective name height = ledger := by
  rw [refreshEffective]
  apply List.foldlRecOn (motive := fun now => now = ledger) _ _ rfl
  intro now same hash listed
  rw [same, refreshClaim]
  split
  · next claim live =>
    have member : claim ∈ (ledger.standing name).claims :=
      List.mem_filterMap.mpr ⟨hash, listed, live⟩
    exact if_pos (quiet.settled.effective claim member)
  · rfl

/-- Settling a quiet name shows in the schedule only. -/
theorem settle (quiet : ledger.Quiet height name) (marks : Prop) :
    SameOutcome marks (ledger, none) (ledger.settle name height) := by
  by_cases used : name ∈ ledger.names
  · simp only [settle_of_mem used, quiet.updateControl_eq, quiet.refreshEffective_eq]
    exact ⟨Alike.scheduleNext_self ledger name height, rfl⟩
  · simp only [settle_of_not_mem used]
    exact SameOutcome.refl (ledger, none)

theorem prune_eq (quiet : ledger.Quiet height name) (indexed : ledger.Indexed) :
    ledger.prune name = ledger := by
  rw [prune]
  split
  · next entry found =>
    rw [if_neg]
    intro nothing
    have isEntry : ledger.entry name = entry := by
      rw [Ledger.entry]
      rw [found]
      rfl
    refine quiet.inUse ?_ ((isEmpty_entry_iff indexed).mp (isEntry ▸ nothing))
    rw [Std.ExtTreeMap.mem_iff_isSome_getElem?, found]
    rfl
  · rfl

/-- A quiet name passes every check, and afterwards only the schedule differs. -/
theorem settleAll_cons (quiet : ledger.Quiet height name) (indexed : ledger.Indexed)
    (marks : Prop) (more : List Bytes) :
    SameOutcome marks (settleAll height more ledger)
      (settleAll height (name :: more) ledger) := by
  obtain ⟨alike, unchanged⟩ := quiet.settle marks
  have pruned := alike.prune name
  rw [quiet.prune_eq indexed] at pruned
  obtain ⟨rest, answers⟩ := pruned.settleAll height more
  have fits : (ledger.settle name height).1.amountsFit name height = true := by
    rw [alike.amountsFit_eq]
    exact quiet.settled.fits
  have verified : (ledger.settle name height).1.verify name height = .ok () := by
    rw [alike.verify_eq]
    exact verify_of_settled indexed quiet.settled
  rw [settleAll]
  simp only [fits, verified, unchanged, answers, Bool.not_true, Bool.false_eq_true, if_false,
    Option.map_none, Option.toList_none, List.nil_append]
  refine ⟨rest, ?_⟩
  cases (settleAll height more ledger).2 <;> rfl

theorem congr {other : Ledger} (quiet : ledger.Quiet height name)
    (standing : other.standing name = ledger.standing name)
    (names : name ∈ other.names → name ∈ ledger.names) : other.Quiet height name where
  settled := standing ▸ quiet.settled
  inUse := fun used => standing ▸ quiet.inUse (names used)

end Quiet

/-- Quiet names can be left out of the names to settle. -/
theorem settleAll_filter (marks : Prop) (busy : Bytes → Bool) {names : List Bytes}
    (distinct : names.Nodup) (indexed : ledger.Indexed)
    (quiet : ∀ name ∈ names, ¬ busy name = true → ledger.Quiet height name) :
    SameOutcome marks (settleAll height (names.filter busy) ledger)
      (settleAll height names ledger) := by
  induction names generalizing ledger with
  | nil => exact SameOutcome.refl _
  | cons name more ih =>
    obtain ⟨notLater, distinct⟩ := List.nodup_cons.mp distinct
    by_cases isBusy : busy name = true
    · rw [List.filter_cons_of_pos isBusy, settleAll, settleAll]
      have indexed' := indexed_prune (indexed_settle indexed name height) name
      obtain ⟨rest, answers⟩ := ih distinct indexed' fun other listed idle => by
        have different : name ≠ other := fun same => notLater (same ▸ listed)
        refine (quiet other (List.mem_cons_of_mem name listed) idle).congr ?_ fun used => ?_
        · rw [standing_prune, standing_settle indexed, if_neg different]
        · exact (mem_names_settle indexed name other height).mp
            ((mem_names_prune (indexed_settle indexed name height)).mp used).1
      simp only [answers]
      split
      · exact SameOutcome.refl _
      · split
        · exact SameOutcome.refl _
        · exact ⟨rest, rfl⟩
    · rw [List.filter_cons_of_neg isBusy]
      have head := (quiet name List.mem_cons_self isBusy).settleAll_cons indexed marks more
      have rest := ih distinct indexed fun other listed idle =>
        quiet other (List.mem_cons_of_mem name listed) idle
      exact rest.trans head

/-- In the order in which names are settled no name comes twice. -/
theorem nodup_of_ordered {names : List Bytes}
    (ordered : names.Pairwise fun a b => compare a b = .lt) : names.Nodup :=
  ordered.imp fun before same => by
    subst same
    exact Std.OrientedCmp.not_lt_of_lt before before

/-- It does not show which quiet names are settled along with the others. -/
theorem settleAll_of_quiet (marks : Prop) {left right : Ledger} {names others : List Bytes}
    (alike : Alike marks left right) (indexed : left.Indexed)
    (ordered : names.Pairwise fun a b => compare a b = .lt)
    (ordered' : others.Pairwise fun a b => compare a b = .lt)
    (quiet : ∀ name, name ∈ names ∧ name ∈ others ∨ name ∉ names ∧ name ∉ others ∨
      left.Quiet height name) :
    SameOutcome marks (settleAll height names left) (settleAll height others right) := by
  have same : names.filter (fun name => others.contains name) =
      others.filter (fun name => names.contains name) := by
    refine List.Perm.eq_of_pairwise ?_ (ordered.filter _) (ordered'.filter _) ?_
    · intro a b _ _ before after
      exact absurd after (Std.OrientedCmp.not_lt_of_lt before)
    · rw [List.perm_ext_iff_of_nodup ((nodup_of_ordered ordered).filter _)
        ((nodup_of_ordered ordered').filter _)]
      intro name
      simp only [List.mem_filter, List.contains_iff_mem]
      exact and_comm
  have leave {names others : List Bytes} (quiet : ∀ name, name ∈ names ∧ name ∈ others ∨
      name ∉ names ∧ name ∉ others ∨ left.Quiet height name) (name : Bytes)
      (listed : name ∈ names) (idle : ¬ others.contains name = true) :
      left.Quiet height name := by
    rw [List.contains_iff_mem] at idle
    rcases quiet name with ⟨_, both⟩ | ⟨neither, _⟩ | quiet
    · exact absurd both idle
    · exact absurd listed neither
    · exact quiet
  have first := settleAll_filter marks (fun name => others.contains name)
    (nodup_of_ordered ordered) indexed (leave quiet)
  have second := settleAll_filter marks (fun name => names.contains name)
    (nodup_of_ordered ordered') indexed (leave fun name => by
      rcases quiet name with ⟨here, there⟩ | ⟨here, there⟩ | quiet
      · exact .inl ⟨there, here⟩
      · exact .inr (.inl ⟨there, here⟩)
      · exact .inr (.inr quiet))
  rw [same] at first
  exact (first.symm.trans second).trans (alike.settleAll height others)

end Ledger

end ClaimLedger
