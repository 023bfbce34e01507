/-
# The claims on a name in three parts

Looking up a name puts every claim on it that is not expired in exactly one of three places: it
is in control, it competes without being in control, or it waits. The last two are listed from
the oldest to the newest.

This needs the index of names to follow the rows, and the recorded controller to be a claim on
the name. It holds at every height, whether or not the ledger has been there.
-/

import Mathlib.Data.List.Nodup
import ClaimLedger.Ledger.View
import ClaimLedger.Proofs.Ledger.Indexed
import ClaimLedger.Proofs.Maps

namespace ClaimLedger

/-- The first claim is no younger than the second. -/
abbrev Claim.Older (a b : Claim) : Prop :=
  (Claim.compareAge a b).isLE = true

section Order

variable {α : Type} {cmp : α → α → Ordering} [Std.TransCmp cmp]

theorem isLE_or_isLE (a b : α) : (cmp a b).isLE = true ∨ (cmp b a).isLE = true := by
  by_cases before : (cmp a b).isLE = true
  · exact .inl before
  · exact .inr (Ordering.isLE_of_eq_lt (Std.OrientedCmp.lt_of_not_isLE before))

/-- Sorting by a total order leaves a list in order. -/
theorem pairwise_mergeSort_isLE (list : List α) :
    (list.mergeSort fun a b => (cmp a b).isLE).Pairwise fun a b => (cmp a b).isLE = true :=
  List.pairwise_mergeSort (fun _ _ _ => Std.TransCmp.isLE_trans)
    (fun a b => (Bool.or_eq_true _ _).mpr (isLE_or_isLE a b)) list

end Order

namespace Ledger

/-- The claims on a name from the oldest to the newest. -/
def byAge (ledger : Ledger) (name : Bytes) : List Claim :=
  (ledger.claimsOf (ledger.entry name)).mergeSort fun a b => (Claim.compareAge a b).isLE

/-- The claims on a name that are not expired at a height, wherever they are in the ledger. -/
def unexpired (ledger : Ledger) (name : Bytes) (height : Height) : List Claim :=
  ledger.claims.values.filter fun claim =>
    claim.name == name && !claim.term.isExpiredAt height

variable {ledger : Ledger} {name : Bytes} {height : Height}

theorem pairwise_byAge : (ledger.byAge name).Pairwise Claim.Older :=
  pairwise_mergeSort_isLE _

theorem nodup_claims (indexed : ledger.Indexed) : ledger.claims.values.Nodup :=
  (pairwise_values_of_keyed indexed.claim_hash).imp fun apart same =>
    apart (congrArg Claim.hash same)

/-- The claims under a name are all the claims of that name. -/
theorem perm_byAge (indexed : ledger.Indexed) (name : Bytes) :
    (ledger.byAge name).Perm (ledger.claims.values.filter fun claim => claim.name == name) := by
  have listed : (ledger.claimsOf (ledger.entry name)).Nodup := by
    refine List.Pairwise.filterMap _ (fun left right different => ?_)
      (ledger.entry name).claims.distinct_toList
    rintro claim live other live' rfl
    apply different
    rw [← indexed.claim_hash live, ← indexed.claim_hash live']
    exact Std.ReflCmp.compare_self
  refine (List.mergeSort_perm _ _).trans
    ((List.perm_ext_iff_of_nodup listed ((nodup_claims indexed).filter _)).mpr fun claim => ?_)
  show claim ∈ (ledger.standing name).claims ↔ _
  rw [mem_standing_claims indexed, List.mem_filter, mem_values, beq_iff_eq]
  refine and_congr_left fun named => ⟨fun live => ⟨_, live⟩, ?_⟩
  rintro ⟨hash, live⟩
  rw [indexed.claim_hash live]
  exact live

theorem controlling_nameState_eq_some {claim : Claim} :
    (ledger.nameState name height).controlling = some claim ↔
      ledger.controlling? name = some claim ∧ claim.term.isActiveAt height = true := by
  rw [nameState, Option.filter_eq_some_iff]

theorem accepted_nameState :
    (ledger.nameState name height).accepted =
      (ledger.byAge name).filter fun claim => claim.term.isPendingAt height := rfl

theorem mem_active_nameState {claim : Claim} :
    claim ∈ (ledger.nameState name height).active ↔
      claim ∈ ledger.byAge name ∧ claim.term.isActiveAt height = true ∧
        some claim.hash ≠ (ledger.nameState name height).controlling.map Claim.hash := by
  rw [← bne_iff_ne, ← Bool.and_eq_true]
  exact List.mem_filter

/-- What the state of a name at a height has of the claims on it. -/
structure Partitioned (ledger : Ledger) (name : Bytes) (height : Height) : Prop where
  /-- Together they are the claims that are not expired, each once. -/
  all : ((ledger.nameState name height).controlling.toList ++
    (ledger.nameState name height).active ++ (ledger.nameState name height).accepted).Perm
      (ledger.unexpired name height)
  /-- No claim is in two places, or twice in one. -/
  once : ((ledger.nameState name height).controlling.toList ++
    (ledger.nameState name height).active ++ (ledger.nameState name height).accepted).Nodup
  active : (ledger.nameState name height).active.Pairwise Claim.Older
  accepted : (ledger.nameState name height).accepted.Pairwise Claim.Older

/-- Those that wait are all that wait. -/
theorem perm_accepted (indexed : ledger.Indexed) (name : Bytes) (height : Height) :
    (ledger.nameState name height).accepted.Perm
      (ledger.claims.values.filter fun claim =>
        claim.name == name && claim.term.isPendingAt height) := by
  have perm := (perm_byAge indexed name).filter fun claim => claim.term.isPendingAt height
  rw [List.filter_filter] at perm
  rw [accepted_nameState]
  simpa only [Bool.and_comm] using perm

section Parts

variable (indexed : ledger.Indexed)
variable (named : ∀ claim, ledger.controlling? name = some claim → claim.name = name)

include indexed named

/-- The controller and the others that compete are all that compete. -/
theorem perm_competing (height : Height) :
    ((ledger.nameState name height).controlling.toList ++
      (ledger.nameState name height).active).Perm
      (ledger.claims.values.filter fun claim =>
        claim.name == name && claim.term.isActiveAt height) := by
  have listed {claim : Claim} : claim ∈ ledger.byAge name ↔
      claim ∈ ledger.claims.values ∧ claim.name = name := by
    rw [(perm_byAge indexed name).mem_iff, List.mem_filter, beq_iff_eq]
  have live {claim : Claim} (controls : ledger.controlling? name = some claim) :
      claim ∈ ledger.claims.values := by
    obtain ⟨takeover, -, live⟩ := Option.bind_eq_some_iff.mp controls
    exact mem_values.mpr ⟨_, live⟩
  -- a claim with the hash of the controller is the controller
  have same {claim other : Claim} (claimed : claim ∈ ledger.claims.values)
      (claimed' : other ∈ ledger.claims.values) (isHash : claim.hash = other.hash) :
      claim = other := by
    obtain ⟨hash, found⟩ := mem_values.mp claimed
    obtain ⟨hash', found'⟩ := mem_values.mp claimed'
    rw [← indexed.claim_hash found] at found
    rw [← indexed.claim_hash found', ← isHash, found, Option.some.injEq] at found'
    exact found'
  have nodup : ((ledger.nameState name height).controlling.toList ++
      (ledger.nameState name height).active).Nodup := by
    refine List.nodup_append.mpr ⟨Option.toList_nodup _, ?_, ?_⟩
    · exact ((perm_byAge indexed name).nodup_iff.mpr ((nodup_claims indexed).filter _)).filter _
    · rintro claim controls other competes rfl
      rw [Option.mem_toList] at controls
      rw [mem_active_nameState, controls] at competes
      exact competes.2.2 rfl
  refine (List.perm_ext_iff_of_nodup nodup ((nodup_claims indexed).filter _)).mpr fun claim => ?_
  rw [List.mem_append, Option.mem_toList, controlling_nameState_eq_some,
    mem_active_nameState, listed, List.mem_filter, Bool.and_eq_true, beq_iff_eq]
  constructor
  · rintro (⟨controls, active⟩ | ⟨⟨claimed, isName⟩, active, -⟩)
    · exact ⟨live controls, named claim controls, active⟩
    · exact ⟨claimed, isName, active⟩
  · rintro ⟨claimed, isName, active⟩
    by_cases controls : some claim.hash = (ledger.nameState name height).controlling.map Claim.hash
    · obtain ⟨controller, inControl, isHash⟩ := Option.map_eq_some_iff.mp controls.symm
      have inControl := controlling_nameState_eq_some.mp inControl
      rw [same claimed (live inControl.1) isHash.symm]
      exact .inl inControl
    · exact .inr ⟨⟨claimed, isName⟩, active, controls⟩

theorem partitioned (height : Height) : Partitioned ledger name height := by
  have all : ((ledger.nameState name height).controlling.toList ++
      (ledger.nameState name height).active ++ (ledger.nameState name height).accepted).Perm
        (ledger.unexpired name height) := by
    refine ((perm_competing indexed named height).append
      (perm_accepted indexed name height)).trans ?_
    -- what is not expired competes or waits
    have parts := List.filter_append_perm (fun claim : Claim => claim.term.isActiveAt height)
      (ledger.unexpired name height)
    refine .trans (.of_eq ?_) parts
    rw [unexpired, List.filter_filter, List.filter_filter]
    congr 1
    all_goals
      refine List.filter_congr fun claim _ => ?_
      have := claim.term.active_or_pending_or_expired height
      grind
  exact {
    all
    once := all.nodup_iff.mpr ((nodup_claims indexed).filter _)
    active := pairwise_byAge.filter _
    accepted := pairwise_byAge.filter _ }

end Parts

end Ledger

end ClaimLedger
