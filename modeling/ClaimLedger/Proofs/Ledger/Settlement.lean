/-
# Settling the names of a block

At the end of a block its names are settled one after the other, and each is
verified before the next. Since settling a name leaves all other names alone,
the order does not show: afterwards every listed name has its settled standing,
every other name has kept its own, and every listed name is on the schedule in
time for its next date. `Settlement` collects this.
-/

import ClaimLedger.Ledger.Apply
import ClaimLedger.Proofs.Ledger.Settling

namespace ClaimLedger

namespace Ledger

variable {ledger : Ledger}

/-! ## What settling leaves alone -/

theorem rest_updateControl (indexed : ledger.Indexed) (name : Bytes) (height : Height) :
    ∃ claims supports names dirty, (ledger.updateControl name height).1 =
      { ledger with claims, supports, names, dirty } := by
  obtain ⟨claims, supports, dirty, admitted⟩ :=
    (rewrites_admitPending indexed name height).rest
  rw [updateControl]
  simp only
  split
  · exact ⟨_, _, _, _, rfl⟩
  · split
    · exact ⟨_, _, _, _, admitted⟩
    · rw [admitted]
      exact ⟨_, _, _, _, rfl⟩

theorem rest_scheduleNext (ledger : Ledger) (name : Bytes) (height : Height) :
    ∃ schedule, ledger.scheduleNext name height = { ledger with schedule } := by
  unfold scheduleNext
  simp only
  split <;> exact ⟨_, rfl⟩

/-- Settling writes rows, entries, the schedule and marks, and nothing else. -/
theorem rest_settle (indexed : ledger.Indexed) (name : Bytes) (height : Height) :
    ∃ claims supports names schedule dirty, (ledger.settle name height).1 =
      { ledger with claims, supports, names, schedule, dirty } := by
  by_cases used : name ∈ ledger.names
  · simp only [settle_of_mem used]
    obtain ⟨_, _, _, _, updated⟩ := rest_updateControl indexed name height
    obtain ⟨_, _, _, refreshed⟩ := (rewrites_refreshEffective
      (indexed_updateControl indexed name height) name height).rest
    obtain ⟨_, scheduled⟩ := rest_scheduleNext
      ((ledger.updateControl name height).1.refreshEffective name height) name height
    rw [scheduled, refreshed, updated]
    exact ⟨_, _, _, _, _, rfl⟩
  · simp only [settle_of_not_mem used]
    exact ⟨_, _, _, _, _, rfl⟩

theorem mem_names_settle (indexed : ledger.Indexed) (name other : Bytes) (height : Height) :
    other ∈ (ledger.settle name height).1.names ↔ other ∈ ledger.names := by
  by_cases used : name ∈ ledger.names
  · simp only [settle_of_mem used]
    obtain ⟨_, scheduled⟩ := rest_scheduleNext
      ((ledger.updateControl name height).1.refreshEffective name height) name height
    rw [scheduled]
    simp only [(rewrites_refreshEffective
      (indexed_updateControl indexed name height) name height).names_eq]
    have admitted := (rewrites_admitPending indexed name height).names_eq
    rw [updateControl]
    simp only
    split
    · rfl
    · split
      · rw [admitted]
      · simp only [setTakeover, editEntry, admitted, Std.ExtTreeMap.mem_insert,
          Std.compare_eq_iff_eq]
        constructor
        · rintro (same | listed)
          · exact same ▸ used
          · exact listed
        · exact .inr
  · simp only [settle_of_not_mem used]

theorem schedule_updateControl (indexed : ledger.Indexed) (name : Bytes) (height : Height) :
    (ledger.updateControl name height).1.schedule = ledger.schedule := by
  obtain ⟨_, _, _, _, updated⟩ := rest_updateControl indexed name height
  rw [updated]

theorem schedule_refreshEffective (indexed : ledger.Indexed) (name : Bytes) (height : Height) :
    (ledger.refreshEffective name height).schedule = ledger.schedule := by
  obtain ⟨_, _, _, refreshed⟩ := (rewrites_refreshEffective indexed name height).rest
  rw [refreshed]

/-- Nothing comes off the schedule when a name is settled. -/
theorem mem_dueAt_settle (indexed : ledger.Indexed) {name other : Bytes} {height date : Height}
    (listed : other ∈ ledger.dueAt date) :
    other ∈ (ledger.settle name height).1.dueAt date := by
  by_cases used : name ∈ ledger.names
  · simp only [settle_of_mem used]
    apply mem_dueAt_scheduleNext.mpr
    left
    unfold dueAt at listed ⊢
    rw [schedule_refreshEffective (indexed_updateControl indexed name height),
      schedule_updateControl indexed]
    exact listed
  · simp only [settle_of_not_mem used]
    exact listed

/-- A settled name is on the schedule in time for its coming dates. -/
theorem exists_dueAt_settle {name : Bytes} {height date : Height}
    (coming : date ∈ ((ledger.settle name height).1.standing name).dates)
    (later : height < date) :
    ∃ key, height < key ∧ key ≤ date ∧ name ∈ (ledger.settle name height).1.dueAt key := by
  by_cases used : name ∈ ledger.names
  · simp only [settle_of_mem used, standing_scheduleNext] at coming ⊢
    exact exists_dueAt_scheduleNext coming later
  · simp only [settle_of_not_mem used, standing_of_not_mem used] at coming
    cases coming

/-! ## Taking empty names out of use -/

theorem isEmpty_entry_iff (indexed : ledger.Indexed) {name : Bytes} :
    (ledger.entry name).isEmpty = true ↔ ledger.standing name = {} := by
  have claims : (ledger.entry name).claims = ∅ ↔ (ledger.standing name).claims = [] := by
    rw [List.eq_nil_iff_forall_not_mem]
    constructor
    · intro none claim member
      have listed := indexed.mem_claims.mpr ⟨claim, (mem_standing_claims indexed).mp member⟩
      rw [none] at listed
      exact Std.ExtTreeSet.not_mem_empty listed
    · intro none
      apply Std.ExtTreeSet.ext_mem
      intro hash
      refine iff_of_false (fun listed => ?_) Std.ExtTreeSet.not_mem_empty
      obtain ⟨claim, live, named⟩ := indexed.mem_claims.mp listed
      exact none claim ((mem_standing_claims indexed).mpr
        ⟨(indexed.claim_hash live).symm ▸ live, named⟩)
  have supports : (ledger.entry name).supports = ∅ ↔ (ledger.standing name).supports = [] := by
    rw [List.eq_nil_iff_forall_not_mem]
    constructor
    · intro none support member
      have listed := indexed.mem_supports.mpr
        ⟨support, (mem_standing_supports indexed).mp member⟩
      rw [none] at listed
      exact Std.ExtTreeSet.not_mem_empty listed
    · intro none
      apply Std.ExtTreeSet.ext_mem
      intro outpoint
      refine iff_of_false (fun listed => ?_) Std.ExtTreeSet.not_mem_empty
      obtain ⟨support, live, named⟩ := indexed.mem_supports.mp listed
      exact none support ((mem_standing_supports indexed).mpr
        ⟨(indexed.support_outpoint live).symm ▸ live, named⟩)
  simp only [NameEntry.isEmpty, Bool.and_eq_true, Std.ExtTreeSet.isEmpty_iff,
    Option.isNone_iff_eq_none, claims, supports, Standing.ext_iff, and_assoc]
  rfl

theorem rest_prune (ledger : Ledger) (name : Bytes) :
    ∃ names, ledger.prune name = { ledger with names } := by
  rw [prune]
  split
  · split <;> exact ⟨_, rfl⟩
  · exact ⟨_, rfl⟩

theorem indexed_prune (indexed : ledger.Indexed) (name : Bytes) :
    (ledger.prune name).Indexed where
  claim_hash := by
    intro hash claim live
    rw [claims_prune] at live
    exact indexed.claim_hash live
  support_outpoint := by
    intro outpoint support live
    rw [supports_prune] at live
    exact indexed.support_outpoint live
  mem_claims := by
    intro other hash
    rw [entry_prune, claims_prune]
    exact indexed.mem_claims
  mem_supports := by
    intro other outpoint
    rw [entry_prune, supports_prune]
    exact indexed.mem_supports
  holdings := by
    intro outpoint hash
    obtain ⟨_, pruned⟩ := ledger.rest_prune name
    rw [pruned]
    exact indexed.holdings

theorem standing_prune (name other : Bytes) :
    (ledger.prune name).standing other = ledger.standing other := by
  unfold standing claimsOf supportsOf
  simp only [entry_prune, claims_prune, supports_prune]

theorem mem_names_prune (indexed : ledger.Indexed) {name other : Bytes} :
    other ∈ (ledger.prune name).names ↔
      other ∈ ledger.names ∧ (other = name → ledger.standing name ≠ {}) := by
  rw [Ne, ← isEmpty_entry_iff indexed]
  rw [prune, entry]
  split
  · next found hit =>
    rw [hit, Option.getD_some]
    split
    · next nothing =>
      rw [Std.ExtTreeMap.mem_erase, Ne, Std.compare_eq_iff_eq]
      constructor
      · rintro ⟨different, used⟩
        exact ⟨used, fun same => absurd same.symm different⟩
      · rintro ⟨used, different⟩
        exact ⟨fun same => different same.symm nothing, used⟩
    · next something =>
      exact ⟨fun used => ⟨used, fun _ => something⟩, And.left⟩
  · next unused =>
    constructor
    · intro used
      refine ⟨used, fun same => ?_⟩
      rw [same, Std.ExtTreeMap.mem_iff_isSome_getElem?, unused] at used
      cases used
    · exact And.left

/-! ## Verifying -/

theorem amountsFit_eq (name : Bytes) (height : Height) :
    ledger.amountsFit name height = (ledger.standing name).fits height := rfl

/-- A name passes verification if its best competing claim is its recorded
controller and nothing competes before it was created. -/
theorem verify_of_control
    (keyed : ∀ {hash : ClaimHash} {claim : Claim},
      ledger.claims[hash]? = some claim → claim.hash = hash)
    {name : Bytes} {height : Height}
    (control : (ledger.standing name).best? height = (ledger.standing name).controller?)
    (early : ∀ claim ∈ (ledger.standing name).claims, claim.created ≤ claim.term.activation) :
    ledger.verify name height = .ok () := by
  have noneEarly : (ledger.claimsOf (ledger.entry name)).find?
      (fun claim => claim.term.activation < claim.created) = none := by
    rw [List.find?_eq_none]
    intro claim member isEarly
    exact UInt32.not_lt.mpr (early claim member) (of_decide_eq_true isEarly)
  rw [verify]
  simp only [noneEarly, bestClaim?_eq, takeover?_eq_standing, control]
  unfold Standing.controller? at control ⊢
  cases takeover : (ledger.standing name).takeover with
  | none => rfl
  | some last =>
    rw [takeover] at control
    obtain ⟨claim, member, isController, active, _⟩ := Standing.best?_eq_some _ _ control
    obtain ⟨hash, _, live⟩ := List.mem_filterMap.mp member
    rw [← keyed live, isController] at live
    simp only [live, active, Bool.not_true, Bool.false_eq_true, if_false, Option.map_some, ne_eq,
      not_true_eq_false]
    rfl

/-- A settled name passes verification. -/
theorem verify_of_settled (indexed : ledger.Indexed) {name : Bytes} {height : Height}
    (settled : (ledger.standing name).Settled height) :
    ledger.verify name height = .ok () :=
  verify_of_control indexed.claim_hash settled.control settled.early

/-- A name that passes verification has no claim that competes before it was
created. -/
theorem early_of_verify {name : Bytes} {height : Height}
    (verified : ledger.verify name height = .ok ()) {claim : Claim}
    (member : claim ∈ (ledger.standing name).claims) : claim.created ≤ claim.term.activation := by
  unfold verify at verified
  simp only at verified
  split at verified
  · cases verified
  · next noneEarly =>
    have none := List.find?_eq_none.mp (Option.eq_none_iff_forall_ne_some.mpr noneEarly)
    exact UInt32.not_lt.mp fun early => none claim member (decide_eq_true early)

/-! ## Settling many names -/

/-- What settling a list of names at a height comes to. -/
structure Settlement (height : Height) (names : List Bytes) (before after : Ledger) : Prop where
  indexed : after.Indexed
  standing : ∀ name, after.standing name =
    if name ∈ names then (before.standing name).settled height else before.standing name
  settled : ∀ name ∈ names, (after.standing name).Settled height
  rest : ∃ claims supports names schedule dirty,
    after = { before with claims, supports, names, schedule, dirty }
  /-- A listed name stays in use only if something lives under it. -/
  used : ∀ name, name ∈ after.names ↔
    name ∈ before.names ∧ (name ∈ names → after.standing name ≠ {})
  /-- Nothing comes off the schedule. -/
  kept : ∀ {date : Height} {name : Bytes}, name ∈ before.dueAt date → name ∈ after.dueAt date
  /-- A listed name is due no later than anything under it. -/
  coming : ∀ name ∈ names, ∀ date ∈ (after.standing name).dates, height < date →
    ∃ key, height < key ∧ key ≤ date ∧ name ∈ after.dueAt key

namespace Settlement

variable {height : Height}

theorem nil (indexed : ledger.Indexed) : Settlement height [] ledger ledger where
  indexed := indexed
  standing := by simp
  settled := by simp
  rest := ⟨_, _, _, _, _, rfl⟩
  used := by simp
  kept := id
  coming := by simp

/-- Settling one name and taking it out of use when it is empty. -/
theorem single (indexed : ledger.Indexed) (name : Bytes)
    (fits : (ledger.settle name height).1.amountsFit name height = true)
    (verified : (ledger.settle name height).1.verify name height = .ok ()) :
    Settlement height [name] ledger ((ledger.settle name height).1.prune name) where
  indexed := indexed_prune (indexed_settle indexed name height) name
  standing := by
    intro other
    simp only [standing_prune, standing_settle indexed, List.mem_singleton]
    by_cases same : name = other
    · rw [if_pos same, if_pos same.symm, same]
    · rw [if_neg same, if_neg (Ne.symm same)]
  settled := by
    intro other member
    rw [List.mem_singleton.mp member, standing_prune]
    have becomes := standing_settle indexed name name height
    rw [if_pos rfl] at becomes
    rw [amountsFit_eq] at fits
    have early (claim : Claim)
        (member : claim ∈ ((ledger.settle name height).1.standing name).claims) :
        claim.created ≤ claim.term.activation := early_of_verify verified member
    rw [becomes] at fits early ⊢
    exact Standing.settled_settled _ _ fits early
  rest := by
    obtain ⟨_, _, _, _, _, settled⟩ := rest_settle indexed name height
    obtain ⟨_, pruned⟩ := (ledger.settle name height).1.rest_prune name
    rw [pruned, settled]
    exact ⟨_, _, _, _, _, rfl⟩
  used := by
    intro other
    rw [mem_names_prune (indexed_settle indexed name height), mem_names_settle indexed,
      List.mem_singleton, standing_prune]
    constructor
    · rintro ⟨used, something⟩
      exact ⟨used, fun same => same ▸ something same⟩
    · rintro ⟨used, something⟩
      exact ⟨used, fun same => same ▸ something same⟩
  kept := by
    intro date other listed
    obtain ⟨_, pruned⟩ := (ledger.settle name height).1.rest_prune name
    rw [pruned]
    exact mem_dueAt_settle indexed listed
  coming := by
    intro other member date coming later
    rw [List.mem_singleton.mp member, standing_prune] at *
    obtain ⟨_, pruned⟩ := (ledger.settle name height).1.rest_prune name
    rw [pruned]
    exact exists_dueAt_settle coming later

/-- Settling some names and then some more settles both lists. A name on both
is not changed by the second settling. -/
theorem append {names more : List Bytes} {first second third : Ledger}
    (left : Settlement height names first second)
    (right : Settlement height more second third) :
    Settlement height (names ++ more) first third where
  indexed := right.indexed
  standing := by
    intro name
    rw [right.standing, left.standing]
    by_cases here : name ∈ names
    · by_cases again : name ∈ more
      · have settled := left.settled name here
        rw [left.standing, if_pos here] at settled
        simp [here, again, settled.settled_eq]
      · simp [here, again]
    · by_cases again : name ∈ more
      · simp [here, again]
      · simp [here, again]
  settled := by
    intro name member
    by_cases again : name ∈ more
    · exact right.settled name again
    · rw [right.standing, if_neg again]
      exact left.settled name ((List.mem_append.mp member).resolve_right again)
  rest := by
    obtain ⟨_, _, _, _, _, rfl⟩ := left.rest
    obtain ⟨_, _, _, _, _, rfl⟩ := right.rest
    exact ⟨_, _, _, _, _, rfl⟩
  used := by
    intro name
    rw [right.used, left.used, right.standing]
    by_cases again : name ∈ more
    · by_cases here : name ∈ names
      · have settled := (left.settled name here).settled_eq
        simp [here, again, settled]
      · simp [here, again]
    · simp [again]
  kept := fun listed => right.kept (left.kept listed)
  coming := by
    intro name member date coming later
    by_cases again : name ∈ more
    · exact right.coming name again date coming later
    · rw [right.standing, if_neg again] at coming
      have here := (List.mem_append.mp member).resolve_right again
      obtain ⟨key, after, before, listed⟩ := left.coming name here date coming later
      exact ⟨key, after, before, right.kept listed⟩

end Settlement

/-- How settling a list of names succeeds: the first name passes both checks,
and the rest is settled from there. -/
theorem settleAll_cons_ok {height : Height} {name : Bytes} {more : List Bytes} {after : Ledger}
    {changes : List (Bytes × Option ClaimHash)}
    (done : settleAll height (name :: more) ledger = (after, .ok changes)) :
    (ledger.settle name height).1.amountsFit name height = true ∧
      (ledger.settle name height).1.verify name height = .ok () ∧
      ∃ rest, settleAll height more ((ledger.settle name height).1.prune name) =
          (after, .ok rest) ∧
        changes = ((ledger.settle name height).2.map fun controller =>
          (name, controller)).toList ++ rest := by
  rw [settleAll] at done
  simp only at done
  split at done
  · cases done
  · next fits =>
    split at done
    · cases done
    · next verified =>
      refine ⟨by simpa using fits, verified, ?_⟩
      cases result : settleAll height more ((ledger.settle name height).1.prune name) with
      | mk last answer =>
        rw [result] at done
        cases answer with
        | error failure => cases done
        | ok rest =>
          cases done
          exact ⟨rest, rfl, rfl⟩

/-- Names that were settled one after the other without failure are settled. -/
theorem settlement_of_settleAll {height : Height} {names : List Bytes} {after : Ledger}
    {changes : List (Bytes × Option ClaimHash)} (indexed : ledger.Indexed)
    (done : settleAll height names ledger = (after, .ok changes)) :
    Settlement height names ledger after := by
  induction names generalizing ledger changes with
  | nil =>
    cases done
    exact Settlement.nil indexed
  | cons name more ih =>
    obtain ⟨fits, verified, rest, done, -⟩ := settleAll_cons_ok done
    have head := Settlement.single indexed name fits verified
    exact head.append (ih head.indexed done)

/-- Of the changes of control that are reported, those of a name are what its
standing decides. -/
theorem filter_changes_of_settleAll {height : Height} {names : List Bytes} {after : Ledger}
    {changes : List (Bytes × Option ClaimHash)} (indexed : ledger.Indexed)
    (distinct : names.Nodup) (done : settleAll height names ledger = (after, .ok changes))
    (name : Bytes) :
    changes.filter (fun change => change.1 = name) =
      if name ∈ names then
        (((ledger.standing name).decided height).2.map fun controller =>
          (name, controller)).toList
      else [] := by
  induction names generalizing ledger changes with
  | nil =>
    cases done
    rfl
  | cons first more ih =>
    obtain ⟨notLater, distinct⟩ := List.nodup_cons.mp distinct
    obtain ⟨-, -, rest, further, rfl⟩ := settleAll_cons_ok done
    have later :=
      ih (indexed_prune (indexed_settle indexed first height) first) distinct further
    rw [standing_prune, standing_settle indexed] at later
    rw [List.filter_append, later, settle_change indexed]
    by_cases isFirst : first = name
    · subst isFirst
      rw [if_neg notLater, if_pos List.mem_cons_self, List.append_nil, List.filter_eq_self]
      intro change listed
      obtain ⟨controller, -, rfl⟩ := Option.map_eq_some_iff.mp (Option.mem_toList.mp listed)
      exact decide_eq_true rfl
    · have others : ((((ledger.standing first).decided height).2.map fun controller =>
          (first, controller)).toList.filter fun change => change.1 = name) = [] := by
        rw [List.filter_eq_nil_iff]
        intro change listed isName
        obtain ⟨controller, -, rfl⟩ := Option.map_eq_some_iff.mp (Option.mem_toList.mp listed)
        exact isFirst (of_decide_eq_true isName)
      rw [others, List.nil_append, if_neg isFirst]
      simp only [List.mem_cons, Ne.symm isFirst, false_or]

/-- Names are settled without failure exactly if what settling makes of each of
them is settled. -/
theorem settleAll_isOk_iff {height : Height} {names : List Bytes} (indexed : ledger.Indexed) :
    (settleAll height names ledger).2.isOk = true ↔
      ∀ name ∈ names, ((ledger.standing name).settled height).Settled height := by
  constructor
  · intro isOk name listed
    cases result : settleAll height names ledger with
    | mk after answer =>
      rw [result] at isOk
      cases answer with
      | error failure => cases isOk
      | ok changes =>
        have settlement := settlement_of_settleAll indexed result
        have settled := settlement.settled name listed
        rw [settlement.standing, if_pos listed] at settled
        exact settled
  · intro passes
    induction names generalizing ledger with
    | nil => rfl
    | cons name more ih =>
      have indexed' := indexed_settle indexed name height
      have head : ((ledger.settle name height).1.standing name).Settled height := by
        rw [standing_settle indexed, if_pos rfl]
        exact passes name List.mem_cons_self
      have fits : (ledger.settle name height).1.amountsFit name height = true := head.fits
      have rest := ih (indexed_prune indexed' name) fun other listed => by
        rw [standing_prune, standing_settle indexed]
        split
        · have settled := passes name List.mem_cons_self
          rw [settled.settled_eq]
          exact settled
        · exact passes other (List.mem_cons_of_mem name listed)
      rw [settleAll]
      simp only [fits, verify_of_settled indexed' head, Bool.not_true, Bool.false_eq_true, if_false]
      cases result : settleAll height more ((ledger.settle name height).1.prune name) with
      | mk after answer =>
        rw [result] at rest
        cases answer with
        | error failure => cases rest
        | ok changes => rfl

end Ledger

end ClaimLedger
