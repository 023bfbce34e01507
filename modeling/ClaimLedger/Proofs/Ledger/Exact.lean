/-
# Exact sums

Amounts are words, and a sum of words wraps where it leaves the word. Settling a name takes sums at
four points: when it looks for the best claim, when it looks again with everything waiting let in,
when it brings the amounts up to date that claims show, and when it verifies. Letting rows in only
makes sums larger, so the settled name tells about all of them: if its sums fit into words, no sum
on the way wrapped.

Nothing here relies on the indexes following from the rows, so it holds for all events whatever.
-/

import ClaimLedger.Proofs.Ledger.Accepted

namespace ClaimLedger

/-- A word holds the sum of amounts exactly if the sum fits into it. -/
theorem Amount.toNat_total_iff {amounts : List Amount} :
    (total amounts).toNat = exactTotal amounts ↔ exactTotal amounts < bound := by
  refine ⟨fun exact => ?_, toNat_total⟩
  rw [← exact]
  exact (total amounts).toNat_lt

/-- What counts goes on to count when everything waiting is let in. -/
theorem Term.isActiveAt_activateBy {term : Term} {height : Height}
    (active : term.isActiveAt height = true) : term.activateBy height = term := by
  refine activateBy_of_not_isPendingAt fun pending => ?_
  exact (term.active_or_pending_or_expired height).2.1 ⟨active, pending⟩

namespace Standing

variable {standing : Standing} {height : Height}

/-- The sums that have to fit: what supports add to each claim, and what each claim competes
with. -/
theorem fits_iff : standing.fits height = true ↔
    (∀ hash, Amount.exactTotal (standing.backing height hash) < Amount.bound) ∧
      ∀ claim ∈ standing.claims, claim.term.isActiveAt height = true →
        claim.amount.toNat + Amount.exactTotal (standing.backing height claim.hash) <
          Amount.bound := by
  have total (hash : ClaimHash) :
      ((standing.supports.filter fun support => support.term.isActiveAt height).filter
        fun support => support.claim == hash).map Support.amount =
        standing.backing height hash := by
    rw [List.filter_filter]
    rfl
  rw [fits]
  simp only [total, Bool.and_eq_true, List.all_eq_true, decide_eq_true_eq, List.mem_eraseDups,
    List.mem_filter, and_imp]
  refine and_congr_left fun _ => ⟨fun small hash => ?_, fun small hash _ => small hash⟩
  by_cases backed : hash ∈
      (standing.supports.filter fun support => support.term.isActiveAt height).map Support.claim
  · exact small hash backed
  · have nothing : standing.backing height hash = [] := by
      rw [← total, List.filter_eq_nil_iff.mpr, List.map_nil]
      intro support counts same
      exact backed (List.mem_map.mpr ⟨support, counts, eq_of_beq same⟩)
    rw [nothing]
    decide

/-- Letting everything in takes no support away from a claim. -/
theorem exactTotal_backing_le_admitted (standing : Standing) (height : Height) (hash : ClaimHash) :
    Amount.exactTotal (standing.backing height hash) ≤
      Amount.exactTotal ((standing.admitted height).backing height hash) := by
  refine Amount.exactTotal_le_of_sublist ?_
  rw [backing, backing, admitted, List.filter_map, List.map_map]
  refine List.Sublist.map _ (List.monotone_filter_right _ fun support counts => ?_)
  obtain ⟨same, active⟩ := Bool.and_eq_true_iff.mp counts
  rw [Function.comp_apply, Support.admitted, Term.isActiveAt_activateBy active]
  exact counts

theorem fits_of_fits_admitted (fits : (standing.admitted height).fits height = true) :
    standing.fits height = true := by
  obtain ⟨backings, worths⟩ := fits_iff.mp fits
  refine fits_iff.mpr ⟨fun hash => ?_, fun claim listed active => ?_⟩
  · exact Nat.lt_of_le_of_lt (exactTotal_backing_le_admitted standing height hash) (backings hash)
  · have same : claim.admitted height = claim := by
      rw [Claim.admitted, Term.isActiveAt_activateBy active]
    have small := worths claim (List.mem_map.mpr ⟨claim, listed, same⟩) active
    have grows := exactTotal_backing_le_admitted standing height claim.hash
    omega

/-- Bringing the amounts up to date that claims show changes no sum. -/
theorem fits_refreshed (standing : Standing) (earlier height : Height) :
    (standing.refreshed earlier).fits height = standing.fits height := by
  rw [Bool.eq_iff_iff, fits_iff, fits_iff, refreshed]
  simp only [List.forall_mem_map]
  rfl

/-- The sums that decided about control fit, if those fit that it left behind. -/
theorem fits_of_fits_decided (fits : (standing.decided height).1.fits height = true) :
    standing.fits height = true ∧
      (standing.best? height ≠ standing.controller? →
        (standing.admitted height).fits height = true) := by
  rw [decided] at fits
  split at fits
  · next same => exact ⟨fits, fun different => absurd same different⟩
  · have admitted : (standing.admitted height).fits height = true := by
      split at fits <;> exact fits
    exact ⟨fits_of_fits_admitted admitted, fun _ => admitted⟩

end Standing

namespace Ledger

variable {ledger after : Ledger} {name : Bytes} {height : Height} {txs : List BlockTx}

/-! ## Settling what an entry lists -/

theorem hash_mem_of_listed (keyed : ledger.Keyed) {claim : Claim}
    (listed : claim ∈ (ledger.standing name).claims) :
    claim.hash ∈ (ledger.entry name).claims.toList := by
  obtain ⟨hash, member, live⟩ := List.mem_filterMap.mp listed
  have here : claim.hash = hash := keyed.claims live
  exact here.symm ▸ member

theorem outpoint_mem_of_listed (keyed : ledger.Keyed) {support : Support}
    (listed : support ∈ (ledger.standing name).supports) :
    support.outpoint ∈ (ledger.entry name).supports.toList := by
  obtain ⟨outpoint, member, live⟩ := List.mem_filterMap.mp listed
  have here : support.outpoint = outpoint := keyed.supports live
  exact here.symm ▸ member

theorem standing_admitPending_self (keyed : ledger.Keyed) (name : Bytes) (height : Height) :
    (ledger.admitPending name height).standing name = (ledger.standing name).admitted height := by
  rw [(rewrites_admitPending_listed keyed.claims keyed.supports name height).standing_eq,
    Standing.admitted]
  congr 1
  · exact List.map_congr_left fun claim listed => if_pos (hash_mem_of_listed keyed listed)
  · exact List.map_congr_left fun support listed => if_pos (outpoint_mem_of_listed keyed listed)

theorem standing_refreshEffective_self (keyed : ledger.Keyed) (name : Bytes) (height : Height) :
    (ledger.refreshEffective name height).standing name =
      (ledger.standing name).refreshed height := by
  rw [(rewrites_refreshEffective_listed keyed.claims name height).standing_eq, List.map_id,
    Standing.refreshed]
  congr 1
  exact List.map_congr_left fun claim listed => if_pos (hash_mem_of_listed keyed listed)

theorem standing_updateControl_self (keyed : ledger.Keyed) (name : Bytes) (height : Height) :
    (ledger.updateControl name height).1.standing name =
      ((ledger.standing name).decided height).1 := by
  rw [updateControl, Standing.decided, Standing.controller?]
  simp only [takeover?_eq_standing, bestClaim?_eq, standing_admitPending_self keyed]
  split
  · rfl
  · split
    · exact standing_admitPending_self keyed name height
    · rw [standing_setTakeover, if_pos rfl, standing_admitPending_self keyed]

theorem keyed_of_settles (keyed : ledger.Keyed) (settles : Settles height ledger after) :
    after.Keyed :=
  keyed.settles (upheld_keyed False height []) settles

/-- Settling a name settles its standing, wherever the rows come from that its entry lists. -/
theorem standing_settle_self (keyed : ledger.Keyed) (name : Bytes) (height : Height) :
    (ledger.settle name height).1.standing name = (ledger.standing name).settled height := by
  by_cases used : name ∈ ledger.names
  · have keyed' : (ledger.updateControl name height).1.Keyed :=
      keyed_of_settles keyed (Settles.refl.updateControl name)
    rw [settle_of_mem used, standing_scheduleNext, standing_refreshEffective_self keyed',
      standing_updateControl_self keyed]
    rfl
  · rw [settle_of_not_mem used, standing_of_not_mem used,
      (Standing.settled_empty height).settled_eq]

/-! ## One name -/

/-- Every sum over the rows of a name at a height is what it would be if words had no end. -/
structure Exact (ledger : Ledger) (name : Bytes) (height : Height) : Prop where
  /-- What supports add to each claim, -/
  supports : ∀ hash, (ledger.supportTotal (ledger.entry name) height hash).toNat =
    Amount.exactTotal (ledger.supportAmounts (ledger.entry name) height hash)
  /-- what each competing claim competes with, -/
  competitors : ∀ entrant ∈ ledger.competitors (ledger.entry name) height,
    entrant.2.toNat = entrant.1.amount.toNat +
      Amount.exactTotal (ledger.supportAmounts (ledger.entry name) height entrant.1.hash)
  /-- and what it should show. -/
  effective : ∀ claim ∈ ledger.claimsOf (ledger.entry name), claim.term.isActiveAt height = true →
    (ledger.effectiveAmount (ledger.entry name) height claim).toNat = claim.amount.toNat +
      Amount.exactTotal (ledger.supportAmounts (ledger.entry name) height claim.hash)

/-- Sums are exact where they fit into words, and nowhere else. -/
theorem exact_iff : ledger.Exact name height ↔ ledger.amountsFit name height = true := by
  rw [amountsFit_eq]
  constructor
  · intro exact
    refine Standing.fits_iff.mpr ⟨fun hash => Amount.toNat_total_iff.mp (exact.supports hash), ?_⟩
    intro claim listed active
    have small := (ledger.effectiveAmount (ledger.entry name) height claim).toNat_lt
    rw [exact.effective claim listed active] at small
    exact small
  · intro fits
    refine ⟨fun hash => Amount.toNat_total ((Standing.fits_iff.mp fits).1 hash), ?_, ?_⟩
    · intro entrant competes
      obtain ⟨claim, listed, rfl⟩ := List.mem_map.mp competes
      obtain ⟨listed, active⟩ := List.mem_filter.mp listed
      have sum := Standing.toNat_worth fits listed active
      exact sum
    · intro claim listed active
      have sum := Standing.toNat_worth fits listed active
      rw [effectiveAmount, if_pos active]
      exact sum

/-- No sum wraps while the name is settled at the height. -/
structure SettlesExactly (ledger : Ledger) (name : Bytes) (height : Height) : Prop where
  /-- The best claim is looked for, -/
  found : ledger.Exact name height
  /-- where it is not the controller again with everything waiting let in, -/
  contested : ledger.bestClaim? name height ≠ (ledger.takeover? name).map Takeover.claim →
    (ledger.admitPending name height).Exact name height
  /-- amounts are brought up to date, -/
  decided : (ledger.updateControl name height).1.Exact name height
  /-- the best claim is verified, -/
  verified : (ledger.settle name height).1.Exact name height
  /-- and each competing claim shows what it competes with. -/
  shown : ∀ claim ∈
      (ledger.settle name height).1.claimsOf ((ledger.settle name height).1.entry name),
    claim.term.isActiveAt height = true → claim.effective.toNat = claim.amount.toNat +
      Amount.exactTotal ((ledger.settle name height).1.supportAmounts
        ((ledger.settle name height).1.entry name) height claim.hash)

/-- The check that follows on the settling of a name is about every sum that was taken. -/
theorem settlesExactly_iff (keyed : ledger.Keyed) :
    ledger.SettlesExactly name height ↔
      (ledger.settle name height).1.amountsFit name height = true := by
  refine ⟨fun exactly => exact_iff.mp exactly.verified, fun fits => ?_⟩
  have verified := exact_iff.mpr fits
  have becomes := standing_settle_self keyed name height
  have decides := standing_updateControl_self keyed name height
  rw [amountsFit_eq, becomes, Standing.settled, Standing.fits_refreshed] at fits
  obtain ⟨found, contested⟩ := Standing.fits_of_fits_decided fits
  refine ⟨exact_iff.mpr found, fun different => exact_iff.mpr ?_, exact_iff.mpr ?_, verified, ?_⟩
  · rw [amountsFit_eq, standing_admitPending_self keyed]
    refine contested ?_
    rw [Standing.controller?, ← takeover?_eq_standing]
    exact different
  · rw [amountsFit_eq, decides]
    exact fits
  · intro claim listed active
    rw [← verified.effective claim listed active]
    change claim ∈ ((ledger.settle name height).1.standing name).claims at listed
    change claim.effective.toNat =
      (((ledger.settle name height).1.standing name).effective height claim).toNat
    rw [becomes] at listed ⊢
    obtain ⟨before, -, rfl⟩ := List.mem_map.mp listed
    rfl

/-! ## One block -/

/-- The names that are settled one after the other, each with the ledger that it finds. -/
def turns (height : Height) : List Bytes → Ledger → List (Bytes × Ledger)
  | [], _ => []
  | name :: more, ledger =>
    (name, ledger) :: turns height more ((ledger.settle name height).1.prune name)

/-- The turns of a block, as far as no sum stops it. -/
def blockTurns (ledger : Ledger) (height : Height) (txs : List BlockTx) : List (Bytes × Ledger) :=
  let work := (BlockWork.start ledger height).run height txs
  turns height work.touched.toList work.ledger

/-- Every name finds rows that are kept under their own keys. -/
theorem keyed_of_mem_turns {names : List Bytes} {turn : Bytes × Ledger} (keyed : ledger.Keyed)
    (listed : turn ∈ turns height names ledger) : turn.2.Keyed := by
  induction names generalizing ledger with
  | nil => cases listed
  | cons name more ih =>
    rcases List.mem_cons.mp listed with rfl | listed
    · exact keyed
    · exact ih ((keyed_of_settles keyed (Settles.refl.settle name)).prune name) listed

/-- Names are settled to the last one exactly if no sum wraps in any turn. -/
theorem isOk_settleAll_iff (ordered : ledger.Ordered (height.toNat + 1)) (names : List Bytes) :
    (settleAll height names ledger).2.isOk = true ↔
      ∀ turn ∈ turns height names ledger, turn.2.SettlesExactly turn.1 height := by
  induction names generalizing ledger with
  | nil => exact iff_of_true rfl (List.forall_mem_nil _)
  | cons name more ih =>
    have ordered' := (ordered.settle (upheld_ordered height []) name).prune name
    rw [turns, List.forall_mem_cons, ← ih ordered', settlesExactly_iff (Ordered.keyed ordered),
      settleAll]
    simp only [verify_settle ordered]
    cases fits : (ledger.settle name height).1.amountsFit name height with
    | false => exact iff_of_false Bool.false_ne_true fun both => Bool.false_ne_true both.1
    | true =>
      cases (settleAll height more ((ledger.settle name height).1.prune name)).2 with
      | error failure => exact iff_of_false Bool.false_ne_true fun both => Bool.false_ne_true both.2
      | ok changes => exact iff_of_true rfl ⟨rfl, rfl⟩

/-- A block that is next, and for which the rules have all numbers, is taken in exactly if no sum
wraps in any turn. Otherwise it is stopped by the first sum that would. -/
theorem isOk_applyBlock_of_numbers (timely : ledger.Timely)
    (notTop : ledger.height ≠ some Height.top) (next : height = Height.next ledger.height)
    (fine : ((BlockWork.start ledger height).run height txs).fault = none) :
    ((ledger.applyBlock height txs).2.isOk = true ↔
        ∀ turn ∈ ledger.blockTurns height txs, turn.2.SettlesExactly turn.1 height) ∧
      ((ledger.applyBlock height txs).2.isOk = false →
        (ledger.applyBlock height txs).2 = .error (.number .amountOverflow)) := by
  have ordered := ordered_run timely notTop next fine
  rw [blockTurns, ← isOk_settleAll_iff ordered, applyBlock]
  simp only [if_neg notTop, if_neg (not_not.mpr next), fine]
  rcases result : settleAll height ((BlockWork.start ledger height).run height txs).touched.toList
    ((BlockWork.start ledger height).run height txs).ledger with ⟨settled, failure | takeovers⟩
  · obtain ⟨rfl, -⟩ := error_of_settleAll ordered (upheld_keyed False height txs)
      (Ordered.keyed ordered) result
    exact ⟨Iff.rfl, fun _ => rfl⟩
  · refine ⟨Iff.rfl, fun stopped => ?_⟩
    cases stopped

end Ledger

end ClaimLedger
