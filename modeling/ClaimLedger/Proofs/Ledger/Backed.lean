/-
# One more support

Where sums are exact, a support that counts adds its amount to what its claim competes with and
changes nothing else. So a claim that is best stays best with one more support, and a claim that
controls its name once the name is settled also controls it with one more support. The second does
not follow from the first alone: without the support the name may be contested, and then whatever
waits is let in before the comparison is made again.
-/

import ClaimLedger.Proofs.Ledger.Exact

namespace ClaimLedger

/-! ## The first of the best -/

section LeastBy

variable {α : Type} {order : α → α → Ordering}

/-- The least element is the first that comes before all elements in front of it and after none
behind it. -/
theorem leastBy?_eq_some_iff [Std.TransCmp order] {list : List α} {best : α} :
    leastBy? order list = some best ↔
      ∃ front back, list = front ++ best :: back ∧ (∀ other ∈ front, order best other = .lt) ∧
        ∀ other ∈ back, order other best ≠ .lt := by
  constructor
  · intro found
    induction list generalizing best with
    | nil => cases found
    | cons first rest ih =>
      have behind := (leastBy?_eq_some found).2
      rw [leastBy?] at found
      cases least : leastBy? order rest with
      | none =>
        rw [least, Option.some.injEq] at found
        exact ⟨[], rest, by rw [found]; rfl, by simp,
          fun other listed => behind other (List.mem_cons_of_mem _ listed)⟩
      | some smallest =>
        rw [least] at found
        simp only at found
        split at found
        · next before =>
          cases found
          obtain ⟨front, back, rfl, inFront, inBack⟩ := ih least
          refine ⟨first :: front, back, rfl, ?_, inBack⟩
          exact List.forall_mem_cons.mpr ⟨before, inFront⟩
        · cases found
          exact ⟨[], rest, rfl, by simp,
            fun other listed => behind other (List.mem_cons_of_mem _ listed)⟩
  · rintro ⟨front, back, rfl, inFront, inBack⟩
    induction front with
    | nil =>
      rw [List.nil_append, leastBy?]
      cases least : leastBy? order back with
      | none => rfl
      | some smallest => exact if_neg (inBack smallest (leastBy?_eq_some least).1)
    | cons first front ih =>
      rw [List.cons_append, leastBy?, ih fun other listed => inFront other (.tail _ listed)]
      exact if_pos (inFront first (.head _))

end LeastBy

/-- A claim that ranks before another still does with more for itself and less for the other. -/
theorem Claim.compareRank_lt {claim other : Claim} {low high less more : Amount}
    (ranks : compareRank (claim, low) (other, more) = .lt) (raised : low ≤ high)
    (lowered : less ≤ more) : compareRank (claim, high) (other, less) = .lt := by
  have ranks : (compare more low).then (compareAge claim other) = .lt := ranks
  change (compare less high).then (compareAge claim other) = .lt
  rw [Ordering.then_eq_lt, Std.compare_eq_lt, Std.compare_eq_iff_eq] at ranks ⊢
  rw [UInt64.le_iff_toNat_le] at raised lowered
  rw [UInt64.lt_iff_toNat_lt, ← UInt64.toNat_inj] at ranks ⊢
  rcases ranks with above | ⟨equal, older⟩
  · left
    omega
  · by_cases above : less.toNat < high.toNat
    · exact .inl above
    · exact .inr ⟨by omega, older⟩

namespace Standing

variable {support : Support} {before after : Standing} {height : Height} {hash : ClaimHash}

/-- Who is best stays best when nobody else competes with more, nor it with less. -/
theorem best?_of_raised (same : after.claims = before.claims)
    (distinct : before.claims.Pairwise fun left right => left.hash ≠ right.hash)
    (raised : ∀ claim ∈ before.claims, claim.term.isActiveAt height = true → claim.hash = hash →
      before.worth height claim ≤ after.worth height claim)
    (others : ∀ claim ∈ before.claims, claim.term.isActiveAt height = true → claim.hash ≠ hash →
      after.worth height claim ≤ before.worth height claim)
    (best : before.best? height = some hash) : after.best? height = some hash := by
  obtain ⟨⟨claim, _⟩, least, rfl⟩ := Option.map_eq_some_iff.mp best
  obtain ⟨front, back, entrants, inFront, inBack⟩ := leastBy?_eq_some_iff.mp least
  obtain ⟨first, rest, competing, rfl, others'⟩ := List.map_eq_append_iff.mp entrants
  obtain ⟨_, last, rfl, here, rfl⟩ := List.map_eq_cons_iff.mp others'
  cases here
  have competes {other : Claim} (listed : other ∈ first ++ claim :: last) :
      other ∈ before.claims ∧ other.term.isActiveAt height = true :=
    List.mem_filter.mp (competing ▸ listed)
  have apart := distinct.filter fun claim => claim.term.isActiveAt height
  rw [competing, List.pairwise_append, List.pairwise_cons] at apart
  obtain ⟨-, ⟨behind, -⟩, ahead⟩ := apart
  have own := competes (List.mem_append_right _ List.mem_cons_self)
  have more := raised claim own.1 own.2 rfl
  refine Option.map_eq_some_iff.mpr ⟨(claim, after.worth height claim), ?_, rfl⟩
  refine leastBy?_eq_some_iff.mpr ⟨first.map fun other => (other, after.worth height other),
    last.map fun other => (other, after.worth height other), ?_, ?_, ?_⟩
  · rw [competitors, same, competing, List.map_append, List.map_cons]
  · intro entrant entered
    obtain ⟨other, listed, rfl⟩ := List.mem_map.mp entered
    have theirs := competes (List.mem_append_left _ listed)
    exact Claim.compareRank_lt (inFront _ (List.mem_map_of_mem listed)) more
      (others other theirs.1 theirs.2 (ahead other listed claim List.mem_cons_self))
  · intro entrant entered outranks
    obtain ⟨other, listed, rfl⟩ := List.mem_map.mp entered
    have theirs := competes (List.mem_append_right _ (List.mem_cons_of_mem _ listed))
    exact inBack _ (List.mem_map_of_mem listed) (Claim.compareRank_lt outranks
      (others other theirs.1 theirs.2 (behind other listed).symm) more)

/-- Where control is contested, the best claim is in control once everything was let in. -/
theorem controller?_decided_of_ne (contested : before.best? height ≠ before.controller?) :
    (before.decided height).1.controller? = (before.admitted height).best? height := by
  rw [decided, if_neg contested]
  split
  · next same => exact same.symm
  · rw [controller?, Option.map_map]
    exact Option.map_id'

/-- One standing has a support more than the other, and nothing else is different. -/
structure Joined (support : Support) (before after : Standing) : Prop where
  claims : after.claims = before.claims
  supports : after.supports.Perm (support :: before.supports)
  takeover : after.takeover = before.takeover

namespace Joined

/-- Whoever waits is let in, with the support and without it. -/
theorem admitted (joined : Joined support before after)
    (active : support.term.isActiveAt height = true) :
    Joined support (before.admitted height) (after.admitted height) where
  claims := congrArg (List.map (Claim.admitted height)) joined.claims
  supports := by
    have same : support.admitted height = support := by
      rw [Support.admitted, Term.isActiveAt_activateBy active]
    have perm := joined.supports.map (Support.admitted height)
    rw [List.map_cons, same] at perm
    exact perm
  takeover := joined.takeover

variable (joined : Joined support before after) (active : support.term.isActiveAt height = true)

include joined active

/-- The claim of the support is backed with that much more. -/
theorem exactTotal_backing (hash : ClaimHash) :
    Amount.exactTotal (after.backing height hash) = Amount.exactTotal (before.backing height hash) +
      if support.claim = hash then support.amount.toNat else 0 := by
  have perm := (joined.supports.filter fun support =>
    support.claim == hash && support.term.isActiveAt height).map Support.amount
  rw [Amount.exactTotal_eq_sum, Amount.exactTotal_eq_sum, backing, (perm.map UInt64.toNat).sum_eq,
    backing]
  by_cases here : support.claim = hash
  · simp [here, active, Nat.add_comm]
  · simp [here]

/-- Without the support all sums fit where they fit with it. -/
theorem fits (fits : after.fits height = true) : before.fits height = true := by
  obtain ⟨backings, worths⟩ := fits_iff.mp fits
  have grows := joined.exactTotal_backing active
  refine fits_iff.mpr ⟨fun hash => ?_, fun claim listed counts => ?_⟩
  · have small := backings hash
    rw [grows] at small
    omega
  · have small := worths claim (joined.claims ▸ listed) counts
    rw [grows] at small
    omega

/-- The claim of the support competes with that much more. -/
theorem toNat_worth (fits : after.fits height = true) {claim : Claim}
    (listed : claim ∈ before.claims) (competes : claim.term.isActiveAt height = true) :
    (after.worth height claim).toNat = (before.worth height claim).toNat +
      if support.claim = claim.hash then support.amount.toNat else 0 := by
  rw [Standing.toNat_worth fits (joined.claims ▸ listed) competes,
    Standing.toNat_worth (joined.fits active fits) listed competes,
    joined.exactTotal_backing active, Nat.add_assoc]

theorem worth_le (fits : after.fits height = true) {claim : Claim}
    (listed : claim ∈ before.claims) (competes : claim.term.isActiveAt height = true) :
    before.worth height claim ≤ after.worth height claim := by
  rw [UInt64.le_iff_toNat_le, joined.toNat_worth active fits listed competes]
  exact Nat.le_add_right _ _

theorem worth_eq (fits : after.fits height = true) {claim : Claim}
    (listed : claim ∈ before.claims) (competes : claim.term.isActiveAt height = true)
    (another : claim.hash ≠ support.claim) :
    after.worth height claim = before.worth height claim := by
  rw [← UInt64.toNat_inj, joined.toNat_worth active fits listed competes, if_neg another.symm,
    Nat.add_zero]

variable (distinct : before.claims.Pairwise fun left right => left.hash ≠ right.hash)

include distinct

/-- The claim of the support stays best. -/
theorem best?_eq (fits : after.fits height = true)
    (best : before.best? height = some support.claim) :
    after.best? height = some support.claim :=
  best?_of_raised joined.claims distinct
    (fun _ listed competes _ => joined.worth_le active fits listed competes)
    (fun _ listed competes another =>
      UInt64.le_of_eq (joined.worth_eq active fits listed competes another)) best

/-- A claim that is best in spite of a support for another is best without it. -/
theorem best?_before (fits : after.fits height = true) (another : hash ≠ support.claim)
    (best : after.best? height = some hash) : before.best? height = some hash := by
  refine best?_of_raised joined.claims.symm (joined.claims ▸ distinct) ?_ ?_ best
  · intro claim listed competes here
    exact UInt64.le_of_eq
      (joined.worth_eq active fits (joined.claims ▸ listed) competes (here ▸ another))
  · intro claim listed competes _
    exact joined.worth_le active fits (joined.claims ▸ listed) competes

/-- The claim of the support stays in control. -/
theorem controller?_decided (fits : (after.decided height).1.fits height = true)
    (controls : (before.decided height).1.controller? = some support.claim) :
    (after.decided height).1.controller? = some support.claim := by
  obtain ⟨fits, contestedFits⟩ := fits_of_fits_decided fits
  have previous : after.controller? = before.controller? := by
    rw [controller?, controller?, joined.takeover]
  by_cases uncontested : after.best? height = after.controller?
  · rw [decided, if_pos uncontested, previous]
    by_cases same : before.best? height = before.controller?
    · rw [decided, if_pos same] at controls
      exact controls
    · -- only the claim of the support can have become best with it
      cases best : after.best? height with
      | none =>
        have nobody := (best?_eq_none_iff after height).mp best
        rw [joined.claims] at nobody
        rw [(best?_eq_none_iff before height).mpr nobody, ← previous, ← uncontested, best] at same
        exact absurd rfl same
      | some hash =>
        rw [← previous, ← uncontested, best]
        by_contra another
        have bestBefore := joined.best?_before active distinct fits
          (fun here => another (congrArg some here)) best
        rw [bestBefore, ← previous, ← uncontested, best] at same
        exact same rfl
  · rw [controller?_decided_of_ne uncontested]
    by_cases same : before.best? height = before.controller?
    · rw [decided, if_pos same, ← same] at controls
      have best := joined.best?_eq active distinct fits controls
      rw [best, previous, ← same, controls] at uncontested
      exact absurd rfl uncontested
    · rw [controller?_decided_of_ne same] at controls
      refine (joined.admitted active).best?_eq active ?_ (contestedFits uncontested) controls
      exact List.pairwise_map.mpr distinct

end Joined

end Standing

namespace Ledger

variable {ledger : Ledger} {name : Bytes} {height : Height} {support : Support}

/-- What a support that counts does under its name. -/
structure Raised (support : Support) (ledger : Ledger) (name : Bytes) (height : Height) : Prop where
  /-- Its claim competes with that much more, and should show it, -/
  gains : ∀ claim ∈ ledger.claimsOf (ledger.entry name), claim.hash = support.claim →
    claim.term.isActiveAt height = true →
      ((ledger.addSupport support).effectiveAmount ((ledger.addSupport support).entry name) height
        claim).toNat =
          (ledger.effectiveAmount (ledger.entry name) height claim).toNat + support.amount.toNat
  /-- all other claims with what they did before, -/
  others : ∀ claim ∈ ledger.claimsOf (ledger.entry name), claim.hash ≠ support.claim →
    (ledger.addSupport support).effectiveAmount ((ledger.addSupport support).entry name) height
      claim = ledger.effectiveAmount (ledger.entry name) height claim
  /-- it stays best if it was, -/
  best : ledger.bestClaim? name height = some support.claim →
    (ledger.addSupport support).bestClaim? name height = some support.claim
  /-- and it controls the settled name if it would have controlled it anyway. -/
  controls : ((ledger.settle name height).1.takeover? name).map Takeover.claim =
      some support.claim →
    (((ledger.addSupport support).settle name height).1.takeover? name).map Takeover.claim =
      some support.claim

/-- No two claims that an entry lists are one. -/
theorem pairwise_standing_claims (keyed : ledger.Keyed) (name : Bytes) :
    (ledger.standing name).claims.Pairwise fun left right => left.hash ≠ right.hash := by
  rw [standing, claimsOf]
  refine List.Pairwise.filterMap _ (fun left right different => ?_)
    Std.ExtTreeSet.distinct_toList
  intro claim live other live' same
  apply different
  have here : claim.hash = left := keyed.claims live
  have there : other.hash = right := keyed.claims live'
  rw [← here, ← there, same]
  exact Std.ReflCmp.compare_self

theorem keyed_addSupport (keyed : ledger.Keyed) (support : Support) :
    (ledger.addSupport support).Keyed :=
  (keyed.putSupport rfl rfl).congr rfl rfl

theorem nodup_supports_of_keyed (keyed : ledger.Keyed) (name : Bytes) :
    (ledger.standing name).supports.Nodup :=
  (pairwise_standing_supports (fun live => keyed.supports live) name).imp
    fun apart same => apart (congrArg Support.outpoint same)

/-- Under its name a support in a new output is listed with those that were listed before. -/
theorem mem_supports_addSupport (unknown : ledger.supports[support.outpoint]? = none)
    {other : Support} :
    other ∈ ((ledger.addSupport support).standing support.name).supports ↔
      other = support ∨ other ∈ (ledger.standing support.name).supports := by
  rw [standing, entry_addSupport, if_pos rfl]
  simp only [standing, supportsOf, List.mem_filterMap, Std.ExtTreeSet.mem_toList,
    Std.ExtTreeSet.mem_insert, Std.compare_eq_iff_eq, getElem?_supports_addSupport]
  constructor
  · rintro ⟨outpoint, member, live⟩
    split at live
    · exact .inl (Option.some.inj live).symm
    · next elsewhere => exact .inr ⟨outpoint, member.resolve_left elsewhere, live⟩
  · rintro (rfl | ⟨outpoint, member, live⟩)
    · exact ⟨_, .inl rfl, if_pos rfl⟩
    · refine ⟨outpoint, .inr member, ?_⟩
      rw [if_neg, live]
      rintro rfl
      rw [unknown] at live
      cases live

/-- A support in a new output joins what is under its name. -/
theorem joined_addSupport (keyed : ledger.Keyed)
    (unknown : ledger.supports[support.outpoint]? = none) :
    Standing.Joined support (ledger.standing support.name)
      ((ledger.addSupport support).standing support.name) := by
  have new : support ∉ (ledger.standing support.name).supports := by
    intro listed
    obtain ⟨outpoint, -, live⟩ := List.mem_filterMap.mp listed
    have here : support.outpoint = outpoint := keyed.supports live
    rw [here, live] at unknown
    cases unknown
  refine ⟨?_, ?_, ?_⟩
  · rw [standing, entry_addSupport, if_pos rfl]
    rfl
  · refine (List.perm_ext_iff_of_nodup
      (nodup_supports_of_keyed (keyed_addSupport keyed support) support.name)
      (List.nodup_cons.mpr ⟨new, nodup_supports_of_keyed keyed support.name⟩)).mpr fun other => ?_
    rw [mem_supports_addSupport unknown, List.mem_cons]
  · rw [standing, entry_addSupport, if_pos rfl]
    rfl

/-- What is in control of a settled name is decided by its standing. -/
theorem controller_settle (keyed : ledger.Keyed) (name : Bytes) (height : Height) :
    ((ledger.settle name height).1.takeover? name).map Takeover.claim =
      ((ledger.standing name).decided height).1.controller? := by
  rw [takeover?_eq_standing, standing_settle_self keyed]
  rfl

/-- Where no sum wraps with it, a support that counts does what it should. -/
theorem raised_of_settlesExactly (keyed : ledger.Keyed) (named : support.name = name)
    (unknown : ledger.supports[support.outpoint]? = none)
    (active : support.term.isActiveAt height = true)
    (exactly : (ledger.addSupport support).SettlesExactly name height) :
    Raised support ledger name height := by
  subst named
  have joined := joined_addSupport keyed unknown
  have distinct := pairwise_standing_claims keyed support.name
  have fits := exact_iff.mp exactly.found
  have decided := exact_iff.mp exactly.decided
  rw [amountsFit_eq] at fits decided
  rw [standing_updateControl_self (keyed_addSupport keyed support)] at decided
  refine ⟨fun claim listed here competes => ?_, fun claim listed another => ?_,
    joined.best?_eq active distinct fits, fun controls => ?_⟩
  · have more := joined.toNat_worth active fits listed competes
    rw [if_pos here.symm] at more
    rw [effectiveAmount, effectiveAmount, if_pos competes, if_pos competes]
    exact more
  · rw [effectiveAmount, effectiveAmount]
    split
    · next competes => exact joined.worth_eq active fits listed competes another
    · rfl
  · rw [controller_settle keyed] at controls
    rw [controller_settle (keyed_addSupport keyed support)]
    exact joined.controller?_decided active distinct decided controls

end Ledger

end ClaimLedger
