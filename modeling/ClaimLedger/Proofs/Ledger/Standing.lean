/-
# The standing of a name

Settling a name reads the claims and the supports under that name and its last
change of control, and nothing else. `Standing` holds exactly these three, and
the functions here say what settling makes of them without any map or index.
`Settled` is what a name has to satisfy after a block, and the main statement
is that settling makes a name settled and leaves a settled name alone.
-/

import Mathlib.Algebra.GroupWithZero.Nat
import Mathlib.Data.List.Basic
import ClaimLedger.Ledger.Settle

namespace ClaimLedger

/-! ## The best element of a list -/

section LeastBy

variable {α β : Type} {order : α → α → Ordering}

theorem leastBy?_eq_none_iff {list : List α} : leastBy? order list = none ↔ list = [] := by
  cases list with
  | nil => simp [leastBy?]
  | cons first rest =>
    simp only [leastBy?, reduceCtorEq, iff_false]
    split
    · simp
    · split <;> simp

/-- Nothing in a list comes before its least element. -/
theorem leastBy?_eq_some [Std.TransCmp order] {list : List α} {best : α}
    (found : leastBy? order list = some best) :
    best ∈ list ∧ ∀ other ∈ list, order other best ≠ .lt := by
  have notBeforeItself (a : α) : order a a ≠ .lt := by
    intro before
    exact Std.OrientedCmp.not_lt_of_lt before before
  induction list generalizing best with
  | nil => cases found
  | cons first rest ih =>
    rw [leastBy?] at found
    cases least : leastBy? order rest with
    | none =>
      rw [least, Option.some.injEq] at found
      rw [leastBy?_eq_none_iff.mp least, ← found]
      refine ⟨List.mem_singleton_self _, fun other member => ?_⟩
      rw [List.mem_singleton.mp member]
      exact notBeforeItself first
    | some smallest =>
      obtain ⟨member, below⟩ := ih least
      rw [least] at found
      simp only at found
      split at found
      · next before =>
        rw [Option.some.injEq] at found
        subst found
        refine ⟨List.mem_cons_of_mem _ member, fun other place => ?_⟩
        rcases List.mem_cons.mp place with rfl | place
        · exact Std.OrientedCmp.not_lt_of_lt before
        · exact below other place
      · next notBefore =>
        rw [Option.some.injEq] at found
        subst found
        refine ⟨List.mem_cons_self, fun other place => ?_⟩
        rcases List.mem_cons.mp place with rfl | place
        · exact notBeforeItself other
        · intro before
          -- `smallest` would come before `first`, through `other`
          refine below other place (Std.TransCmp.lt_of_lt_of_isLE before ?_)
          rw [← Std.OrientedCmp.isGE_iff_isLE]
          exact Ordering.isGE_iff_ne_lt.mpr notBefore

/-- The least element is chosen by the order alone, so a map that keeps the
order keeps the choice. -/
theorem leastBy?_map {order' : β → β → Ordering} {f : α → β}
    (keeps : ∀ a b, order' (f a) (f b) = order a b) (list : List α) :
    leastBy? order' (list.map f) = (leastBy? order list).map f := by
  induction list with
  | nil => rfl
  | cons first rest ih =>
    rw [List.map_cons, leastBy?, leastBy?, ih]
    cases leastBy? order rest with
    | none => rfl
    | some best =>
      simp only [Option.map_some, keeps]
      split <;> rfl

end LeastBy

instance : Std.TransCmp Claim.compareAge :=
  inferInstanceAs (Std.TransCmp (compareLex (compareOn Claim.created) (compareOn Claim.position)))

instance : Std.TransCmp Claim.compareRank :=
  have : Std.TransCmp fun a b : Claim × Amount => compare b.2 a.2 :=
    inferInstanceAs (Std.TransCmp fun a b => compareOn Prod.snd b a)
  have : Std.TransCmp fun a b : Claim × Amount => Claim.compareAge a.1 b.1 :=
    { eq_swap := Std.OrientedCmp.eq_swap, isLE_trans := Std.TransCmp.isLE_trans }
  inferInstanceAs (Std.TransCmp (compareLex _ _))

/-! ## Exact amounts -/

namespace Amount

theorem exactTotal_eq_sum (amounts : List Amount) :
    exactTotal amounts = (amounts.map UInt64.toNat).sum := by
  induction amounts with
  | nil => rfl
  | cons amount more ih => rw [List.map_cons, List.sum_cons, ← ih, exactTotal, List.foldr_cons]; rfl

/-- As long as the exact sum fits into a word, the word holds it. -/
theorem toNat_total {amounts : List Amount} (fits : exactTotal amounts < bound) :
    (total amounts).toNat = exactTotal amounts := by
  induction amounts with
  | nil => rfl
  | cons amount more ih =>
    have exact_cons : exactTotal (amount :: more) = amount.toNat + exactTotal more := rfl
    have total_cons : total (amount :: more) = amount + total more := rfl
    rw [exact_cons] at fits ⊢
    rw [total_cons, UInt64.toNat_add, ih (by omega)]
    exact Nat.mod_eq_of_lt fits

end Amount

/-! ## The standing of a name -/

/-- Let a waiting claim compete from this height on. -/
def Claim.admitted (height : Height) (claim : Claim) : Claim :=
  { claim with term := claim.term.activateBy height }

/-- The claim without the amount that it shows. -/
def Claim.bare (claim : Claim) : Claim :=
  { claim with effective := 0 }

/-- Let a waiting support count from this height on. -/
def Support.admitted (height : Height) (support : Support) : Support :=
  { support with term := support.term.activateBy height }

/-- What settling a name reads: the claims and the supports under it, and its
last change of control. -/
@[ext] structure Standing where
  claims : List Claim := []
  supports : List Support := []
  takeover : Option Takeover := none

namespace Standing

variable (standing : Standing) (height : Height)

/-- The amounts of the counting supports of a claim. -/
def backing (hash : ClaimHash) : List Amount :=
  (standing.supports.filter fun support =>
    support.claim == hash && support.term.isActiveAt height).map Support.amount

/-- The amount a claim competes with. -/
def worth (claim : Claim) : Amount :=
  claim.amount + Amount.total (standing.backing height claim.hash)

/-- The competing claims, each with the amount it competes with. -/
def competitors : List (Claim × Amount) :=
  (standing.claims.filter fun claim => claim.term.isActiveAt height).map fun claim =>
    (claim, standing.worth height claim)

/-- The best competing claim. -/
def best? : Option ClaimHash :=
  (leastBy? Claim.compareRank (standing.competitors height)).map fun best => best.1.hash

/-- The recorded controller. -/
def controller? : Option ClaimHash :=
  standing.takeover.map Takeover.claim

/-- The amount a claim should show. -/
def effective (claim : Claim) : Amount :=
  if claim.term.isActiveAt height then standing.worth height claim else 0

/-- Whether every sum that settling takes fits into a word. -/
def fits : Bool :=
  let backed := standing.supports.filter fun support => support.term.isActiveAt height
  let competing := standing.claims.filter fun claim => claim.term.isActiveAt height
  let total (claim : ClaimHash) : Nat :=
    Amount.exactTotal ((backed.filter fun support => support.claim == claim).map Support.amount)
  ((backed.map Support.claim).eraseDups.all fun claim => total claim < Amount.bound) &&
    competing.all fun claim => claim.amount.toNat + total claim.hash < Amount.bound

/-- The heights at which something starts or stops counting. -/
def dates : List Height :=
  (standing.claims.map Claim.term ++ standing.supports.map Support.term).flatMap
    fun term => [term.activation, term.expiration]

/-- Everything that waits is let in. -/
def admitted : Standing :=
  { standing with
    claims := standing.claims.map (Claim.admitted height)
    supports := standing.supports.map (Support.admitted height) }

/-- Control brought up to date, and the new controller if it changed. -/
def decided : Standing × Option (Option ClaimHash) :=
  if standing.best? height = standing.controller? then (standing, none)
  else if (standing.admitted height).best? height = standing.controller? then
    (standing.admitted height, none)
  else
    ({ standing.admitted height with
        takeover := ((standing.admitted height).best? height).map fun claim => ⟨claim, height⟩ },
      some ((standing.admitted height).best? height))

/-- The claim with the amount it should show. -/
def refreshedClaim (claim : Claim) : Claim :=
  { claim with effective := standing.effective height claim }

/-- Effective amounts brought up to date. -/
def refreshed : Standing :=
  { standing with claims := standing.claims.map (standing.refreshedClaim height) }

/-- The standing after the name was settled. -/
def settled : Standing :=
  (standing.decided height).1.refreshed height

/-- What holds of a name after a block: the best competing claim controls it,
every claim shows the amount it should show, no sum left its word, and nothing
competes before it was created. -/
structure Settled (standing : Standing) (height : Height) : Prop where
  control : standing.best? height = standing.controller?
  effective : ∀ claim ∈ standing.claims, claim.effective = standing.effective height claim
  fits : standing.fits height = true
  early : ∀ claim ∈ standing.claims, claim.created ≤ claim.term.activation

/-- Without a competing claim nobody is best. -/
theorem best?_eq_none_iff :
    standing.best? height = none ↔
      ∀ claim ∈ standing.claims, ¬ claim.term.isActiveAt height = true := by
  rw [best?, Option.map_eq_none_iff, leastBy?_eq_none_iff, competitors, List.map_eq_nil_iff,
    List.filter_eq_nil_iff]

/-- The best claim competes, and no competing claim outranks it. -/
theorem best?_eq_some {hash : ClaimHash} (found : standing.best? height = some hash) :
    ∃ claim ∈ standing.claims, claim.hash = hash ∧ claim.term.isActiveAt height = true ∧
      ∀ other ∈ standing.claims, other.term.isActiveAt height = true →
        Claim.compareRank (other, standing.worth height other)
          (claim, standing.worth height claim) ≠ .lt := by
  obtain ⟨best, least, isHash⟩ := Option.map_eq_some_iff.mp found
  obtain ⟨member, below⟩ := leastBy?_eq_some least
  obtain ⟨claim, competes, rfl⟩ := List.mem_map.mp member
  obtain ⟨live, active⟩ := List.mem_filter.mp competes
  refine ⟨claim, live, isHash, active, fun other listed activeOther => ?_⟩
  exact below _ (List.mem_map_of_mem (List.mem_filter.mpr ⟨listed, activeOther⟩))

/-- Where all sums fit, what a claim competes with is exact. -/
theorem toNat_worth {standing : Standing} {height : Height} {claim : Claim}
    (fits : standing.fits height = true) (member : claim ∈ standing.claims)
    (active : claim.term.isActiveAt height = true) :
    (standing.worth height claim).toNat =
      claim.amount.toNat + Amount.exactTotal (standing.backing height claim.hash) := by
  unfold Standing.fits at fits
  simp only [Bool.and_eq_true, List.all_eq_true, List.filter_filter, decide_eq_true_eq] at fits
  have small := fits.2 claim (List.mem_filter.mpr ⟨member, active⟩)
  change claim.amount.toNat + Amount.exactTotal (standing.backing height claim.hash) <
    Amount.bound at small
  rw [Standing.worth, UInt64.toNat_add, Amount.toNat_total (by omega)]
  exact Nat.mod_eq_of_lt small

/-! ## Settling settles -/

/-- Who is best is decided by the claims without the amounts that they show, and
by the supports. -/
theorem best?_congr {other : Standing}
    (claims : other.claims.map Claim.bare = standing.claims.map Claim.bare)
    (supports : other.supports = standing.supports) :
    other.best? height = standing.best? height := by
  have bare (standing : Standing) :
      ({ standing with claims := standing.claims.map Claim.bare } : Standing).best? height =
        standing.best? height := by
    have same : ({ standing with claims := standing.claims.map Claim.bare } :
        Standing).competitors height =
          (standing.competitors height).map fun entrant => (entrant.1.bare, entrant.2) := by
      simp only [competitors, List.filter_map, List.map_map]
      rfl
    rw [best?]
    rw [same, leastBy?_map fun _ _ => by rfl, Option.map_map]
    rfl
  rw [← bare standing, ← bare other, claims, supports]
  rfl

@[simp] theorem best?_refreshed (earlier : Height) :
    (standing.refreshed earlier).best? height = standing.best? height := by
  refine best?_congr standing height ?_ rfl
  rw [refreshed, List.map_map]
  rfl

/-- After control was brought up to date the best competing claim is the
recorded controller. -/
theorem best?_decided :
    (standing.decided height).1.best? height = (standing.decided height).1.controller? := by
  rw [decided]
  split
  · next same => exact same
  · split
    · next same => exact same
    · have controller (best : Option ClaimHash) :
          (best.map fun claim => (⟨claim, height⟩ : Takeover)).map Takeover.claim = best := by
        cases best <;> rfl
      exact (controller _).symm

theorem settled_settled (fits : (standing.settled height).fits height = true)
    (early : ∀ claim ∈ (standing.settled height).claims,
      claim.created ≤ claim.term.activation) :
    (standing.settled height).Settled height where
  control := by
    rw [settled, best?_refreshed]
    exact standing.best?_decided height
  effective := by
    intro claim member
    obtain ⟨before, _, rfl⟩ := List.mem_map.mp member
    rfl
  fits := fits
  early := early

/-- Settling brings control and amounts up to date, and may let rows in; it
neither adds nor removes a claim. -/
theorem mem_claims_settled {claim : Claim} (member : claim ∈ (standing.settled height).claims) :
    ∃ old ∈ standing.claims, ∃ term effective, claim = { old with term, effective } := by
  obtain ⟨decided, listed, rfl⟩ := List.mem_map.mp member
  have old : ∃ old ∈ standing.claims, ∃ term, decided = { old with term } := by
    unfold Standing.decided at listed
    split at listed
    · exact ⟨decided, listed, _, rfl⟩
    · split at listed <;>
      · obtain ⟨old, before, rfl⟩ := List.mem_map.mp listed
        exact ⟨old, before, _, rfl⟩
  obtain ⟨old, before, _, rfl⟩ := old
  exact ⟨old, before, _, _, rfl⟩

/-- Settling neither adds nor removes a support. -/
theorem mem_supports_settled {support : Support}
    (member : support ∈ (standing.settled height).supports) :
    ∃ old ∈ standing.supports, ∃ term, support = { old with term } := by
  change support ∈ (standing.decided height).1.supports at member
  unfold Standing.decided at member
  split at member
  · exact ⟨support, member, _, rfl⟩
  · split at member <;>
    · obtain ⟨old, before, rfl⟩ := List.mem_map.mp member
      exact ⟨old, before, _, rfl⟩

/-- Where settling changes the record of control it records another controller,
with the height of the change. -/
theorem takeover_settled :
    (standing.settled height).takeover = standing.takeover ∨
      (standing.settled height).controller? ≠ standing.controller? ∧
        ∀ takeover, (standing.settled height).takeover = some takeover →
          takeover.height = height := by
  change (standing.decided height).1.takeover = standing.takeover ∨
    (standing.decided height).1.takeover.map Takeover.claim ≠ standing.controller? ∧
      ∀ takeover, (standing.decided height).1.takeover = some takeover → takeover.height = height
  rw [Standing.decided]
  split
  · exact .inl rfl
  · split
    · exact .inl rfl
    · next different =>
      right
      cases best : (standing.admitted height).best? height with
      | none =>
        rw [best] at different
        exact ⟨different, by rintro _ ⟨⟩⟩
      | some claim =>
        rw [best] at different
        refine ⟨different, ?_⟩
        rintro _ ⟨⟩
        rfl

theorem settled_empty : ({} : Standing).Settled height where
  control := rfl
  effective := by simp
  fits := rfl
  early := by simp

namespace Settled

variable {standing : Standing} {height : Height}

/-! ## A settled name is left alone -/

theorem decided_eq (settled : standing.Settled height) :
    standing.decided height = (standing, none) := by
  rw [decided]
  rw [if_pos settled.control]

theorem refreshedClaim_eq (settled : standing.Settled height) {claim : Claim}
    (member : claim ∈ standing.claims) : standing.refreshedClaim height claim = claim := by
  rw [refreshedClaim]
  rw [← settled.effective claim member]

theorem refreshed_eq (settled : standing.Settled height) :
    standing.refreshed height = standing := by
  have same : standing.claims.map (standing.refreshedClaim height) = standing.claims :=
    (List.map_congr_left fun _ member => settled.refreshedClaim_eq member).trans
      (List.map_id _)
  rw [refreshed]
  rw [same]

theorem settled_eq (settled : standing.Settled height) : standing.settled height = standing := by
  rw [Standing.settled, settled.decided_eq, settled.refreshed_eq]

end Settled

/-! ## The passing of time

Nothing changes at a height at which nothing starts or stops counting. -/

/-- What counts under the name at one height is what counts at another. -/
structure Steady (standing : Standing) (earlier later : Height) : Prop where
  claims : ∀ claim ∈ standing.claims,
    claim.term.isActiveAt later = claim.term.isActiveAt earlier
  supports : ∀ support ∈ standing.supports,
    support.term.isActiveAt later = support.term.isActiveAt earlier

theorem mem_dates {date : Height} :
    date ∈ standing.dates ↔
      (∃ claim ∈ standing.claims,
        date = claim.term.activation ∨ date = claim.term.expiration) ∨
      ∃ support ∈ standing.supports,
        date = support.term.activation ∨ date = support.term.expiration := by
  simp only [dates, List.mem_flatMap, List.mem_append, List.mem_map, List.mem_cons,
    List.not_mem_nil, or_false]
  constructor
  · rintro ⟨_, ⟨claim, member, rfl⟩ | ⟨support, member, rfl⟩, date⟩
    · exact .inl ⟨claim, member, date⟩
    · exact .inr ⟨support, member, date⟩
  · rintro (⟨claim, member, date⟩ | ⟨support, member, date⟩)
    · exact ⟨_, .inl ⟨claim, member, rfl⟩, date⟩
    · exact ⟨_, .inr ⟨support, member, rfl⟩, date⟩

/-- From one height to the next only the dates at the next height matter. -/
theorem isActiveAt_succ {term : Term} {earlier later : Height}
    (succ : later.toNat = earlier.toNat + 1) (starts : term.activation ≠ later)
    (stops : term.expiration ≠ later) : term.isActiveAt later = term.isActiveAt earlier := by
  rw [Ne, ← UInt32.toNat_inj] at starts stops
  simp only [Term.isActiveAt, UInt32.le_iff_toNat_le, UInt32.lt_iff_toNat_lt, succ] at *
  rw [Bool.eq_iff_iff]
  simp only [Bool.and_eq_true, decide_eq_true_eq]
  omega

theorem steady_succ {earlier later : Height} (succ : later.toNat = earlier.toNat + 1)
    (quiet : later ∉ standing.dates) : standing.Steady earlier later where
  claims := by
    intro claim member
    apply isActiveAt_succ succ
    · intro starts
      exact quiet (standing.mem_dates.mpr (.inl ⟨claim, member, .inl starts.symm⟩))
    · intro stops
      exact quiet (standing.mem_dates.mpr (.inl ⟨claim, member, .inr stops.symm⟩))
  supports := by
    intro support member
    apply isActiveAt_succ succ
    · intro starts
      exact quiet (standing.mem_dates.mpr (.inr ⟨support, member, .inl starts.symm⟩))
    · intro stops
      exact quiet (standing.mem_dates.mpr (.inr ⟨support, member, .inr stops.symm⟩))

namespace Steady

variable {standing : Standing} {earlier later : Height}

theorem competing_eq (steady : standing.Steady earlier later) :
    standing.claims.filter (fun claim => claim.term.isActiveAt later) =
      standing.claims.filter fun claim => claim.term.isActiveAt earlier :=
  List.filter_congr steady.claims

theorem backed_eq (steady : standing.Steady earlier later) :
    standing.supports.filter (fun support => support.term.isActiveAt later) =
      standing.supports.filter fun support => support.term.isActiveAt earlier :=
  List.filter_congr steady.supports

theorem backing_eq (steady : standing.Steady earlier later) (hash : ClaimHash) :
    standing.backing later hash = standing.backing earlier hash := by
  unfold backing
  rw [List.filter_congr fun support member => by rw [steady.supports support member]]

theorem worth_eq (steady : standing.Steady earlier later) (claim : Claim) :
    standing.worth later claim = standing.worth earlier claim := by
  rw [worth, worth, steady.backing_eq]

theorem best?_eq (steady : standing.Steady earlier later) :
    standing.best? later = standing.best? earlier := by
  unfold best? competitors
  rw [steady.competing_eq]
  simp only [steady.worth_eq]

theorem effective_eq (steady : standing.Steady earlier later) {claim : Claim}
    (member : claim ∈ standing.claims) :
    standing.effective later claim = standing.effective earlier claim := by
  unfold effective
  rw [steady.claims claim member, steady.worth_eq]

theorem fits_eq (steady : standing.Steady earlier later) :
    standing.fits later = standing.fits earlier := by
  unfold fits
  rw [steady.competing_eq, steady.backed_eq]

/-- A settled name stays settled while nothing under it starts or stops
counting. -/
theorem settled (steady : standing.Steady earlier later)
    (before : standing.Settled earlier) : standing.Settled later where
  control := steady.best?_eq.trans before.control
  effective := fun claim member =>
    (before.effective claim member).trans (steady.effective_eq member).symm
  fits := steady.fits_eq.trans before.fits
  early := before.early

end Steady

end Standing

end ClaimLedger
