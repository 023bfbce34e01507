/-
# When waiting ends

Settling a name either lets in everything that waits under it or leaves every term alone, and
which of the two is decided before anything is let in: it depends on whether the best competing
claim is the recorded controller. Letting in may well confirm that controller; the rows stay
let in all the same. The statements here say exactly what becomes of each row, first under one
name, then in the whole ledger after a block.
-/

import ClaimLedger.Proofs.Ledger.Replay

namespace ClaimLedger

namespace Term

variable {term : Term} {height : Height}

/-- What is let in competes from that height on. -/
theorem activateBy_of_isPendingAt (waits : term.isPendingAt height = true) :
    term.activateBy height = { term with activation := height } := by
  rw [activateBy, if_pos waits]

/-- What is expired neither waits nor counts. -/
theorem not_isPendingAt_of_isExpiredAt (expired : term.isExpiredAt height = true) :
    ¬ term.isPendingAt height = true := fun waits =>
  (term.active_or_pending_or_expired height).2.2.2 ⟨waits, expired⟩

theorem not_isActiveAt_of_isExpiredAt (expired : term.isExpiredAt height = true) :
    ¬ term.isActiveAt height = true := fun active =>
  (term.active_or_pending_or_expired height).2.2.1 ⟨active, expired⟩

/-- What has begun is never waiting. -/
theorem not_isPendingAt_of_le (begun : term.activation ≤ height) :
    ¬ term.isPendingAt height = true := by
  simp only [isPendingAt, Bool.and_eq_true, decide_eq_true_eq, not_and]
  exact fun waits => absurd waits (UInt32.not_lt.mpr begun)

/-- What neither counts nor waits is expired. -/
theorem isExpiredAt_of_not (inactive : ¬ term.isActiveAt height = true)
    (begun : ¬ term.isPendingAt height = true) : term.isExpiredAt height = true :=
  ((term.active_or_pending_or_expired height).1.resolve_left inactive).resolve_left begun

/-- What is expired stays expired. -/
theorem isExpiredAt_of_le {later : Height} (expired : term.isExpiredAt height = true)
    (past : height ≤ later) : term.isExpiredAt later = true := by
  simp only [isExpiredAt, decide_eq_true_eq] at expired ⊢
  exact UInt32.le_trans expired past

end Term

/-! ## Under one name -/

namespace Standing

variable (standing : Standing) (height : Height)

/-- The best competing claim, before anything is let in, is not the recorded controller. -/
def Contested : Prop :=
  standing.best? height ≠ standing.controller?

instance : Decidable (standing.Contested height) :=
  inferInstanceAs (Decidable (_ ≠ _))

/-- What settling makes of a term under the name. -/
def settledTerm (term : Term) : Term :=
  if standing.Contested height then term.activateBy height else term

/-- Settling gives every claim its settled term and brings its amount up to date. -/
theorem exists_claims_settled : ∃ effective : Claim → Amount,
    (standing.settled height).claims = standing.claims.map fun claim =>
      { claim with
        term := standing.settledTerm height claim.term
        effective := effective claim } := by
  have decided : (standing.decided height).1.claims = standing.claims.map fun claim =>
      { claim with term := standing.settledTerm height claim.term } := by
    unfold Standing.decided settledTerm Contested
    by_cases same : standing.best? height = standing.controller?
    · rw [if_pos same]
      simp [same]
    · rw [if_neg same]
      split <;> simp [same, admitted, Claim.admitted]
  refine ⟨fun claim => (standing.decided height).1.effective height
    { claim with term := standing.settledTerm height claim.term }, ?_⟩
  rw [settled, refreshed, decided, List.map_map]
  rfl

theorem supports_settled :
    (standing.settled height).supports = standing.supports.map fun support =>
      { support with term := standing.settledTerm height support.term } := by
  change (standing.decided height).1.supports = _
  unfold Standing.decided settledTerm Contested
  by_cases same : standing.best? height = standing.controller?
  · rw [if_pos same]
    simp [same]
  · rw [if_neg same]
    split <;> simp [same, admitted, Support.admitted]

variable {standing height}

theorem settledTerm_of_contested (contested : standing.Contested height) (term : Term) :
    standing.settledTerm height term = term.activateBy height :=
  if_pos contested

theorem settledTerm_of_not_contested (agreed : ¬ standing.Contested height) (term : Term) :
    standing.settledTerm height term = term :=
  if_neg agreed

/-- An expired term is never touched. -/
theorem settledTerm_of_isExpiredAt {term : Term} (expired : term.isExpiredAt height = true) :
    standing.settledTerm height term = term := by
  rw [settledTerm]
  split
  · exact Term.activateBy_of_not_isPendingAt (Term.not_isPendingAt_of_isExpiredAt expired)
  · rfl

/-- Settling never changes how long something counts. -/
theorem settledTerm_eq (term : Term) : standing.settledTerm height term =
    { term with activation := (standing.settledTerm height term).activation } := by
  rw [settledTerm, Term.activateBy]
  split
  · split <;> rfl
  · rfl

/-- Without a contest the record of control stays as it is. -/
theorem takeover_settled_of_not_contested (agreed : ¬ standing.Contested height) :
    (standing.settled height).takeover = standing.takeover := by
  change (standing.decided height).1.takeover = standing.takeover
  rw [decided, if_pos (not_not.mp agreed)]

end Standing

/-! ## In the ledger after a block -/

namespace Ledger.Taken

variable {height : Height} {used : List OutPoint} {before after : Ledger} {work : BlockWork}

/-- Every claim that the phases of a block leave gets its settled term. -/
theorem getElem?_claims (taken : Taken height used before work after) (sound : before.Sound)
    (hash : ClaimHash) : ∃ effective,
      after.claims[hash]? = work.ledger.claims[hash]?.map fun claim =>
        { claim with
          term := (work.ledger.standing claim.name).settledTerm height claim.term, effective } := by
  have live := (taken.sound sound).indexed
  cases phases : work.ledger.claims[hash]? with
  | some claim =>
    obtain ⟨isHash, listed⟩ := (getElem?_claims_eq_some_iff taken.reached.indexed).mp phases
    obtain ⟨effective, settled⟩ :=
      (work.ledger.standing claim.name).exists_claims_settled height
    refine ⟨effective claim, (getElem?_claims_eq_some_iff live).mpr ⟨isHash, ?_⟩⟩
    rw [taken.standing_eq sound, settled]
    exact List.mem_map_of_mem listed
  | none =>
    refine ⟨0, Option.eq_none_iff_forall_ne_some.mpr fun claim found => ?_⟩
    obtain ⟨old, there, -⟩ := taken.claim_before sound found
    rw [phases] at there
    cases there

/-- Every support that the phases of a block leave gets its settled term. -/
theorem getElem?_supports (taken : Taken height used before work after) (sound : before.Sound)
    (outpoint : OutPoint) :
      after.supports[outpoint]? = work.ledger.supports[outpoint]?.map fun support =>
        { support with
          term := (work.ledger.standing support.name).settledTerm height support.term } := by
  have live := (taken.sound sound).indexed
  cases phases : work.ledger.supports[outpoint]? with
  | some support =>
    obtain ⟨isOutpoint, listed⟩ :=
      (getElem?_supports_eq_some_iff taken.reached.indexed).mp phases
    refine (getElem?_supports_eq_some_iff live).mpr ⟨isOutpoint, ?_⟩
    rw [taken.standing_eq sound, Standing.supports_settled]
    exact List.mem_map_of_mem listed
  | none =>
    refine Option.eq_none_iff_forall_ne_some.mpr fun support found => ?_
    obtain ⟨old, there, -⟩ := taken.support_before sound found
    rw [phases] at there
    cases there

end Ledger.Taken

end ClaimLedger
