/-
# Indexes that follow the rows

A ledger repeats parts of its rows in indexes: the rows of each name, and the
claim that an output holds. `Indexed` says that both follow from the rows. It is
what lets a reader of one name be sure to see every row of that name, and it is
what keeps the rows of different names apart.

`Rewrites` relates two ledgers that differ in the contents of their rows only.
Settling a name is such a rewriting, so that everything `Indexed` says survives
it at once.
-/

import ClaimLedger.Ledger.Lemmas
import ClaimLedger.Proofs.Ledger.Standing

namespace ClaimLedger

namespace Ledger

/-- What settling a name reads of a ledger. -/
def standing (ledger : Ledger) (name : Bytes) : Standing where
  claims := ledger.claimsOf (ledger.entry name)
  supports := ledger.supportsOf (ledger.entry name)
  takeover := (ledger.entry name).takeover

/-- The indexes of a ledger follow from its rows. -/
structure Indexed (ledger : Ledger) : Prop where
  claim_hash : ∀ {hash : ClaimHash} {claim : Claim},
    ledger.claims[hash]? = some claim → claim.hash = hash
  support_outpoint : ∀ {outpoint : OutPoint} {support : Support},
    ledger.supports[outpoint]? = some support → support.outpoint = outpoint
  mem_claims : ∀ {name : Bytes} {hash : ClaimHash}, hash ∈ (ledger.entry name).claims ↔
    ∃ claim, ledger.claims[hash]? = some claim ∧ claim.name = name
  mem_supports : ∀ {name : Bytes} {outpoint : OutPoint}, outpoint ∈ (ledger.entry name).supports ↔
    ∃ support, ledger.supports[outpoint]? = some support ∧ support.name = name
  holdings : ∀ {outpoint : OutPoint} {hash : ClaimHash}, ledger.holdings[outpoint]? = some hash ↔
    ∃ claim, ledger.claims[hash]? = some claim ∧ claim.outpoint = outpoint

/-- Without rows there is nothing to index. -/
theorem indexed_empty (rules : Rules) : (empty rules).Indexed where
  claim_hash := by simp [empty]
  support_outpoint := by simp [empty]
  mem_claims := by simp [empty, entry]
  mem_supports := by simp [empty, entry]
  holdings := by simp [empty]

section Standing

variable {ledger : Ledger} {name : Bytes}

theorem mem_standing_claims (indexed : ledger.Indexed) {claim : Claim} :
    claim ∈ (ledger.standing name).claims ↔
      ledger.claims[claim.hash]? = some claim ∧ claim.name = name := by
  simp only [standing, claimsOf, List.mem_filterMap, Std.ExtTreeSet.mem_toList]
  constructor
  · rintro ⟨hash, member, found⟩
    obtain ⟨row, live, named⟩ := indexed.mem_claims.mp member
    rw [found, Option.some.injEq] at live
    subst live
    rw [indexed.claim_hash found]
    exact ⟨found, named⟩
  · rintro ⟨live, named⟩
    exact ⟨claim.hash, indexed.mem_claims.mpr ⟨claim, live, named⟩, live⟩

theorem mem_standing_supports (indexed : ledger.Indexed) {support : Support} :
    support ∈ (ledger.standing name).supports ↔
      ledger.supports[support.outpoint]? = some support ∧ support.name = name := by
  simp only [standing, supportsOf, List.mem_filterMap, Std.ExtTreeSet.mem_toList]
  constructor
  · rintro ⟨outpoint, member, found⟩
    obtain ⟨row, live, named⟩ := indexed.mem_supports.mp member
    rw [found, Option.some.injEq] at live
    subst live
    rw [indexed.support_outpoint found]
    exact ⟨found, named⟩
  · rintro ⟨live, named⟩
    exact ⟨support.outpoint, indexed.mem_supports.mpr ⟨support, live, named⟩, live⟩

/-- No output is among the supports under a name twice, as long as every support
is kept under its own output. -/
theorem pairwise_standing_supports
    (keyed : ∀ {outpoint : OutPoint} {support : Support},
      ledger.supports[outpoint]? = some support → support.outpoint = outpoint)
    (name : Bytes) :
    (ledger.standing name).supports.Pairwise fun a b => a.outpoint ≠ b.outpoint := by
  rw [standing, supportsOf]
  refine List.Pairwise.filterMap _ (fun left right different => ?_)
    Std.ExtTreeSet.distinct_toList
  intro support live other live' same
  apply different
  rw [← keyed live, ← keyed live', same]
  exact Std.ReflCmp.compare_self

/-- The standing of a name depends on its entry and on the rows that the entry
lists. -/
theorem standing_congr {after : Ledger} (entry : after.entry name = ledger.entry name)
    (claims : ∀ hash ∈ (ledger.entry name).claims, after.claims[hash]? = ledger.claims[hash]?)
    (supports : ∀ outpoint ∈ (ledger.entry name).supports,
      after.supports[outpoint]? = ledger.supports[outpoint]?) :
    after.standing name = ledger.standing name := by
  unfold standing claimsOf supportsOf
  rw [entry, List.filterMap_congr fun hash member =>
      claims hash (Std.ExtTreeSet.mem_toList.mp member),
    List.filterMap_congr fun outpoint member =>
      supports outpoint (Std.ExtTreeSet.mem_toList.mp member)]

theorem getElem?_claims_eq_some_iff (indexed : ledger.Indexed) {hash : ClaimHash}
    {claim : Claim} :
    ledger.claims[hash]? = some claim ↔
      claim.hash = hash ∧ claim ∈ (ledger.standing claim.name).claims := by
  rw [mem_standing_claims indexed]
  constructor
  · intro live
    have key := indexed.claim_hash live
    exact ⟨key, key.symm ▸ live, rfl⟩
  · rintro ⟨rfl, live, _⟩
    exact live

theorem getElem?_supports_eq_some_iff (indexed : ledger.Indexed) {outpoint : OutPoint}
    {support : Support} :
    ledger.supports[outpoint]? = some support ↔
      support.outpoint = outpoint ∧ support ∈ (ledger.standing support.name).supports := by
  rw [mem_standing_supports indexed]
  constructor
  · intro live
    have key := indexed.support_outpoint live
    exact ⟨key, key.symm ▸ live, rfl⟩
  · rintro ⟨rfl, live, _⟩
    exact live

/-- The rows of a ledger can be read off the standings of its names. -/
theorem claims_eq_of_standing {other : Ledger} (indexed : ledger.Indexed)
    (indexed' : other.Indexed) (same : ∀ name, other.standing name = ledger.standing name) :
    other.claims = ledger.claims := by
  apply Std.ExtTreeMap.ext_getElem?
  intro hash
  rw [Option.ext_iff]
  intro claim
  rw [getElem?_claims_eq_some_iff indexed, getElem?_claims_eq_some_iff indexed', same]

theorem supports_eq_of_standing {other : Ledger} (indexed : ledger.Indexed)
    (indexed' : other.Indexed) (same : ∀ name, other.standing name = ledger.standing name) :
    other.supports = ledger.supports := by
  apply Std.ExtTreeMap.ext_getElem?
  intro outpoint
  rw [Option.ext_iff]
  intro support
  rw [getElem?_supports_eq_some_iff indexed, getElem?_supports_eq_some_iff indexed', same]

/-- Where the indexes follow from the rows, the rows under a name make its
standing. -/
theorem standing_eq_of_live {other : Ledger} (indexed : ledger.Indexed)
    (indexed' : other.Indexed)
    (claims : ∀ {hash : ClaimHash} {claim : Claim}, claim.name = name →
      (other.claims[hash]? = some claim ↔ ledger.claims[hash]? = some claim))
    (supports : ∀ {outpoint : OutPoint} {support : Support}, support.name = name →
      (other.supports[outpoint]? = some support ↔ ledger.supports[outpoint]? = some support))
    (takeover : other.takeover? name = ledger.takeover? name) :
    other.standing name = ledger.standing name := by
  have sameClaims : (other.entry name).claims = (ledger.entry name).claims := by
    apply Std.ExtTreeSet.ext_mem
    intro hash
    rw [indexed.mem_claims, indexed'.mem_claims]
    exact exists_congr fun claim => and_congr_left claims
  have sameSupports : (other.entry name).supports = (ledger.entry name).supports := by
    apply Std.ExtTreeSet.ext_mem
    intro outpoint
    rw [indexed.mem_supports, indexed'.mem_supports]
    exact exists_congr fun support => and_congr_left supports
  rw [takeover?_eq_entry, takeover?_eq_entry] at takeover
  have entry : other.entry name = ledger.entry name := by
    generalize other.entry name = entry' at sameClaims sameSupports takeover ⊢
    cases entry'
    cases sameClaims
    cases sameSupports
    cases takeover
    rfl
  apply standing_congr entry
  · intro hash listed
    obtain ⟨claim, live, named⟩ := indexed.mem_claims.mp listed
    rw [live, (claims named).mpr live]
  · intro outpoint listed
    obtain ⟨support, live, named⟩ := indexed.mem_supports.mp listed
    rw [live, (supports named).mpr live]

/-- Equal rows make equal standings. -/
theorem standing_eq_of_rows {other : Ledger} (indexed : ledger.Indexed)
    (indexed' : other.Indexed) (claims : other.claims = ledger.claims)
    (supports : other.supports = ledger.supports)
    (takeover : other.takeover? name = ledger.takeover? name) :
    other.standing name = ledger.standing name :=
  standing_eq_of_live indexed indexed' (fun _ => by rw [claims]) (fun _ => by rw [supports])
    takeover

end Standing

/-! ## Rewriting rows in place -/

/-- Every row got new contents, and apart from the marks of changed rows
nothing else changed. -/
structure Rewrites (f : Claim → Claim) (g : Support → Support) (before after : Ledger) : Prop where
  claims : ∀ hash : ClaimHash, after.claims[hash]? = before.claims[hash]?.map f
  supports : ∀ outpoint : OutPoint, after.supports[outpoint]? = before.supports[outpoint]?.map g
  rest : ∃ claims supports dirty, after = { before with claims, supports, dirty }

namespace Rewrites

variable {f f' : Claim → Claim} {g g' : Support → Support} {before after : Ledger}

theorem names_eq (rewrites : Rewrites f g before after) : after.names = before.names := by
  obtain ⟨_, _, _, rfl⟩ := rewrites.rest
  rfl

theorem holdings_eq (rewrites : Rewrites f g before after) :
    after.holdings = before.holdings := by
  obtain ⟨_, _, _, rfl⟩ := rewrites.rest
  rfl

theorem entry_eq (rewrites : Rewrites f g before after) (name : Bytes) :
    after.entry name = before.entry name := by
  unfold entry
  rw [rewrites.names_eq]

/-- Rewriting keeps the indexes right as long as it leaves alone what they
speak of: the identity, the name and the output of a row. -/
theorem indexed (rewrites : Rewrites f g before after) (indexed : before.Indexed)
    (claim : ∀ claim, (f claim).hash = claim.hash ∧ (f claim).name = claim.name ∧
      (f claim).outpoint = claim.outpoint)
    (support : ∀ support, (g support).outpoint = support.outpoint ∧
      (g support).name = support.name) : after.Indexed where
  claim_hash := by
    intro hash row live
    rw [rewrites.claims, Option.map_eq_some_iff] at live
    obtain ⟨old, live, rfl⟩ := live
    rw [(claim old).1, indexed.claim_hash live]
  support_outpoint := by
    intro outpoint row live
    rw [rewrites.supports, Option.map_eq_some_iff] at live
    obtain ⟨old, live, rfl⟩ := live
    rw [(support old).1, indexed.support_outpoint live]
  mem_claims := by
    intro name hash
    rw [rewrites.entry_eq, indexed.mem_claims, rewrites.claims]
    simp [claim]
  mem_supports := by
    intro name outpoint
    rw [rewrites.entry_eq, indexed.mem_supports, rewrites.supports]
    simp [support]
  holdings := by
    intro outpoint hash
    rw [rewrites.holdings_eq, indexed.holdings, rewrites.claims]
    simp [claim]

theorem standing_eq (rewrites : Rewrites f g before after) (name : Bytes) :
    after.standing name =
      { claims := (before.standing name).claims.map f
        supports := (before.standing name).supports.map g
        takeover := (before.standing name).takeover } := by
  unfold standing claimsOf supportsOf
  simp only [rewrites.entry_eq, rewrites.claims, rewrites.supports, List.map_filterMap]

end Rewrites

end Ledger

end ClaimLedger
