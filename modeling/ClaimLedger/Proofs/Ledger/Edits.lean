/-
# The edits of a block

Before names are settled, a block changes the ledger in five ways: a claim is
added, moved or removed, and a support is added or removed. `Edit` is one such
change together with what makes it harmless to the indexes: what is added was
not there before and sits on an output that holds nothing, and what is moved or
removed is live. Every edit is about one name. It leaves the other names alone,
and it never changes who controls the name.
-/

import Mathlib.Logic.Relation
import ClaimLedger.Ledger.Apply
import ClaimLedger.Proofs.Ledger.Indexed

namespace ClaimLedger

/-- A claim on a new output, where its lifetime starts again. -/
def Claim.moved (rules : Rules) (height : Height) (outpoint : OutPoint) (amount : Amount)
    (owner : Bytes) (claim : Claim) : Claim :=
  { claim with
    outpoint, amount, owner
    updated := height
    term.expiration := rules.expirationHeight height }

namespace Ledger

open BlockWork (moveClaim)

/-- One change of a block at a height, to what lives under one name. -/
inductive Edit (height : Height) : Bytes → Ledger → Ledger → Prop
  | addClaim {ledger : Ledger} (claim : Claim)
      (new : ledger.claims[claim.hash]? = none)
      (free : ledger.holdings[claim.outpoint]? = none) :
      Edit height claim.name ledger (ledger.addClaim claim)
  | moveClaim {ledger : Ledger} (claim : Claim) (outpoint : OutPoint) (amount : Amount)
      (owner : Bytes)
      (live : ledger.claims[claim.hash]? = some claim)
      (free : ledger.holdings[outpoint]? = none) :
      Edit height claim.name ledger (moveClaim ledger height claim outpoint amount owner)
  | removeClaim {ledger : Ledger} (claim : Claim)
      (live : ledger.claims[claim.hash]? = some claim) :
      Edit height claim.name ledger (ledger.removeClaim claim)
  | addSupport {ledger : Ledger} (support : Support)
      (new : ledger.supports[support.outpoint]? = none) :
      Edit height support.name ledger (ledger.addSupport support)
  | removeSupport {ledger : Ledger} (support : Support)
      (live : ledger.supports[support.outpoint]? = some support) :
      Edit height support.name ledger (ledger.removeSupport support)

section Lookups

variable {ledger : Ledger} {height : Height} {claim : Claim} {support : Support}

theorem mem_names_of_claim (indexed : ledger.Indexed)
    (live : ledger.claims[claim.hash]? = some claim) : claim.name ∈ ledger.names := by
  by_contra unused
  have listed := indexed.mem_claims.mpr ⟨claim, live, rfl⟩
  unfold entry at listed
  rw [Std.ExtTreeMap.getElem?_eq_none unused] at listed
  exact Std.ExtTreeSet.not_mem_empty listed

theorem mem_names_of_support (indexed : ledger.Indexed)
    (live : ledger.supports[support.outpoint]? = some support) :
    support.name ∈ ledger.names := by
  by_contra unused
  have listed := indexed.mem_supports.mpr ⟨support, live, rfl⟩
  unfold entry at listed
  rw [Std.ExtTreeMap.getElem?_eq_none unused] at listed
  exact Std.ExtTreeSet.not_mem_empty listed

theorem entry_addClaim (ledger : Ledger) (claim : Claim) (name : Bytes) :
    (ledger.addClaim claim).entry name =
      if claim.name = name then
        { ledger.entry claim.name with
          claims := (ledger.entry claim.name).claims.insert claim.hash }
      else ledger.entry name :=
  ledger.entry_editEntry claim.name name fun entry =>
    { entry with claims := entry.claims.insert claim.hash }

theorem entry_addSupport (ledger : Ledger) (support : Support) (name : Bytes) :
    (ledger.addSupport support).entry name =
      if support.name = name then
        { ledger.entry support.name with
          supports := (ledger.entry support.name).supports.insert support.outpoint }
      else ledger.entry name :=
  ledger.entry_editEntry support.name name fun entry =>
    { entry with supports := entry.supports.insert support.outpoint }

theorem entry_removeClaim (used : claim.name ∈ ledger.names) (name : Bytes) :
    (ledger.removeClaim claim).entry name =
      if claim.name = name then
        { ledger.entry claim.name with
          claims := (ledger.entry claim.name).claims.erase claim.hash }
      else ledger.entry name :=
  ledger.entry_editUsedEntry claim.name name _ used

theorem entry_removeSupport (used : support.name ∈ ledger.names) (name : Bytes) :
    (ledger.removeSupport support).entry name =
      if support.name = name then
        { ledger.entry support.name with
          supports := (ledger.entry support.name).supports.erase support.outpoint }
      else ledger.entry name :=
  ledger.entry_editUsedEntry support.name name _ used

variable (outpoint : OutPoint) (amount : Amount) (owner : Bytes)

@[simp] theorem getElem?_claims_moveClaim (hash : ClaimHash) :
    (moveClaim ledger height claim outpoint amount owner).claims[hash]? =
      if claim.hash = hash then some (claim.moved ledger.rules height outpoint amount owner)
      else ledger.claims[hash]? :=
  ledger.getElem?_claims_putClaim (claim.moved ledger.rules height outpoint amount owner) hash

@[simp] theorem getElem?_holdings_moveClaim (other : OutPoint) :
    (moveClaim ledger height claim outpoint amount owner).holdings[other]? =
      if outpoint = other then some claim.hash
      else if claim.outpoint = other then none else ledger.holdings[other]? := by
  simp [moveClaim, putClaim, Std.ExtTreeMap.getElem?_insert, Std.ExtTreeMap.getElem?_erase]

theorem entry_moveClaim (name : Bytes) :
    (moveClaim ledger height claim outpoint amount owner).entry name = ledger.entry name := rfl

end Lookups

/-! ## Edits keep the indexes -/

section Indexed

variable {ledger : Ledger} {height : Height} {claim : Claim} {support : Support}

theorem indexed_addClaim (indexed : ledger.Indexed)
    (new : ledger.claims[claim.hash]? = none) (free : ledger.holdings[claim.outpoint]? = none) :
    (ledger.addClaim claim).Indexed where
  claim_hash := by
    intro hash row live
    rw [getElem?_claims_addClaim] at live
    split at live
    · next same =>
      cases live
      exact same
    · exact indexed.claim_hash live
  support_outpoint := indexed.support_outpoint
  mem_claims := by
    intro name hash
    rw [getElem?_claims_addClaim, entry_addClaim]
    by_cases isHash : claim.hash = hash
    · subst isHash
      by_cases named : claim.name = name
      · simp [named]
      · have absent : claim.hash ∉ (ledger.entry name).claims := by
          rw [indexed.mem_claims, new]
          simp
        simp [named, absent]
    · by_cases named : claim.name = name
      · subst named
        simp [isHash, indexed.mem_claims]
      · simp [isHash, named, indexed.mem_claims]
  mem_supports := by
    intro name outpoint
    rw [entry_addClaim]
    by_cases named : claim.name = name
    · subst named
      simp only [if_true]
      exact indexed.mem_supports
    · simp only [if_neg named]
      exact indexed.mem_supports
  holdings := by
    intro outpoint hash
    rw [getElem?_holdings_addClaim, getElem?_claims_addClaim]
    by_cases isHash : claim.hash = hash
    · subst isHash
      have nowhere : ledger.holdings[outpoint]? ≠ some claim.hash := by
        rw [Ne, indexed.holdings, new]
        simp
      by_cases sits : claim.outpoint = outpoint
      · simp [sits]
      · simp [sits, nowhere]
    · by_cases sits : claim.outpoint = outpoint
      · subst sits
        have nobody : ¬ ∃ row, ledger.claims[hash]? = some row ∧ row.outpoint = claim.outpoint := by
          rw [← indexed.holdings, free]
          simp
        rw [if_pos rfl, if_neg isHash, Option.some.injEq]
        exact iff_of_false isHash nobody
      · simp only [if_neg sits, if_neg isHash]
        exact indexed.holdings

theorem indexed_removeClaim (indexed : ledger.Indexed)
    (live : ledger.claims[claim.hash]? = some claim) :
    (ledger.removeClaim claim).Indexed where
  claim_hash := by
    intro hash row found
    rw [getElem?_claims_removeClaim] at found
    split at found
    · cases found
    · exact indexed.claim_hash found
  support_outpoint := indexed.support_outpoint
  mem_claims := by
    intro name hash
    rw [getElem?_claims_removeClaim, entry_removeClaim (mem_names_of_claim indexed live)]
    by_cases isHash : claim.hash = hash
    · subst isHash
      by_cases named : claim.name = name
      · simp [named]
      · have absent : claim.hash ∉ (ledger.entry name).claims := by
          rw [indexed.mem_claims, live]
          simpa using named
        simp [named, absent]
    · by_cases named : claim.name = name
      · subst named
        simp [isHash, indexed.mem_claims]
      · simp [isHash, named, indexed.mem_claims]
  mem_supports := by
    intro name outpoint
    rw [entry_removeClaim (mem_names_of_claim indexed live)]
    by_cases named : claim.name = name
    · subst named
      simp only [if_true]
      exact indexed.mem_supports
    · simp only [if_neg named]
      exact indexed.mem_supports
  holdings := by
    intro outpoint hash
    rw [getElem?_holdings_removeClaim, getElem?_claims_removeClaim]
    have held : ledger.holdings[claim.outpoint]? = some claim.hash :=
      indexed.holdings.mpr ⟨claim, live, rfl⟩
    by_cases isHash : claim.hash = hash
    · subst isHash
      by_cases sits : claim.outpoint = outpoint
      · simp [sits]
      · have elsewhere : ledger.holdings[outpoint]? ≠ some claim.hash := by
          rw [Ne, indexed.holdings, live]
          simpa using sits
        simp [sits, elsewhere]
    · by_cases sits : claim.outpoint = outpoint
      · subst sits
        have nobody : ¬ ∃ row, ledger.claims[hash]? = some row ∧ row.outpoint = claim.outpoint := by
          rw [← indexed.holdings, held]
          simpa using isHash
        simp only [if_true, if_neg isHash, reduceCtorEq, nobody]
      · simp only [if_neg sits, if_neg isHash]
        exact indexed.holdings

theorem indexed_moveClaim (indexed : ledger.Indexed) {outpoint : OutPoint} {amount : Amount}
    {owner : Bytes} (live : ledger.claims[claim.hash]? = some claim)
    (free : ledger.holdings[outpoint]? = none) :
    (moveClaim ledger height claim outpoint amount owner).Indexed where
  claim_hash := by
    intro hash row found
    rw [getElem?_claims_moveClaim] at found
    split at found
    · next same =>
      cases found
      exact same
    · exact indexed.claim_hash found
  support_outpoint := indexed.support_outpoint
  mem_claims := by
    intro name hash
    rw [getElem?_claims_moveClaim, entry_moveClaim, indexed.mem_claims]
    by_cases isHash : claim.hash = hash
    · subst isHash
      simp [live, Claim.moved]
    · simp [isHash]
  mem_supports := indexed.mem_supports
  holdings := by
    intro other hash
    rw [getElem?_holdings_moveClaim, getElem?_claims_moveClaim]
    by_cases isHash : claim.hash = hash
    · subst isHash
      have held : ledger.holdings[other]? = some claim.hash ↔ claim.outpoint = other := by
        rw [indexed.holdings, live]
        simp
      by_cases goes : outpoint = other
      · simp [goes, Claim.moved]
      · simp [goes, held, Claim.moved]
    · have held : ledger.holdings[claim.outpoint]? = some claim.hash :=
        indexed.holdings.mpr ⟨claim, live, rfl⟩
      simp only [if_neg isHash, ← indexed.holdings]
      by_cases goes : outpoint = other
      · subst goes
        simp [free, isHash]
      · by_cases sits : claim.outpoint = other
        · subst sits
          simp [goes, held, isHash]
        · simp [goes, sits]

theorem indexed_addSupport (indexed : ledger.Indexed)
    (new : ledger.supports[support.outpoint]? = none) : (ledger.addSupport support).Indexed where
  claim_hash := indexed.claim_hash
  support_outpoint := by
    intro outpoint row found
    rw [getElem?_supports_addSupport] at found
    split at found
    · next same =>
      cases found
      exact same
    · exact indexed.support_outpoint found
  mem_claims := by
    intro name hash
    rw [entry_addSupport]
    by_cases named : support.name = name
    · subst named
      simp only [if_true]
      exact indexed.mem_claims
    · simp only [if_neg named]
      exact indexed.mem_claims
  mem_supports := by
    intro name outpoint
    rw [getElem?_supports_addSupport, entry_addSupport]
    by_cases sits : support.outpoint = outpoint
    · subst sits
      by_cases named : support.name = name
      · simp [named]
      · have absent : support.outpoint ∉ (ledger.entry name).supports := by
          rw [indexed.mem_supports, new]
          simp
        simp [named, absent]
    · by_cases named : support.name = name
      · subst named
        simp [sits, indexed.mem_supports]
      · simp [sits, named, indexed.mem_supports]
  holdings := indexed.holdings

theorem indexed_removeSupport (indexed : ledger.Indexed)
    (live : ledger.supports[support.outpoint]? = some support) :
    (ledger.removeSupport support).Indexed where
  claim_hash := indexed.claim_hash
  support_outpoint := by
    intro outpoint row found
    rw [getElem?_supports_removeSupport] at found
    split at found
    · cases found
    · exact indexed.support_outpoint found
  mem_claims := by
    intro name hash
    rw [entry_removeSupport (mem_names_of_support indexed live)]
    by_cases named : support.name = name
    · subst named
      simp only [if_true]
      exact indexed.mem_claims
    · simp only [if_neg named]
      exact indexed.mem_claims
  mem_supports := by
    intro name outpoint
    rw [getElem?_supports_removeSupport, entry_removeSupport (mem_names_of_support indexed live)]
    by_cases sits : support.outpoint = outpoint
    · subst sits
      by_cases named : support.name = name
      · simp [named]
      · have absent : support.outpoint ∉ (ledger.entry name).supports := by
          rw [indexed.mem_supports, live]
          simpa using named
        simp [named, absent]
    · by_cases named : support.name = name
      · subst named
        simp [sits, indexed.mem_supports]
      · simp [sits, named, indexed.mem_supports]
  holdings := indexed.holdings

end Indexed

/-! ## What an edit leaves alone -/

namespace Edit

variable {height : Height} {name other : Bytes} {before after : Ledger}

theorem indexed (edit : Edit height name before after) (known : before.Indexed) :
    after.Indexed := by
  cases edit with
  | addClaim claim new free => exact indexed_addClaim known new free
  | moveClaim claim outpoint amount owner live free => exact indexed_moveClaim known live free
  | removeClaim claim live => exact indexed_removeClaim known live
  | addSupport support new => exact indexed_addSupport known new
  | removeSupport support live => exact indexed_removeSupport known live

/-- An edit writes rows, indexes and marks. The rules, the height and the
schedule stay. -/
theorem rest (edit : Edit height name before after) :
    ∃ claims supports names holdings dirty,
      after = { before with claims, supports, names, holdings, dirty } := by
  cases edit <;> exact ⟨_, _, _, _, _, rfl⟩

/-- No edit changes who controls a name. -/
theorem takeover_eq (edit : Edit height name before after) (known : before.Indexed)
    (other : Bytes) : (after.entry other).takeover = (before.entry other).takeover := by
  cases edit with
  | addClaim claim new free =>
    rw [entry_addClaim]
    split
    · next same => rw [same]
    · rfl
  | moveClaim claim outpoint amount owner live free => rfl
  | removeClaim claim live =>
    rw [entry_removeClaim (mem_names_of_claim known live)]
    split
    · next same => rw [same]
    · rfl
  | addSupport support new =>
    rw [entry_addSupport]
    split
    · next same => rw [same]
    · rfl
  | removeSupport support live =>
    rw [entry_removeSupport (mem_names_of_support known live)]
    split
    · next same => rw [same]
    · rfl

/-- The names that an edit is not about keep their standing. -/
theorem standing_eq (edit : Edit height name before after) (known : before.Indexed)
    (different : name ≠ other) : after.standing other = before.standing other := by
  -- no row under `other` is the row that is edited
  have apart {claim : Claim} (live : before.claims[claim.hash]? = some claim)
      (named : claim.name ≠ other) (hash : ClaimHash)
      (listed : hash ∈ (before.entry other).claims) : claim.hash ≠ hash := by
    rintro rfl
    rw [known.mem_claims, live] at listed
    obtain ⟨row, same, isOther⟩ := listed
    cases same
    exact named isOther
  cases edit with
  | addClaim claim new free =>
    refine standing_congr ?_ (fun hash listed => ?_) fun _ _ => rfl
    · rw [entry_addClaim, if_neg different]
    · rw [getElem?_claims_addClaim, if_neg]
      rintro rfl
      rw [known.mem_claims, new] at listed
      obtain ⟨row, impossible, -⟩ := listed
      cases impossible
  | moveClaim claim outpoint amount owner live free =>
    refine standing_congr rfl (fun hash listed => ?_) fun _ _ => rfl
    rw [getElem?_claims_moveClaim, if_neg (apart live different hash listed)]
  | removeClaim claim live =>
    refine standing_congr ?_ (fun hash listed => ?_) fun _ _ => rfl
    · rw [entry_removeClaim (mem_names_of_claim known live), if_neg different]
    · rw [getElem?_claims_removeClaim, if_neg (apart live different hash listed)]
  | addSupport support new =>
    refine standing_congr ?_ (fun _ _ => rfl) fun outpoint listed => ?_
    · rw [entry_addSupport, if_neg different]
    · rw [getElem?_supports_addSupport, if_neg]
      rintro rfl
      rw [known.mem_supports, new] at listed
      obtain ⟨row, impossible, -⟩ := listed
      cases impossible
  | removeSupport support live =>
    refine standing_congr ?_ (fun _ _ => rfl) fun outpoint listed => ?_
    · rw [entry_removeSupport (mem_names_of_support known live), if_neg different]
    · rw [getElem?_supports_removeSupport, if_neg]
      rintro rfl
      rw [known.mem_supports, live] at listed
      obtain ⟨row, same, isOther⟩ := listed
      cases same
      exact different isOther

/-- The other names stay in use, or out of use. -/
theorem mem_names_iff (edit : Edit height name before after) (different : name ≠ other) :
    other ∈ after.names ↔ other ∈ before.names := by
  cases edit with
  | addClaim claim new free =>
    simp [Ledger.addClaim, putClaim, editEntry, Std.ExtTreeMap.mem_insert, different]
  | moveClaim claim outpoint amount owner live free => rfl
  | removeClaim claim live =>
    simp [Ledger.removeClaim, editUsedEntry, Std.ExtTreeMap.mem_modify]
  | addSupport support new =>
    simp [Ledger.addSupport, putSupport, editEntry, Std.ExtTreeMap.mem_insert, different]
  | removeSupport support live =>
    simp [Ledger.removeSupport, editUsedEntry, Std.ExtTreeMap.mem_modify]

end Edit

/-! ## Runs of edits -/

/-- The second ledger comes from the first by edits to the touched names. -/
def Edits (height : Height) (touched : Std.ExtTreeSet Bytes) : Ledger → Ledger → Prop :=
  Relation.ReflTransGen fun before after => ∃ name ∈ touched, Edit height name before after

namespace Edits

variable {height : Height} {touched more : Std.ExtTreeSet Bytes} {name : Bytes}
variable {before middle after : Ledger}

/-- Touching more names is no restriction. -/
theorem mono (edits : Edits height touched before after)
    (subset : ∀ name ∈ touched, name ∈ more) : Edits height more before after := by
  induction edits with
  | refl => exact .refl
  | tail _ last ih =>
    obtain ⟨name, listed, edit⟩ := last
    exact ih.tail ⟨name, subset name listed, edit⟩

/-- One more edit touches one more name. -/
theorem snoc (edits : Edits height touched before middle) (edit : Edit height name middle after) :
    Edits height (touched.insert name) before after := by
  refine (edits.mono fun other listed => ?_).tail ⟨name, Std.ExtTreeSet.mem_insert_self, edit⟩
  exact Std.ExtTreeSet.mem_insert.mpr (.inr listed)

theorem indexed (edits : Edits height touched before after) (known : before.Indexed) :
    after.Indexed := by
  induction edits with
  | refl => exact known
  | tail _ last ih =>
    obtain ⟨_, _, edit⟩ := last
    exact edit.indexed ih

theorem rest (edits : Edits height touched before after) :
    ∃ claims supports names holdings dirty,
      after = { before with claims, supports, names, holdings, dirty } := by
  induction edits with
  | refl => exact ⟨_, _, _, _, _, rfl⟩
  | tail _ last ih =>
    obtain ⟨_, _, edit⟩ := last
    obtain ⟨_, _, _, _, _, rfl⟩ := ih
    obtain ⟨_, _, _, _, _, rfl⟩ := edit.rest
    exact ⟨_, _, _, _, _, rfl⟩

theorem takeover_eq (edits : Edits height touched before after) (known : before.Indexed)
    (name : Bytes) : (after.entry name).takeover = (before.entry name).takeover := by
  induction edits with
  | refl => rfl
  | tail earlier last ih =>
    obtain ⟨_, _, edit⟩ := last
    rw [edit.takeover_eq (indexed earlier known), ih]

theorem standing_eq (edits : Edits height touched before after) (known : before.Indexed)
    (untouched : name ∉ touched) : after.standing name = before.standing name := by
  induction edits with
  | refl => rfl
  | tail earlier last ih =>
    obtain ⟨edited, listed, edit⟩ := last
    have different : edited ≠ name := fun same => untouched (same ▸ listed)
    rw [edit.standing_eq (indexed earlier known) different, ih]

theorem mem_names_iff (edits : Edits height touched before after) (untouched : name ∉ touched) :
    name ∈ after.names ↔ name ∈ before.names := by
  induction edits with
  | refl => rfl
  | tail _ last ih =>
    obtain ⟨edited, listed, edit⟩ := last
    have different : edited ≠ name := fun same => untouched (same ▸ listed)
    rw [edit.mem_names_iff different, ih]

end Edits

end Ledger

end ClaimLedger
