/-
# What a change does to a lookup

Every change to the ledger is a few writes to its maps, and everything that
reads the ledger reads it through lookups. The equations here say what each
change does to each lookup, so that a run of changes can be followed without
opening the maps again.
-/

import ClaimLedger.Ledger.Settle

namespace ClaimLedger

namespace Ledger

variable (ledger : Ledger) (name other : Bytes) (claim : Claim) (support : Support)
variable (hash : ClaimHash) (outpoint : OutPoint) (edit : NameEntry → NameEntry)

/-! ## Changing what lives under a name -/

@[simp] theorem getElem?_names_editEntry :
    (ledger.editEntry name edit).names[other]? =
      if name = other then some (edit (ledger.entry name)) else ledger.names[other]? := by
  simp [editEntry, Std.ExtTreeMap.getElem?_insert]

@[simp] theorem entry_editEntry :
    (ledger.editEntry name edit).entry other =
      if name = other then edit (ledger.entry name) else ledger.entry other := by
  unfold entry
  rw [getElem?_names_editEntry]
  split <;> simp [entry]

@[simp] theorem getElem?_names_editUsedEntry :
    (ledger.editUsedEntry name edit).names[other]? =
      if name = other then ledger.names[name]?.map edit else ledger.names[other]? := by
  simp [editUsedEntry, Std.ExtTreeMap.getElem?_modify]

/-- A name out of use stays out of use, so only a name in use is changed. -/
theorem entry_editUsedEntry (used : name ∈ ledger.names) :
    (ledger.editUsedEntry name edit).entry other =
      if name = other then edit (ledger.entry name) else ledger.entry other := by
  unfold entry
  rw [getElem?_names_editUsedEntry]
  split
  · simp [Std.ExtTreeMap.getElem?_eq_some_getElem used]
  · rfl

/-- Taking an empty name out of use changes nothing that a reader of entries
can see. -/
@[simp] theorem entry_prune : (ledger.prune name).entry other = ledger.entry other := by
  unfold prune
  split
  · next found hit =>
    split
    · next nothing =>
      unfold entry
      simp only [Std.ExtTreeMap.getElem?_erase, Std.compare_eq_iff_eq]
      split
      · next same =>
        subst same
        obtain ⟨claims, supports, takeover⟩ := found
        simp only [NameEntry.isEmpty, Bool.and_eq_true, Std.ExtTreeSet.isEmpty_iff,
          Option.isNone_iff_eq_none] at nothing
        obtain ⟨⟨rfl, rfl⟩, rfl⟩ := nothing
        simp [hit]
      · rfl
    · rfl
  · rfl

@[simp] theorem claims_prune : (ledger.prune name).claims = ledger.claims := by
  unfold prune
  split
  · split <;> rfl
  · rfl

@[simp] theorem supports_prune : (ledger.prune name).supports = ledger.supports := by
  unfold prune
  split
  · split <;> rfl
  · rfl

/-- The controller of a name is part of what lives under it. -/
theorem takeover?_eq_entry : ledger.takeover? name = (ledger.entry name).takeover := by
  unfold takeover? entry
  cases ledger.names[name]? <;> rfl

/-! ## Claims and supports -/

@[simp] theorem getElem?_claims_putClaim :
    (ledger.putClaim claim).claims[hash]? =
      if claim.hash = hash then some claim else ledger.claims[hash]? := by
  simp [putClaim, Std.ExtTreeMap.getElem?_insert]

@[simp] theorem getElem?_supports_putSupport :
    (ledger.putSupport support).supports[outpoint]? =
      if support.outpoint = outpoint then some support else ledger.supports[outpoint]? := by
  simp [putSupport, Std.ExtTreeMap.getElem?_insert]

@[simp] theorem getElem?_claims_addClaim :
    (ledger.addClaim claim).claims[hash]? =
      if claim.hash = hash then some claim else ledger.claims[hash]? := by
  simp [addClaim, editEntry, putClaim, Std.ExtTreeMap.getElem?_insert]

@[simp] theorem getElem?_holdings_addClaim :
    (ledger.addClaim claim).holdings[outpoint]? =
      if claim.outpoint = outpoint then some claim.hash else ledger.holdings[outpoint]? := by
  simp [addClaim, editEntry, putClaim, Std.ExtTreeMap.getElem?_insert]

@[simp] theorem getElem?_claims_removeClaim :
    (ledger.removeClaim claim).claims[hash]? =
      if claim.hash = hash then none else ledger.claims[hash]? := by
  simp [removeClaim, editUsedEntry, Std.ExtTreeMap.getElem?_erase]

@[simp] theorem getElem?_holdings_removeClaim :
    (ledger.removeClaim claim).holdings[outpoint]? =
      if claim.outpoint = outpoint then none else ledger.holdings[outpoint]? := by
  simp [removeClaim, editUsedEntry, Std.ExtTreeMap.getElem?_erase]

@[simp] theorem getElem?_supports_addSupport :
    (ledger.addSupport support).supports[outpoint]? =
      if support.outpoint = outpoint then some support else ledger.supports[outpoint]? := by
  simp [addSupport, editEntry, putSupport, Std.ExtTreeMap.getElem?_insert]

@[simp] theorem getElem?_supports_removeSupport :
    (ledger.removeSupport support).supports[outpoint]? =
      if support.outpoint = outpoint then none else ledger.supports[outpoint]? := by
  simp [removeSupport, editUsedEntry, Std.ExtTreeMap.getElem?_erase]

/-! ## Control -/

@[simp] theorem takeover?_setTakeover (takeover : Option Takeover) :
    (ledger.setTakeover name takeover).takeover? other =
      if name = other then takeover else ledger.takeover? other := by
  have settled : (ledger.setTakeover name takeover).entry other =
      (ledger.editEntry name fun entry => { entry with takeover }).entry other := rfl
  rw [takeover?_eq_entry, takeover?_eq_entry, settled, entry_editEntry]
  split <;> rfl

end Ledger

end ClaimLedger
