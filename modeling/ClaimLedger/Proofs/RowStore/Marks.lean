/-
# Following a table by its marks

A store follows a ledger by writing the marked rows only. `Marked` says of one
table that this is enough: whatever is not marked is the same on both sides, and
a row that is marked as changed agrees with the stored one in what a write
leaves alone. Then one write of the marked rows makes the stored table the one
in memory.
-/

import Mathlib.Data.List.Basic
import ClaimLedger.Proofs.Maps

namespace ClaimLedger

variable {κ ρ : Type} [Ord κ]

/-- The marks of a table account for everything in which the rows in memory
differ from the stored ones. `merge old row` is what writing `row` makes of the
stored row `old`. -/
structure Marked [Std.TransOrd κ] (merge : ρ → ρ → ρ) (stored live : Std.ExtTreeMap κ ρ)
    (changed deleted : Std.ExtTreeSet κ) : Prop where
  same : ∀ {key : κ}, key ∉ changed → key ∉ deleted → stored[key]? = live[key]?
  present : ∀ {key : κ}, key ∈ changed → ∃ row, live[key]? = some row
  kept : ∀ {key : κ}, key ∈ changed → key ∉ deleted → ∀ {row old : ρ},
    live[key]? = some row → stored[key]? = some old → merge old row = row
  gone : ∀ {key : κ}, key ∈ deleted → live[key]? = none

namespace Marked

variable [Std.TransOrd κ] {merge : ρ → ρ → ρ} {stored live : Std.ExtTreeMap κ ρ}
variable {changed deleted : Std.ExtTreeSet κ} {key : κ} {row old : ρ}

/-- No row is marked both as changed and as deleted. -/
theorem apart (marked : Marked merge stored live changed deleted) (listed : key ∈ changed) :
    key ∉ deleted := by
  intro dropped
  obtain ⟨row, found⟩ := marked.present listed
  rw [marked.gone dropped] at found
  cases found

theorem refl (merge : ρ → ρ → ρ) (rows : Std.ExtTreeMap κ ρ) : Marked merge rows rows ∅ ∅ where
  same := fun _ _ => rfl
  present := fun listed => absurd listed Std.ExtTreeSet.not_mem_empty
  kept := fun listed => absurd listed Std.ExtTreeSet.not_mem_empty
  gone := fun listed => absurd listed Std.ExtTreeSet.not_mem_empty

variable [Std.LawfulEqOrd κ]

/-- A row may come in that agrees with the stored one in what a write leaves alone. -/
theorem put (marked : Marked merge stored live changed deleted) (row : ρ)
    (agrees : ∀ {old : ρ}, stored[key]? = some old → merge old row = row) :
    Marked merge stored (live.insert key row) (changed.insert key) (deleted.erase key) where
  same := by
    intro other unchanged undeleted
    rw [mem_insert_iff, not_or] at unchanged
    rw [mem_erase_iff] at undeleted
    rw [getElem?_insert_of_ne live row unchanged.1]
    exact marked.same unchanged.2 fun listed => undeleted ⟨unchanged.1, listed⟩
  present := by
    intro other listed
    by_cases here : key = other
    · exact ⟨row, here ▸ Std.ExtTreeMap.getElem?_insert_self⟩
    · rw [getElem?_insert_of_ne live row here]
      exact marked.present ((mem_insert_iff.mp listed).resolve_left here)
  kept := by
    intro other listed undeleted row' old live' found
    by_cases here : key = other
    · subst here
      rw [Std.ExtTreeMap.getElem?_insert_self, Option.some.injEq] at live'
      exact live' ▸ agrees found
    · rw [getElem?_insert_of_ne live row here] at live'
      rw [mem_erase_iff] at undeleted
      exact marked.kept ((mem_insert_iff.mp listed).resolve_left here)
        (fun listed => undeleted ⟨here, listed⟩) live' found
  gone := by
    intro other listed
    rw [mem_erase_iff] at listed
    rw [getElem?_insert_of_ne live row listed.1]
    exact marked.gone listed.2

/-- A live row may get new contents that agree with the old ones in what a write
leaves alone. -/
theorem rewrite (marked : Marked merge stored live changed deleted)
    (steady : ∀ {a b c : ρ}, merge a b = b → merge b c = c → merge a c = c)
    (found : live[key]? = some old) (agrees : merge old row = row) :
    Marked merge stored (live.insert key row) (changed.insert key) deleted where
  same := by
    intro other unchanged undeleted
    rw [mem_insert_iff, not_or] at unchanged
    rw [getElem?_insert_of_ne live row unchanged.1]
    exact marked.same unchanged.2 undeleted
  present := by
    intro other listed
    by_cases here : key = other
    · exact ⟨row, here ▸ Std.ExtTreeMap.getElem?_insert_self⟩
    · rw [getElem?_insert_of_ne live row here]
      exact marked.present ((mem_insert_iff.mp listed).resolve_left here)
  kept := by
    intro other listed undeleted row' old' live' stored'
    by_cases here : key = other
    · subst here
      rw [Std.ExtTreeMap.getElem?_insert_self, Option.some.injEq] at live'
      subst live'
      by_cases before : key ∈ changed
      · exact steady (marked.kept before undeleted found stored') agrees
      · rw [marked.same before undeleted, found, Option.some.injEq] at stored'
        exact stored' ▸ agrees
    · rw [getElem?_insert_of_ne live row here] at live'
      exact marked.kept ((mem_insert_iff.mp listed).resolve_left here) undeleted live' stored'
  gone := by
    intro other listed
    have different : key ≠ other := by
      rintro rfl
      rw [marked.gone listed] at found
      cases found
    rw [getElem?_insert_of_ne live row different]
    exact marked.gone listed

/-- Any row may go. -/
theorem erase (marked : Marked merge stored live changed deleted) (key : κ) :
    Marked merge stored (live.erase key) (changed.erase key) (deleted.insert key) where
  same := by
    intro other unchanged undeleted
    rw [mem_erase_iff] at unchanged
    rw [mem_insert_iff, not_or] at undeleted
    rw [getElem?_erase_of_ne live undeleted.1]
    exact marked.same (fun listed => unchanged ⟨undeleted.1, listed⟩) undeleted.2
  present := by
    intro other listed
    rw [mem_erase_iff] at listed
    rw [getElem?_erase_of_ne live listed.1]
    exact marked.present listed.2
  kept := by
    intro other listed undeleted row old live' found
    rw [mem_erase_iff] at listed
    rw [mem_insert_iff, not_or] at undeleted
    rw [getElem?_erase_of_ne live listed.1] at live'
    exact marked.kept listed.2 undeleted.2 live' found
  gone := by
    intro other listed
    by_cases here : key = other
    · exact here ▸ Std.ExtTreeMap.getElem?_erase_self
    · rw [getElem?_erase_of_ne live here]
      exact marked.gone ((mem_insert_iff.mp listed).resolve_left here)

end Marked

/-! ## Writing the marked rows -/

section Writing

variable [Std.TransOrd κ]

/-- Write a row into a table. -/
def writeRow (merge : ρ → ρ → ρ) (key : ρ → κ) (table : Std.ExtTreeMap κ ρ) (row : ρ) :
    Std.ExtTreeMap κ ρ :=
  table.insert (key row) ((table[key row]?.map fun old => merge old row).getD row)

/-- Delete some rows of a table and write others. -/
def writeTable (merge : ρ → ρ → ρ) (key : ρ → κ) (table : Std.ExtTreeMap κ ρ)
    (deleted : List κ) (rows : List ρ) : Std.ExtTreeMap κ ρ :=
  rows.foldl (writeRow merge key) (deleted.foldl (fun table key => table.erase key) table)

variable [Std.LawfulEqOrd κ] {merge : ρ → ρ → ρ} {key : ρ → κ} {table : Std.ExtTreeMap κ ρ}
variable {k : κ}

theorem getElem?_foldl_erase_of_mem {deleted : List κ} (listed : k ∈ deleted) :
    (deleted.foldl (fun table key => table.erase key) table)[k]? = none := by
  have gone (deleted : List κ) {table : Std.ExtTreeMap κ ρ} (gone : table[k]? = none) :
      (deleted.foldl (fun table key => table.erase key) table)[k]? = none := by
    refine List.foldlRecOn (motive := fun now : Std.ExtTreeMap κ ρ => now[k]? = none) _ _ gone
      fun now gone key _ => ?_
    by_cases here : key = k
    · exact here ▸ Std.ExtTreeMap.getElem?_erase_self
    · rw [getElem?_erase_of_ne now here]
      exact gone
  induction deleted generalizing table with
  | nil => cases listed
  | cons first more ih =>
    rcases List.mem_cons.mp listed with rfl | later
    · exact gone more Std.ExtTreeMap.getElem?_erase_self
    · exact ih later

theorem getElem?_foldl_erase_of_not_mem {deleted : List κ} (unlisted : k ∉ deleted) :
    (deleted.foldl (fun table key => table.erase key) table)[k]? = table[k]? := by
  refine List.foldlRecOn (motive := fun now : Std.ExtTreeMap κ ρ => now[k]? = table[k]?) _ _ rfl
    fun now same key listed => ?_
  have different : key ≠ k := fun here => unlisted (here ▸ listed)
  rw [getElem?_erase_of_ne now different, same]

/-- A row under a key that is not written stays. -/
theorem getElem?_foldl_writeRow_of_not_mem {rows : List ρ} (unwritten : k ∉ rows.map key) :
    (rows.foldl (writeRow merge key) table)[k]? = table[k]? := by
  refine List.foldlRecOn (motive := fun now : Std.ExtTreeMap κ ρ => now[k]? = table[k]?) _ _ rfl
    fun now same row listed => ?_
  have different : key row ≠ k := fun here => unwritten (here ▸ List.mem_map_of_mem listed)
  rw [writeRow, getElem?_insert_of_ne now _ different, same]

/-- Rows under different keys are all written. -/
theorem getElem?_foldl_writeRow {rows : List ρ} (distinct : (rows.map key).Nodup) {row : ρ}
    (listed : row ∈ rows) (isKey : key row = k) :
    (rows.foldl (writeRow merge key) table)[k]? =
      some ((table[k]?.map fun old => merge old row).getD row) := by
  induction rows generalizing table with
  | nil => cases listed
  | cons first more ih =>
    rw [List.map_cons, List.nodup_cons] at distinct
    rw [List.foldl_cons]
    rcases List.mem_cons.mp listed with rfl | later
    · rw [isKey] at distinct
      rw [getElem?_foldl_writeRow_of_not_mem distinct.1, writeRow, isKey]
      exact Std.ExtTreeMap.getElem?_insert_self
    · have different : key first ≠ k := fun same =>
        distinct.1 (same.trans isKey.symm ▸ List.mem_map_of_mem later)
      rw [ih distinct.2 later, writeRow, getElem?_insert_of_ne table _ different]

variable {merge' : ρ → ρ → ρ} {stored live : Std.ExtTreeMap κ ρ}
variable {changed deleted : Std.ExtTreeSet κ}

/-- What writing the marked rows leaves under a key of any table. The marks need not come from
that table. -/
theorem Marked.getElem?_writeTable (marked : Marked merge' stored live changed deleted)
    (keyed : ∀ {k : κ} {row : ρ}, live[k]? = some row → key row = k) (k : κ) :
    (writeTable merge key table deleted.toList (changed.toList.filterMap fun k => live[k]?))[k]? =
      if k ∈ changed then
        live[k]?.map fun row => (table[k]?.map fun old => merge old row).getD row
      else if k ∈ deleted then none else table[k]? := by
  have keys : (changed.toList.filterMap fun k => live[k]?).map key = changed.toList := by
    have each : ∀ k ∈ changed.toList, (live[k]?).map key = some k := by
      intro k listed
      obtain ⟨row, found⟩ := marked.present (Std.ExtTreeSet.mem_toList.mp listed)
      rw [found, Option.map_some, keyed found]
    rw [List.map_filterMap, List.filterMap_congr each, List.filterMap_some]
  have distinct : changed.toList.Nodup := by
    apply changed.distinct_toList.imp
    rintro key _ different rfl
    exact different Std.ReflCmp.compare_self
  rw [writeTable]
  by_cases listed : k ∈ changed
  · obtain ⟨row, found⟩ := marked.present listed
    have written : row ∈ changed.toList.filterMap fun k => live[k]? :=
      List.mem_filterMap.mpr ⟨k, Std.ExtTreeSet.mem_toList.mpr listed, found⟩
    have undeleted : k ∉ deleted.toList := mt Std.ExtTreeSet.mem_toList.mp (marked.apart listed)
    rw [getElem?_foldl_writeRow (keys.symm ▸ distinct) written (keyed found),
      getElem?_foldl_erase_of_not_mem undeleted, if_pos listed, found, Option.map_some]
  · have unwritten : k ∉ (changed.toList.filterMap fun k => live[k]?).map key := by
      rw [keys, Std.ExtTreeSet.mem_toList]
      exact listed
    rw [getElem?_foldl_writeRow_of_not_mem unwritten, if_neg listed]
    by_cases dropped : k ∈ deleted
    · rw [getElem?_foldl_erase_of_mem (Std.ExtTreeSet.mem_toList.mpr dropped), if_pos dropped]
    · rw [getElem?_foldl_erase_of_not_mem (mt Std.ExtTreeSet.mem_toList.mp dropped),
        if_neg dropped]

/-- Writing the marked rows makes the stored table the one in memory. -/
theorem Marked.writeTable_eq (marked : Marked merge stored live changed deleted)
    (keyed : ∀ {k : κ} {row : ρ}, live[k]? = some row → key row = k) :
    writeTable merge key stored deleted.toList
      (changed.toList.filterMap fun k => live[k]?) = live := by
  apply Std.ExtTreeMap.ext_getElem?
  intro k
  rw [marked.getElem?_writeTable keyed]
  by_cases listed : k ∈ changed
  · obtain ⟨row, found⟩ := marked.present listed
    rw [if_pos listed, found, Option.map_some, Option.some.injEq]
    cases before : stored[k]? with
    | none => rfl
    | some old => exact marked.kept listed (marked.apart listed) found before
  · rw [if_neg listed]
    by_cases dropped : k ∈ deleted
    · rw [if_pos dropped, marked.gone dropped]
    · rw [if_neg dropped, marked.same listed dropped]

end Writing

end ClaimLedger
