/-
# The tables after a batch

A batch goes through the tables of the store one after the other, so what it
leaves of each of them is the work of its own writes only. The store has reached
the height of the batch then, unless it had come further before.
-/

import ClaimLedger.Proofs.Maps
import ClaimLedger.Proofs.RowStore.Marks
import ClaimLedger.RowStore

namespace ClaimLedger

/-- What writing a claim makes of the stored row. -/
def Claim.merge (old claim : Claim) : Claim :=
  { claim with name := old.name, created := old.created, position := old.position }

/-- What writing a support makes of the stored row. -/
def Support.merge (old support : Support) : Support :=
  { old with term := support.term }

theorem Claim.merge_self (claim : Claim) : claim.merge claim = claim := rfl

theorem Support.merge_self (support : Support) : support.merge support = support := rfl

/-- Writing a row again changes nothing. -/
theorem Claim.merge_merge (old claim : Claim) :
    (old.merge claim).merge claim = old.merge claim := rfl

theorem Support.merge_merge (old support : Support) :
    (old.merge support).merge support = old.merge support := rfl

theorem Claim.merge_steady {a b c : Claim} (first : a.merge b = b) (second : b.merge c = c) :
    a.merge c = c := by
  rw [← first] at second
  exact second

theorem Support.merge_steady {a b c : Support} (first : a.merge b = b) (second : b.merge c = c) :
    a.merge c = c := by
  rw [← first] at second
  exact second

/-- Write or clear a record of control. -/
def putRow (table : Std.ExtTreeMap Bytes Takeover) (row : Bytes × Option Takeover) :
    Std.ExtTreeMap Bytes Takeover :=
  match row.2 with
  | some takeover => table.insert row.1 takeover
  | none => table.erase row.1

theorem getElem?_putRow (table : Std.ExtTreeMap Bytes Takeover)
    (row : Bytes × Option Takeover) (name : Bytes) :
    (putRow table row)[name]? = if row.1 = name then row.2 else table[name]? := by
  rw [putRow]
  cases row.2 with
  | none => simp only [Std.ExtTreeMap.getElem?_erase, Std.compare_eq_iff_eq]
  | some takeover => simp only [Std.ExtTreeMap.getElem?_insert, Std.compare_eq_iff_eq]

/-- After some records of control were written, a name has what was written last
under it, here always the same. -/
theorem getElem?_foldl_putRow (table : Std.ExtTreeMap Bytes Takeover) (names : List Bytes)
    (name : Bytes) (current : Bytes → Option Takeover) :
    ((names.map fun name => (name, current name)).foldl putRow table)[name]? =
      if name ∈ names then current name else table[name]? := by
  induction names generalizing table with
  | nil => rw [List.map_nil, List.foldl_nil, if_neg List.not_mem_nil]
  | cons first more ih =>
    rw [List.map_cons, List.foldl_cons, ih, getElem?_putRow]
    by_cases later : name ∈ more
    · rw [if_pos later, if_pos (List.mem_cons_of_mem first later)]
    · rw [if_neg later]
      by_cases here : first = name
      · rw [if_pos here, here, if_pos List.mem_cons_self]
      · rw [if_neg here, if_neg]
        rintro (_ | ⟨_, listed⟩)
        · exact here rfl
        · exact later listed

namespace RowStore

theorem putTakeover_eq (store : RowStore) (row : Bytes × Option Takeover) :
    store.putTakeover row = { store with takeovers := putRow store.takeovers row } := by
  rw [putTakeover, putRow]
  cases row.2 <;> rfl

theorem claims_commit (store : RowStore) (batch : Batch) :
    (store.commit batch).claims =
      writeTable Claim.merge Claim.hash store.claims batch.changes.deletedClaims
        batch.changes.claims := by
  have deletes (store : RowStore) (hash : ClaimHash) :
      store.claims.erase hash = (store.deleteClaim hash).claims := rfl
  have writes (store : RowStore) (claim : Claim) :
      writeRow Claim.merge Claim.hash store.claims claim = (store.upsertClaim claim).claims := by
    rw [writeRow, upsertClaim]
    cases store.claims[claim.hash]? <;> rfl
  rw [writeTable, List.foldl_hom claims deletes, List.foldl_hom claims writes]
  apply (foldl_keeps claims putTakeover _ _ _).trans
  · apply (foldl_keeps claims upsertSupport (fun _ _ => rfl) _ _).trans
    exact foldl_keeps claims deleteSupport (fun _ _ => rfl) _ _
  · intro store row
    rw [putTakeover_eq]

theorem supports_commit (store : RowStore) (batch : Batch) :
    (store.commit batch).supports =
      writeTable Support.merge Support.outpoint store.supports batch.changes.deletedSupports
        batch.changes.supports := by
  have deletes (store : RowStore) (outpoint : OutPoint) :
      store.supports.erase outpoint = (store.deleteSupport outpoint).supports := rfl
  have writes (store : RowStore) (support : Support) :
      writeRow Support.merge Support.outpoint store.supports support =
        (store.upsertSupport support).supports := by
    rw [writeRow, upsertSupport]
    cases store.supports[support.outpoint]? <;> rfl
  have before : (batch.changes.claims.foldl upsertClaim
      (batch.changes.deletedClaims.foldl deleteClaim store)).supports = store.supports := by
    rw [foldl_keeps supports upsertClaim fun _ _ => rfl,
      foldl_keeps supports deleteClaim fun _ _ => rfl]
  rw [writeTable, ← before, List.foldl_hom supports deletes, List.foldl_hom supports writes]
  apply foldl_keeps supports putTakeover
  intro store row
  rw [putTakeover_eq]

theorem takeovers_commit (store : RowStore) (batch : Batch) :
    (store.commit batch).takeovers = batch.changes.takeovers.foldl putRow store.takeovers := by
  have puts (store : RowStore) (row : Bytes × Option Takeover) :
      putRow store.takeovers row = (store.putTakeover row).takeovers := by
    rw [putTakeover_eq]
  show (List.foldl putTakeover _ batch.changes.takeovers).takeovers = _
  rw [← List.foldl_hom takeovers puts, foldl_keeps takeovers upsertSupport fun _ _ => rfl,
    foldl_keeps takeovers deleteSupport fun _ _ => rfl,
    foldl_keeps takeovers upsertClaim fun _ _ => rfl,
    foldl_keeps takeovers deleteClaim fun _ _ => rfl]

theorem cursors_commit (store : RowStore) (batch : Batch) :
    (store.commit batch).cursors = store.cursors.insert batch.file batch.height := by
  show Std.ExtTreeMap.insert (List.foldl putTakeover _ batch.changes.takeovers).cursors _ _ = _
  rw [foldl_keeps cursors putTakeover fun store row => by rw [putTakeover_eq],
    foldl_keeps cursors upsertSupport fun _ _ => rfl,
    foldl_keeps cursors deleteSupport fun _ _ => rfl,
    foldl_keeps cursors upsertClaim fun _ _ => rfl,
    foldl_keeps cursors deleteClaim fun _ _ => rfl]

/-- The larger of two heights is no larger than a third if both are not. -/
instance : Std.LawfulOrderMax Height :=
  .of_max_le_iff
    (fun a b c => by
      show (if a ≤ b then b else a) ≤ c ↔ _
      simp only [UInt32.le_iff_toNat_le]
      split <;> omega)
    (fun a b => by
      show (if a ≤ b then b else a) = a ∨ (if a ≤ b then b else a) = b
      split
      · exact .inr rfl
      · exact .inl rfl)

/-- A batch that is not lower than what is stored is what the store has reached
then. -/
theorem lastSynced_commit {store : RowStore} {batch : Batch}
    (later : ∀ last, store.lastSynced = some last → last ≤ batch.height) :
    (store.commit batch).lastSynced = some batch.height := by
  rw [lastSynced, cursors_commit, List.max?_eq_some_iff]
  constructor
  · exact mem_values.mpr ⟨batch.file, by rw [Std.ExtTreeMap.getElem?_insert_self]⟩
  · intro height listed
    obtain ⟨file, found⟩ := mem_values.mp listed
    rw [Std.ExtTreeMap.getElem?_insert] at found
    split at found
    · cases found
      exact UInt32.le_refl _
    · obtain ⟨last, isLast⟩ := Option.isSome_iff_exists.mp
        (List.isSome_max?_of_mem (mem_values.mpr ⟨file, found⟩))
      have greatest := (List.max?_eq_some_iff.mp isLast).2 height (mem_values.mpr ⟨file, found⟩)
      exact UInt32.le_trans greatest (later last isLast)

end RowStore

end ClaimLedger
