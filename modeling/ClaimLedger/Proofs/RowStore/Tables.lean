/-
# The tables hold the rows

Writing a batch to the tables and writing it to the rows come to the same: what
the tables hold afterwards are the columns of the rows. Reading undoes writing
for every value, the amounts in the upper half of their range and the largest
heights included, so loading the tables gives the rows back.
-/

import Mathlib.Data.List.Basic
import ClaimLedger.Proofs.Maps
import ClaimLedger.RowStore.Tables

namespace ClaimLedger

/-! ## Columns -/

namespace Column

@[simp] theorem amount_ofAmount (amount : Amount) : (ofAmount amount).amount = amount :=
  UInt64.toUInt64_toInt64 amount

@[simp] theorem lowWord_ofWord (word : UInt32) : (ofWord word).lowWord = word := by
  rw [lowWord, ofWord, UInt64.toUInt64_toInt64, UInt32.toUInt32_toUInt64]

/-- A word is written as the number that it is. -/
theorem toInt_ofWord (word : UInt32) : (ofWord word).toInt = word.toNat := by
  have small := word.toNat_lt
  rw [ofWord, Int64.toInt, UInt64.toBitVec_toInt64, BitVec.toInt_eq_toNat_of_lt,
    UInt64.toNat_toBitVec, UInt32.toNat_toUInt64]
  rw [UInt64.toNat_toBitVec, UInt32.toNat_toUInt64]
  omega

@[simp] theorem word?_ofWord (word : UInt32) : (ofWord word).word? = some word := by
  have small := word.toNat_lt
  rw [word?, if_pos, lowWord_ofWord]
  rw [Int64.le_iff_toInt_le, Int64.lt_iff_toInt_lt, toInt_ofWord]
  exact ⟨Int.natCast_nonneg _, Int.ofNat_lt.mpr small⟩

/-- The larger of two words is the larger of the numbers. -/
theorem max_ofWord (a b : UInt32) : max (ofWord a) (ofWord b) = ofWord (max a b) := by
  have order : ofWord a ≤ ofWord b ↔ a ≤ b := by
    rw [Int64.le_iff_toInt_le, toInt_ofWord, toInt_ofWord, UInt32.le_iff_toNat_le, Int.ofNat_le]
  show (if ofWord a ≤ ofWord b then ofWord b else ofWord a) = ofWord (if a ≤ b then b else a)
  simp only [order, apply_ite ofWord]

end Column

/-! ## Rows -/

/-- Reading a claim undoes writing it. -/
theorem Claim.claim?_columns (claim : Claim) : claim.columns.claim? claim.hash = some claim := by
  have txid : Digest.ofBytes? 32 claim.outpoint.txid.bytes = some claim.outpoint.txid :=
    Digest.ofBytes?_eq_some_iff.mpr rfl
  simp only [ClaimColumns.claim?, columns, txid, Column.word?_ofWord, Column.amount_ofAmount,
    Option.bind_eq_bind, Option.bind_some]
  rfl

/-- Reading a support undoes writing it. -/
theorem Support.support?_columns (support : Support) :
    support.columns.support? support.outpoint = some support := by
  have claim : Digest.ofBytes? 20 support.claim.bytes = some support.claim :=
    Digest.ofBytes?_eq_some_iff.mpr rfl
  simp only [SupportColumns.support?, columns, claim, Column.word?_ofWord, Column.amount_ofAmount,
    Option.bind_eq_bind, Option.bind_some]
  rfl

/-- Reading a record of control undoes writing it. -/
theorem Takeover.takeover?_columns (takeover : Takeover) :
    takeover.columns.takeover? = some takeover := by
  have claim : Digest.ofBytes? 20 takeover.claim.bytes = some takeover.claim :=
    Digest.ofBytes?_eq_some_iff.mpr rfl
  simp only [TakeoverColumns.takeover?, columns, claim, Column.word?_ofWord,
    Option.bind_eq_bind, Option.bind_some]
  rfl

/-! ## Writing -/

namespace RowStore

/-- The tables that hold the rows of a store. -/
def tables (store : RowStore) : Tables where
  claims := store.claims.map fun _ claim => claim.columns
  supports := store.supports.map fun _ support => support.columns
  takeovers := store.takeovers.map fun _ takeover => takeover.columns
  cursors := store.cursors.map fun _ height => .ofWord height

theorem tables_empty : empty.tables = Tables.empty := by
  rw [tables, empty, Tables.empty]
  simp only [Tables.mk.injEq, Std.ExtTreeMap.map_eq_empty_iff, and_self]

/-- Where a claim is written again, the columns that stay are those of what the
row keeps. -/
theorem tables_upsertClaim (store : RowStore) (claim : Claim) :
    (store.upsertClaim claim).tables = store.tables.upsertClaim claim := by
  have claims : (store.upsertClaim claim).tables.claims =
      (store.tables.upsertClaim claim).claims := by
    rw [Tables.upsertClaim, tables, tables, upsertClaim, map_insert, Std.ExtTreeMap.getElem?_map]
    cases store.claims[claim.hash]? <;> rfl
  exact congrArg (fun claims => { store.tables with claims := claims }) claims

theorem tables_upsertSupport (store : RowStore) (support : Support) :
    (store.upsertSupport support).tables = store.tables.upsertSupport support := by
  have supports : (store.upsertSupport support).tables.supports =
      (store.tables.upsertSupport support).supports := by
    rw [Tables.upsertSupport, tables, tables, upsertSupport, map_insert,
      Std.ExtTreeMap.getElem?_map]
    cases store.supports[support.outpoint]? <;> rfl
  exact congrArg (fun supports => { store.tables with supports := supports }) supports

theorem tables_deleteClaim (store : RowStore) (hash : ClaimHash) :
    (store.deleteClaim hash).tables = store.tables.deleteClaim hash :=
  congrArg (fun claims => { store.tables with claims := claims })
    (map_erase store.claims hash Claim.columns)

theorem tables_deleteSupport (store : RowStore) (outpoint : OutPoint) :
    (store.deleteSupport outpoint).tables = store.tables.deleteSupport outpoint :=
  congrArg (fun supports => { store.tables with supports := supports })
    (map_erase store.supports outpoint Support.columns)

theorem tables_putTakeover (store : RowStore) (row : Bytes × Option Takeover) :
    (store.putTakeover row).tables = store.tables.putTakeover row := by
  obtain ⟨name, _ | takeover⟩ := row
  · exact congrArg (fun takeovers => { store.tables with takeovers := takeovers })
      (map_erase store.takeovers name Takeover.columns)
  · exact congrArg (fun takeovers => { store.tables with takeovers := takeovers })
      (map_insert store.takeovers name takeover Takeover.columns)

/-- Writing a batch to the tables writes it to the rows that they hold. -/
theorem tables_commit (store : RowStore) (batch : Batch) :
    (store.commit batch).tables = store.tables.commit batch := by
  rw [Tables.commit,
    List.foldl_hom tables fun store hash => (tables_deleteClaim store hash).symm,
    List.foldl_hom tables fun store claim => (tables_upsertClaim store claim).symm,
    List.foldl_hom tables fun store outpoint => (tables_deleteSupport store outpoint).symm,
    List.foldl_hom tables fun store support => (tables_upsertSupport store support).symm,
    List.foldl_hom tables fun store row => (tables_putTakeover store row).symm]
  exact congrArg (fun cursors => Tables.mk _ _ _ cursors) (map_insert _ _ _ Column.ofWord)

/-! ## Loading -/

theorem lastSynced_tables (store : RowStore) : store.tables.lastSynced = store.lastSynced := by
  rw [Tables.lastSynced, lastSynced, tables, values_eq_map_toList, values_eq_map_toList,
    Std.ExtTreeMap.toList_map, List.map_map]
  have columns : store.cursors.toList.map (Prod.snd ∘ fun row => (row.1, Column.ofWord row.2)) =
      (store.cursors.toList.map Prod.snd).map Column.ofWord := by
    rw [List.map_map]
    rfl
  rw [columns]
  cases store.cursors.toList.map Prod.snd with
  | nil => rfl
  | cons height more =>
    have largest : (more.map Column.ofWord).foldl max (Column.ofWord height) =
        Column.ofWord (more.foldl max height) := by
      rw [List.foldl_map]
      exact List.foldl_hom Column.ofWord Column.max_ofWord
    rw [List.map_cons, List.max?_cons', List.max?_cons', largest, Option.map_some,
      Column.lowWord_ofWord]

/-- Reading back a table whose rows were written reads its values. -/
theorem mapM_columns {α β γ ρ : Type} [Ord α] [Std.TransOrd α] [Std.LawfulEqOrd α]
    (map : Std.ExtTreeMap α β) (write : β → γ) (read : α × γ → Option ρ) (row : α × β → ρ)
    (undoes : ∀ (key : α) (value : β), map[key]? = some value →
      read (key, write value) = some (row (key, value))) :
    (map.map fun _ => write).toList.mapM read = some (map.toList.map row) := by
  have each : ∀ entry ∈ map.toList, read (entry.1, write entry.2) = some (row entry) :=
    fun entry listed => undoes entry.1 entry.2
      (Std.ExtTreeMap.mem_toList_iff_getElem?_eq_some.mp listed)
  rw [Std.ExtTreeMap.toList_map, List.mapM_map]
  generalize map.toList = entries at each
  induction entries with
  | nil => rfl
  | cons entry more ih =>
    rw [List.mapM_cons, Function.comp_apply, each entry List.mem_cons_self,
      ih fun entry listed => each entry (List.mem_cons_of_mem _ listed)]
    rfl

section Load

variable (store : RowStore)
variable (claim_hash : ∀ {hash : ClaimHash} {claim : Claim},
  store.claims[hash]? = some claim → claim.hash = hash)
variable (support_outpoint : ∀ {outpoint : OutPoint} {support : Support},
  store.supports[outpoint]? = some support → support.outpoint = outpoint)

include claim_hash in
theorem mapM_claim?_tables :
    (store.tables.claims.toList.mapM fun (hash, row) => row.claim? hash) =
      some store.claims.values := by
  rw [values_eq_map_toList]
  apply mapM_columns store.claims Claim.columns
  intro hash claim found
  rw [← claim_hash found]
  exact claim.claim?_columns

include support_outpoint in
theorem mapM_support?_tables :
    (store.tables.supports.toList.mapM fun (outpoint, row) => row.support? outpoint) =
      some store.supports.values := by
  rw [values_eq_map_toList]
  apply mapM_columns store.supports Support.columns
  intro outpoint support found
  rw [← support_outpoint found]
  exact support.support?_columns

theorem mapM_takeover?_tables :
    (store.tables.takeovers.toList.mapM fun (name, row) =>
      row.takeover?.map fun takeover => (name, takeover)) = some store.takeovers.toList := by
  rw [← List.map_id store.takeovers.toList]
  apply mapM_columns store.takeovers Takeover.columns
  intro name takeover _
  simp only [takeover.takeover?_columns, Option.map_some, id]

include claim_hash support_outpoint in
/-- Loading the tables of a store gives its rows, as long as each row stands
under its own key. -/
theorem load_tables : store.tables.load = some store.snapshot := by
  rw [Tables.load, store.mapM_claim?_tables claim_hash,
    store.mapM_support?_tables support_outpoint, store.mapM_takeover?_tables]
  simp only [Option.bind_eq_bind, Option.bind_some, lastSynced_tables, snapshot, listClaims,
    listSupports, List.filter_true]
  rfl

end Load

end RowStore

end ClaimLedger
