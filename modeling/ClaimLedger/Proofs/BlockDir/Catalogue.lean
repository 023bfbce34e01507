/-
# What a scan leaves in the index

A directory whose files hold records is scanned without a failure: for the index of a new
source, all of them are still to come. Afterwards the index has an entry for every record, by
which the bytes of its block are found again, and none besides; its links are those of these
blocks. The scan is at the end of every file then, so scanning the same directory again changes
nothing.
-/

import ClaimLedger.Proofs.BlockDir.Rescans
import ClaimLedger.Proofs.BlockDir.Resumption

namespace ClaimLedger

/-- The block files hold these records. -/
structure Directory.Holds (magic : Bytes) (files : Std.ExtTreeMap String Bytes)
    (records : UInt32 → List Record) : Prop where
  contents : ∀ file ∈ blockFiles files, ∃ rest, IsTail magic rest ∧
    contents? (some files) file = some ((records file).flatMap (Record.encode magic) ++ rest)
  inFiles : ∀ file, file ∉ blockFiles files → records file = []

/-- The records of a directory are what its block files say. -/
theorem Directory.Holds.unique {magic : Bytes} {files : Std.ExtTreeMap String Bytes}
    {records records' : UInt32 → List Record} (isMarker : IsMarker magic)
    (holds : Holds magic files records) (holds' : Holds magic files records') :
    records = records' := by
  funext file
  by_cases listed : file ∈ blockFiles files
  · obtain ⟨rest, isTail, contents⟩ := holds.contents file listed
    obtain ⟨rest', isTail', contents'⟩ := holds'.contents file listed
    exact Record.eq_of_flatMap_encode isMarker isTail isTail'
      (Option.some.inj (contents.symm.trans contents'))
  · rw [holds.inFiles file listed, holds'.inFiles file listed]

/-- A scan of a file pauses behind its records. -/
theorem Directory.Holds.fill {magic : Bytes} {files : Std.ExtTreeMap String Bytes}
    {records : UInt32 → List Record} (holds : Holds magic files records)
    (isMarker : IsMarker magic) {file : UInt32} (listed : file ∈ blockFiles files) :
    Record.Fill magic files file (records file) := by
  obtain ⟨rest, isTail, contents⟩ := holds.contents file listed
  exact ⟨fun _ => isMarker, rest, RecordHead.ofBytes_of_isTail isMarker isTail, contents⟩

/-- No two records hold blocks of one hash. -/
def Record.Distinct (records : UInt32 → List Record) : Prop :=
  ∀ {file file' : UInt32} {i i' : Nat} {record record' : Record},
    (records file)[i]? = some record → (records file')[i']? = some record' →
      record.hash = record'.hash → file = file' ∧ i = i'

namespace BlockIndex

variable {magic : Bytes} {files : Std.ExtTreeMap String Bytes} {records : UInt32 → List Record}
variable {index : BlockIndex}

theorem Knows.mem_blocks_iff {hash : BlockHash} (knows : Knows magic files records index) :
    hash ∈ index.blocks ↔ ∃ file, ∃ record ∈ records file, record.hash = hash := by
  constructor
  · intro listed
    obtain ⟨file, isEntry⟩ := knows.located hash _ (Std.ExtTreeMap.getElem?_eq_some_getElem listed)
    exact ⟨file, Record.mem_entries_hash.mp ⟨_, isEntry, rfl⟩⟩
  · rintro ⟨file, record, listed, rfl⟩
    exact (knows.inFile file).known record listed

theorem Knows.exists_record {hash : BlockHash} {location : Location}
    (knows : Knows magic files records index) (found : index.blocks[hash]? = some location) :
    ∃ (file : UInt32) (i : Nat) (record : Record), (records file)[i]? = some record ∧
      record.entry file (Record.place (records file) i) = (hash, location) := by
  obtain ⟨file, listed⟩ := knows.located hash location found
  obtain ⟨i, isEntry⟩ := List.mem_iff_getElem?.mp listed
  rw [Record.getElem?_entries, Option.map_eq_some_iff, Nat.zero_add] at isEntry
  obtain ⟨record, isRecord, isEntry⟩ := isEntry
  exact ⟨file, i, record, isRecord, isEntry⟩

/-- The index says where the records are, and is linked. -/
structure Catalogues (index : BlockIndex) (records : UInt32 → List Record) : Prop where
  blocks : ∀ hash location, index.blocks[hash]? = some location ↔
    ∃ (file : UInt32) (i : Nat) (record : Record), (records file)[i]? = some record ∧
      record.entry file (Record.place (records file) i) = (hash, location)
  isLinked : index.IsLinked

/-- Where no two records hold blocks of one hash, no record takes the place of another one. -/
theorem Knows.catalogues (knows : Knows magic files records index)
    (distinct : Record.Distinct records) (isLinked : index.IsLinked) :
    index.Catalogues records where
  blocks hash location := by
    constructor
    · exact knows.exists_record
    · rintro ⟨file, i, record, found, isEntry⟩
      have isHash : record.hash = hash := congrArg Prod.fst isEntry
      have listed : hash ∈ index.blocks :=
        knows.mem_blocks_iff.mpr ⟨file, record, List.mem_of_getElem? found, isHash⟩
      have isBlock := Std.ExtTreeMap.getElem?_eq_some_getElem listed
      obtain ⟨file', i', record', found', isEntry'⟩ := knows.exists_record isBlock
      have isHash' : record'.hash = hash := congrArg Prod.fst isEntry'
      obtain ⟨rfl, rfl⟩ := distinct found found' (isHash.trans isHash'.symm)
      cases found.symm.trans found'
      rw [isBlock, (Prod.mk.inj (isEntry'.symm.trans isEntry)).2]
  isLinked := isLinked

/-- The first scan of a directory brings the records into the index, and the next
one has nothing to do. -/
theorem rescan_of_holds (isMarker : IsMarker magic) (holds : Directory.Holds magic files records)
    (distinct : Record.Distinct records) :
    ∃ index, rescan (some files) magic {} = (index, .ok ()) ∧ index.Catalogues records ∧
      rescan (some files) magic index = (index, .ok ()) := by
  have fill (file : UInt32) (listed : file ∈ Directory.blockFiles files) :
      Record.Fill magic files file (records file) := holds.fill isMarker listed
  obtain ⟨index, scans, knows⟩ :=
    rescan_of_fill knows_empty (fun file _ => List.nil_prefix) fill holds.inFiles
  have isLinked : index.IsLinked := (isLinked_of_no_blocks rfl rfl rfl).of_rescan scans
  exact ⟨index, scans, knows.catalogues distinct isLinked,
    rescan_again knows (fun _ => mem_scanned_of_rescan scans) fill⟩

end BlockIndex

end ClaimLedger
