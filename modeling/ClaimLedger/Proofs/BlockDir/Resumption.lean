/-
# Scans that take up where others stopped

A scan that succeeds has found records, up to a place where it pauses; what is in front of
that place is those records and nothing else. Hence the next scan, which begins there,
finds what is behind them, and its entries have the places that a scan of the whole file
would give them. `Knows` says what an index has after any such scans: the records of each
file up to where the scan is, and no blocks besides. It needs no record to be found once.
The first scan of a directory is the case of an index that knows nothing, and a scan that has
caught up with the directory leaves the index as it is.
-/

import Mathlib.Logic.Function.Basic
import Mathlib.Tactic.Convert
import ClaimLedger.Proofs.BlockDir.Records

namespace ClaimLedger

theorem Bytes.length_lt_of_splitExact?_eq_none {n : Nat} {bytes : Bytes}
    (uncut : splitExact? n bytes = none) : bytes.length < n := by
  by_contra enough
  have cut : splitExact? n bytes = some (bytes.take n, bytes.drop n) :=
    splitExact?_eq_some_iff.mpr ⟨(List.take_append_drop n bytes).symm,
      List.length_take_of_le (Nat.not_lt.mp enough)⟩
  cases uncut.symm.trans cut

namespace RecordHead

variable {magic data block rest : Bytes} {offset : Nat}

/-- The front of a record is a marker and a length. -/
theorem exists_length_of_lead {head : Bytes} (isLead : head.length = lead) :
    ∃ length : UInt32, Bytes.toNatLE (head.drop 4) = length.toNat ∧
      head = head.take 4 ++ Encode.word length := by
  have four : (head.drop 4).length = 4 := by
    rw [List.length_drop, isLead, lead]
  have fits : Bytes.toNatLE (head.drop 4) < 0x100000000 := by
    have bound := Bytes.toNatLE_lt (head.drop 4)
    rwa [four] at bound
  have number : (UInt32.ofNat (Bytes.toNatLE (head.drop 4))).toNat =
      Bytes.toNatLE (head.drop 4) := UInt32.toNat_ofNat_of_lt fits
  have field : Encode.word (UInt32.ofNat (Bytes.toNatLE (head.drop 4))) = head.drop 4 := by
    rw [Encode.word, number]
    conv_rhs => rw [← Bytes.ofNatLE_toNatLE (head.drop 4), four]
  exact ⟨_, number.symm, by rw [field, List.take_append_drop]⟩

/-- A record is found where one is written. -/
theorem eq_of_ofBytes (found : ofBytes magic offset data = .record block rest) :
    IsMarker magic ∧ block.length < 0x100000000 ∧
      data = encode magic (UInt32.ofNat block.length) block ++ rest := by
  rw [ofBytes] at found
  split at found
  · cases found
  · next head tail cut =>
    obtain ⟨rfl, isLead⟩ := Bytes.splitExact?_eq_some_iff.mp cut
    obtain ⟨length, isLength, isHead⟩ := exists_length_of_lead isLead
    simp only at found
    split at found
    · cases found
    · next notZeros =>
      split at found
      · cases found
      · next isMagic =>
        rw [not_not.mp isMagic] at isHead notZeros
        split at found
        · cases found
        · next body left cut' =>
          obtain ⟨rfl, whole⟩ := Bytes.splitExact?_eq_some_iff.mp cut'
          split at found
          · cases found
          · cases found
            have field : UInt32.ofNat block.length = length := by
              rw [whole, isLength, UInt32.ofNat_toNat]
            refine ⟨⟨?_, notZeros⟩, ?_, ?_⟩
            · rw [← not_not.mp isMagic, List.length_take, isLead]
              rfl
            · rw [whole, isLength]
              exact length.toNat_lt
            · rw [encode, field, ← isHead, List.append_assoc]

/-- Where the scan pauses, there is what may be behind the last record. -/
theorem isTail_of_ofBytes (pauses : ofBytes magic offset rest = pause) : IsTail magic rest := by
  rw [ofBytes] at pauses
  split at pauses
  · next uncut => exact .short (Bytes.length_lt_of_splitExact?_eq_none uncut)
  · next head tail cut =>
    obtain ⟨rfl, isLead⟩ := Bytes.splitExact?_eq_some_iff.mp cut
    obtain ⟨length, isLength, isHead⟩ := exists_length_of_lead isLead
    simp only at pauses
    split at pauses
    · next isZeros =>
      rw [isHead, isZeros, List.append_assoc]
      exact .zeros
    · split at pauses
      · cases pauses
      · next isMagic =>
        split at pauses
        · next uncut =>
          rw [isHead, not_not.mp isMagic]
          rw [isLength] at uncut
          exact .unfinished (Bytes.length_lt_of_splitExact?_eq_none uncut)
        · split at pauses
          · cases pauses
          · cases pauses

end RecordHead

theorem Record.room_cons (record : Record) (more : List Record) :
    room (record :: more) = RecordHead.lead + record.bytes.length + room more := by
  rw [room, room, List.map_cons, List.sum_cons]

namespace BlockIndex

variable {magic data : Bytes} {file : UInt32} {offset stop : Nat}

theorem exists_record_of_locate {block : Bytes} {entry : BlockHash × Location}
    (fits : block.length < 0x100000000) (located : locate file offset block = .ok entry) :
    ∃ record : Record, record.bytes = block := by
  cases announced : Block.announced block with
  | error cause =>
    rw [locate, announced] at located
    cases located
  | ok result =>
    obtain ⟨header, count, rest⟩ := result
    exact ⟨⟨block, header, count, rest, announced, fits⟩, rfl⟩

/-- A scan that succeeds has found the records up to where it pauses. -/
theorem exists_records_of_scanRecords
    (scans : (scanRecords magic file offset data).2 = .ok stop) :
    ∃ records rest, (records ≠ [] → IsMarker magic) ∧
      data = records.flatMap (Record.encode magic) ++ rest ∧
      RecordHead.ofBytes magic (offset + Record.room records) rest = .pause := by
  induction h : data.length using Nat.strong_induction_on generalizing data offset with
  | _ n ih =>
    subst h
    rw [scanRecords] at scans
    split at scans
    · next pauses => exact ⟨[], data, fun some => absurd rfl some, rfl, pauses⟩
    · cases scans
    · next block left isRecord =>
      obtain ⟨isMarker, fits, rfl⟩ := RecordHead.eq_of_ofBytes isRecord
      split at scans
      · cases scans
      · next entry located =>
        obtain ⟨record, rfl⟩ := exists_record_of_locate fits located
        have shorter : left.length <
            (RecordHead.encode magic (UInt32.ofNat record.bytes.length) record.bytes ++
              left).length := RecordHead.length_rest_lt isRecord
        obtain ⟨more, rest, -, rfl, pauses⟩ := ih _ shorter scans rfl
        refine ⟨record :: more, rest, fun _ => isMarker, ?_, ?_⟩
        · rw [List.flatMap_cons, List.append_assoc]
          rfl
        · rwa [Record.room_cons, ← Nat.add_assoc, ← Nat.add_assoc]

/-- Records in front of a pause are found, and the scan stops there. -/
theorem scanRecords_of_records {records : List Record} {rest : Bytes}
    (isMarker : records ≠ [] → IsMarker magic)
    (pauses : RecordHead.ofBytes magic (offset + Record.room records) rest = .pause) :
    scanRecords magic file offset (records.flatMap (Record.encode magic) ++ rest) =
      (Record.entries file offset records, .ok (offset + Record.room records)) := by
  cases records with
  | nil => exact scanRecords_of_pause pauses
  | cons record more =>
    rw [scanRecords_append (isMarker (List.cons_ne_nil _ _)), scanRecords_of_pause pauses,
      List.append_nil]

end BlockIndex

namespace Record

variable {magic : Bytes} {records : List Record}

theorem room_append (records more : List Record) :
    room (records ++ more) = room records + room more := by
  rw [room, List.map_append, List.sum_append]
  rfl

theorem eq_nil_of_room_eq_zero (isZero : room records = 0) : records = [] := by
  cases records with
  | nil => rfl
  | cons record more =>
    rw [room_cons, RecordHead.lead] at isZero
    omega

theorem entries_append (file : UInt32) (offset : Nat) (records more : List Record) :
    entries file offset (records ++ more) =
      entries file offset records ++ entries file (offset + room records) more := by
  induction records generalizing offset with
  | nil => rfl
  | cons record records ih =>
    rw [List.cons_append, entries, ih, room_cons, Nat.add_assoc]
    rfl

theorem length_eq_room (isMarker : records ≠ [] → IsMarker magic) :
    (records.flatMap (encode magic)).length = room records := by
  cases records with
  | nil => rfl
  | cons record more => exact length_flatMap_encode (isMarker (List.cons_ne_nil _ _)) _

theorem drop_room (isMarker : records ≠ [] → IsMarker magic) (rest : Bytes) :
    (records.flatMap (encode magic) ++ rest).drop (room records) = rest := by
  rw [← length_eq_room isMarker, List.drop_left]

theorem take_room (isMarker : records ≠ [] → IsMarker magic) (rest : Bytes) :
    (records.flatMap (encode magic) ++ rest).take (room records) =
      records.flatMap (encode magic) := by
  rw [← length_eq_room isMarker, List.take_left]

theorem mem_entries_hash {file : UInt32} {offset : Nat} {hash : BlockHash} :
    (∃ entry ∈ entries file offset records, entry.1 = hash) ↔
      ∃ record ∈ records, record.hash = hash := by
  induction records generalizing offset with
  | nil => simp [entries]
  | cons record more ih =>
    simp only [entries, List.mem_cons, exists_eq_or_imp, ih]
    rfl

/-- A record is known by its bytes. -/
theorem eq_of_bytes {record record' : Record} (same : record.bytes = record'.bytes) :
    record = record' := by
  obtain ⟨bytes, header, count, rest, announced, fits⟩ := record
  obtain ⟨bytes', header', count', rest', announced', fits'⟩ := record'
  cases same
  cases announced.symm.trans announced'
  rfl

/-- There is one way to read the contents of a file as records. -/
theorem eq_of_flatMap_encode (isMarker : IsMarker magic) {records' : List Record}
    {rest rest' : Bytes} (isTail : IsTail magic rest) (isTail' : IsTail magic rest')
    (same : records.flatMap (encode magic) ++ rest = records'.flatMap (encode magic) ++ rest') :
    records = records' := by
  have head (record : Record) (more : List Record) (rest : Bytes) :
      RecordHead.ofBytes magic 0 ((record :: more).flatMap (encode magic) ++ rest) =
        .record record.bytes (more.flatMap (encode magic) ++ rest) := by
    rw [List.flatMap_cons, List.append_assoc]
    exact RecordHead.ofBytes_encode isMarker record _
  induction records generalizing records' with
  | nil =>
    cases records' with
    | nil => rfl
    | cons record more =>
      have found := head record more rest'
      rw [← same] at found
      cases (RecordHead.ofBytes_of_isTail isMarker isTail).symm.trans found
  | cons record more ih =>
    have found := head record more rest
    cases records' with
    | nil =>
      rw [same] at found
      cases (RecordHead.ofBytes_of_isTail isMarker isTail').symm.trans found
    | cons record' more' =>
      rw [same, head, RecordHead.record.injEq] at found
      rw [eq_of_bytes found.1.symm, ih found.2.symm]

/-- The block file holds these records, and the scan pauses behind them. -/
def Fill (magic : Bytes) (files : Std.ExtTreeMap String Bytes) (file : UInt32)
    (records : List Record) : Prop :=
  (records ≠ [] → IsMarker magic) ∧
    ∃ rest, RecordHead.ofBytes magic (room records) rest = .pause ∧
      Directory.contents? (some files) file = some (records.flatMap (encode magic) ++ rest)

end Record

namespace BlockIndex

variable {magic : Bytes} {files : Std.ExtTreeMap String Bytes}
variable {records : UInt32 → List Record} {index next : BlockIndex} {file : UInt32}
variable {known all : List Record} {count : Nat}

/-- Files that are scanned without a failure are so one after the other. -/
theorem scanFiles_cons_eq_ok {directory : Directory} {more : List UInt32}
    (scans : scanFiles directory magic (file :: more) index = (next, .ok count)) :
    ∃ between first rest, scanFile directory magic index file = (between, .ok first) ∧
      scanFiles directory magic more between = (next, .ok rest) := by
  rw [scanFiles] at scans
  split at scans
  · cases scans
  · next between first isFirst =>
    cases isMore : scanFiles directory magic more between with
    | mk last result =>
      rw [isMore] at scans
      cases result with
      | error failure => cases scans
      | ok rest =>
        cases scans
        exact ⟨between, first, rest, isFirst, isMore⟩

/-- A scan that succeeds has scanned all files, and links the index if they gave it blocks. -/
theorem rescan_eq_ok (scans : rescan (some files) magic index = (next, .ok ())) :
    ∃ last count,
      scanFiles (some files) magic (Directory.blockFiles files) index = (last, .ok count) ∧
      next = if 0 < count then last.relink else last := by
  rw [rescan] at scans
  split at scans
  · cases scans
  · next last count isScan =>
    cases scans
    exact ⟨last, count, isScan, rfl⟩

/-- The index has scanned these records of a block file, and knows them. -/
structure KnowsFile (magic : Bytes) (files : Std.ExtTreeMap String Bytes) (index : BlockIndex)
    (file : UInt32) (records : List Record) : Prop where
  isMarker : records ≠ [] → IsMarker magic
  scanned : index.scanned[file]?.getD 0 = Record.room records
  contents : ∀ n, index.scanned[file]? = some n → ∃ rest,
    Directory.contents? (some files) file = some (records.flatMap (Record.encode magic) ++ rest)
  known : ∀ record ∈ records, record.hash ∈ index.blocks

/-- A scan stops behind a record. -/
theorem KnowsFile.eq_room {n : Nat} (knows : KnowsFile magic files index file known)
    (isScanned : index.scanned[file]? = some n) : n = Record.room known := by
  rw [← knows.scanned, isScanned, Option.getD_some]

/-- The index has scanned these records of the block files, and knows nothing else. -/
structure Knows (magic : Bytes) (files : Std.ExtTreeMap String Bytes)
    (records : UInt32 → List Record) (index : BlockIndex) : Prop where
  inFile : ∀ file, KnowsFile magic files index file (records file)
  located : ∀ hash location, index.blocks[hash]? = some location →
    ∃ file, (hash, location) ∈ Record.entries file 0 (records file)

theorem knows_empty : Knows magic files (fun _ => []) {} where
  inFile _ := ⟨fun some => absurd rfl some, rfl, fun _ => by rintro ⟨⟩, fun _ => by rintro ⟨⟩⟩
  located _ _ := by rintro ⟨⟩

/-- Linking changes nothing of this. -/
theorem Knows.relink (knows : Knows magic files records index) :
    Knows magic files records index.relink where
  inFile file :=
    have inFile := knows.inFile file
    ⟨inFile.isMarker, inFile.scanned, inFile.contents, inFile.known⟩
  located := knows.located

/-- What a scan makes of a file that holds more records: it brings in their entries, and stops
behind them. -/
theorem scanFile_eq {more : List Record} (knows : KnowsFile magic files index file known)
    (fill : Record.Fill magic files file (known ++ more)) :
    scanFile (some files) magic index file =
      ({ index.remember (Record.entries file (Record.room known) more) with
        scanned := index.scanned.insert file (Record.room (known ++ more)) },
        .ok (Record.entries file (Record.room known) more).length) := by
  obtain ⟨isMarker, rest, pauses, contents⟩ := fill
  have behind : more ≠ [] → IsMarker magic := fun some => isMarker (by simp [some])
  rw [Record.room_append] at pauses
  have scans : scanRecords magic file (Record.room known)
      (((known ++ more).flatMap (Record.encode magic) ++ rest).drop (Record.room known)) =
      (Record.entries file (Record.room known) more,
        .ok (Record.room known + Record.room more)) := by
    rw [List.flatMap_append, List.append_assoc, Record.drop_room knows.isMarker]
    exact scanRecords_of_records behind pauses
  rw [scanFile, contents, Record.room_append]
  simp only [knows.scanned, scans]
  rfl

/-- A file that holds more records is scanned to its last one. -/
theorem scanFile_of_fill (knows : Knows magic files records index)
    (longer : records file <+: all) (fill : Record.Fill magic files file all) :
    ∃ next count, scanFile (some files) magic index file = (next, .ok count) ∧
      Knows magic files (Function.update records file all) next := by
  obtain ⟨more, rfl⟩ := longer
  refine ⟨_, _, scanFile_eq (knows.inFile file) fill, fun other => ?_,
    fun hash location found => ?_⟩
  · have keeps {hash : BlockHash} (before : hash ∈ index.blocks) : hash ∈ (index.remember
        (Record.entries file (Record.room (records file)) more)).blocks :=
      mem_foldl_insert.mpr (.inr before)
    rcases eq_or_ne other file with rfl | different
    · obtain ⟨isMarker, rest, -, contents⟩ := fill
      rw [Function.update_self]
      refine ⟨isMarker, ?_, fun _ _ => ⟨rest, contents⟩, fun record listed => ?_⟩
      · rw [Std.ExtTreeMap.getElem?_insert_self, Option.getD_some]
      · rcases List.mem_append.mp listed with before | added
        · exact keeps ((knows.inFile other).known record before)
        · exact mem_foldl_insert.mpr (.inl (Record.mem_entries_hash.mpr ⟨record, added, rfl⟩))
    · have same := getElem?_insert_of_ne index.scanned (Record.room (records file ++ more))
        different.symm
      have before := knows.inFile other
      rw [Function.update_of_ne different]
      exact ⟨before.isMarker, same ▸ before.scanned, same ▸ before.contents,
        fun record listed => keeps (before.known record listed)⟩
  · rcases mem_or_getElem?_of_foldl_insert found with added | before
    · refine ⟨file, ?_⟩
      rw [Function.update_self, Record.entries_append, Nat.zero_add]
      exact List.mem_append_right _ added
    · obtain ⟨other, listed⟩ := knows.located hash location before
      refine ⟨other, ?_⟩
      rcases eq_or_ne other file with rfl | different
      · rw [Function.update_self, Record.entries_append]
        exact List.mem_append_left _ listed
      · rwa [Function.update_of_ne different]

/-- A file that is scanned without a failure holds records up to some pause. -/
theorem exists_fill_of_scanFile (knows : KnowsFile magic files index file known)
    (scans : scanFile (some files) magic index file = (next, .ok count)) :
    ∃ all, known <+: all ∧ Record.Fill magic files file all := by
  rw [scanFile] at scans
  split at scans
  · cases scans
  · next contents isFile =>
    have front : ∃ rest, contents = known.flatMap (Record.encode magic) ++ rest := by
      cases isScanned : index.scanned[file]? with
      | none =>
        have isZero : 0 = Record.room known := by
          rw [← knows.scanned, isScanned]
          rfl
        rw [Record.eq_nil_of_room_eq_zero isZero.symm]
        exact ⟨contents, rfl⟩
      | some n =>
        obtain ⟨rest, known⟩ := knows.contents n isScanned
        exact ⟨rest, Option.some.inj (isFile.symm.trans known)⟩
    obtain ⟨rest, rfl⟩ := front
    simp only [knows.scanned, Record.drop_room knows.isMarker] at scans
    cases result : (scanRecords magic file (Record.room known) rest).2 with
    | error reason =>
      rw [result] at scans
      cases scans
    | ok stop =>
      obtain ⟨more, left, isMarker, rfl, pauses⟩ := exists_records_of_scanRecords result
      refine ⟨known ++ more, List.prefix_append _ _, fun some => ?_, left, ?_, ?_⟩
      · rcases eq_or_ne known [] with rfl | some'
        · exact isMarker some
        · exact knows.isMarker some'
      · rwa [Record.room_append]
      · rw [isFile, List.flatMap_append, List.append_assoc]

/-- Files that hold more records are scanned to their last ones. -/
theorem scanFiles_of_fill {more : List UInt32} {all : UInt32 → List Record}
    (knows : Knows magic files records index)
    (longer : ∀ file ∈ more, records file <+: all file)
    (fill : ∀ file ∈ more, Record.Fill magic files file (all file)) :
    ∃ next count, scanFiles (some files) magic more index = (next, .ok count) ∧
      Knows magic files (fun file => if file ∈ more then all file else records file) next := by
  induction more generalizing records index with
  | nil => exact ⟨index, 0, rfl, by simpa using knows⟩
  | cons file more ih =>
    obtain ⟨between, count, scans, knows'⟩ := scanFile_of_fill knows
      (longer file List.mem_cons_self) (fill file List.mem_cons_self)
    obtain ⟨next, count', scans', knows''⟩ := ih knows' (fun other listed => by
      rcases eq_or_ne other file with rfl | different
      · simp only [Function.update_self, List.prefix_rfl]
      · rw [Function.update_of_ne different]
        exact longer other (List.mem_cons_of_mem file listed))
      fun other listed => fill other (List.mem_cons_of_mem file listed)
    refine ⟨next, count + count', ?_, ?_⟩
    · rw [scanFiles, scans]
      simp only [scans']
      rfl
    · convert knows'' using 2 with other
      rcases eq_or_ne other file with rfl | different
      · simp
      · simp [different]

/-- Files that are scanned without a failure hold records up to some pauses. -/
theorem exists_fill_of_scanFiles {more : List UInt32} (knows : Knows magic files records index)
    (scans : scanFiles (some files) magic more index = (next, .ok count)) :
    ∃ all, Knows magic files all next ∧ (∀ file ∈ more, Record.Fill magic files file (all file)) ∧
      ∀ file ∉ more, all file = records file := by
  induction more generalizing records index count with
  | nil =>
    cases scans
    exact ⟨records, knows, by simp, fun _ _ => rfl⟩
  | cons file more ih =>
    obtain ⟨between, first, rest, isFirst, isMore⟩ := scanFiles_cons_eq_ok scans
    obtain ⟨held, longer, fill⟩ := exists_fill_of_scanFile (knows.inFile file) isFirst
    obtain ⟨_, _, isFirst', knows'⟩ := scanFile_of_fill knows longer fill
    cases isFirst.symm.trans isFirst'
    obtain ⟨all, knows'', fills, same⟩ := ih knows' isMore
    refine ⟨all, knows'', fun other listed => ?_, fun other unlisted => ?_⟩
    · by_cases again : other ∈ more
      · exact fills other again
      · obtain rfl := (List.mem_cons.mp listed).resolve_right again
        rw [same other again, Function.update_self]
        exact fill
    · rw [List.mem_cons, not_or] at unlisted
      obtain ⟨different, unlisted⟩ := unlisted
      rw [same other unlisted, Function.update_of_ne different]

/-- A scan that succeeds brings the records of all block files into the index. -/
theorem exists_fill_of_rescan (knows : Knows magic files records index)
    (scans : rescan (some files) magic index = (next, .ok ())) :
    ∃ all, Knows magic files all next ∧
      (∀ file ∈ Directory.blockFiles files, Record.Fill magic files file (all file)) ∧
      ∀ file ∉ Directory.blockFiles files, all file = records file := by
  obtain ⟨last, count, isScan, rfl⟩ := rescan_eq_ok scans
  obtain ⟨all, knows', fills, same⟩ := exists_fill_of_scanFiles knows isScan
  refine ⟨all, ?_, fills, same⟩
  split
  · exact knows'.relink
  · exact knows'

/-- The records that the block files hold are found from wherever the scans have stopped, in
a new index from the beginning. -/
theorem rescan_of_fill {all : UInt32 → List Record} (knows : Knows magic files records index)
    (longer : ∀ file ∈ Directory.blockFiles files, records file <+: all file)
    (fill : ∀ file ∈ Directory.blockFiles files, Record.Fill magic files file (all file))
    (inFiles : ∀ file ∉ Directory.blockFiles files, all file = records file) :
    ∃ next, rescan (some files) magic index = (next, .ok ()) ∧ Knows magic files all next := by
  obtain ⟨last, count, isScan, knows⟩ := scanFiles_of_fill knows longer fill
  have every : (fun file => if file ∈ Directory.blockFiles files then all file else
      records file) = all := by
    funext file
    split
    · rfl
    · next unlisted => exact (inFiles file unlisted).symm
  rw [every] at knows
  rw [rescan, isScan]
  refine ⟨_, rfl, ?_⟩
  split
  · exact knows.relink
  · exact knows

/-! ## Scans that find nothing -/

theorem mem_scanned_of_scanFile {directory : Directory} {other : UInt32}
    (scans : scanFile directory magic index file = (next, .ok count)) :
    other ∈ next.scanned ↔ file = other ∨ other ∈ index.scanned := by
  rw [scanFile] at scans
  split at scans
  · cases scans
  · simp only at scans
    split at scans
    · cases scans
    · cases scans
      show other ∈ index.scanned.insert file _ ↔ _
      rw [Std.ExtTreeMap.mem_insert, Std.compare_eq_iff_eq]

/-- Scans that succeed have been through all of their files. -/
theorem mem_scanned_of_scanFiles {directory : Directory} {more : List UInt32}
    (scans : scanFiles directory magic more index = (next, .ok count)) :
    file ∈ next.scanned ↔ file ∈ more ∨ file ∈ index.scanned := by
  induction more generalizing index count with
  | nil =>
    cases scans
    simp
  | cons first more ih =>
    obtain ⟨between, _, _, isFirst, isMore⟩ := scanFiles_cons_eq_ok scans
    rw [ih isMore, mem_scanned_of_scanFile isFirst, List.mem_cons, eq_comm, or_left_comm, or_assoc]

theorem mem_scanned_of_rescan (scans : rescan (some files) magic index = (next, .ok ()))
    (listed : file ∈ Directory.blockFiles files) : file ∈ next.scanned := by
  obtain ⟨last, count, isScan, rfl⟩ := rescan_eq_ok scans
  have reached : file ∈ last.scanned := (mem_scanned_of_scanFiles isScan).mpr (.inl listed)
  split
  · exact reached
  · exact reached

/-- A file that was scanned to its last record has nothing more. -/
theorem scanFile_again (knows : KnowsFile magic files index file known)
    (scanned : file ∈ index.scanned) (fill : Record.Fill magic files file known) :
    scanFile (some files) magic index file = (index, .ok 0) := by
  have found := Std.ExtTreeMap.getElem?_eq_some_getElem scanned
  rw [knows.eq_room found] at found
  have nothing := scanFile_eq knows ((List.append_nil known).symm ▸ fill)
  rw [List.append_nil, insert_of_getElem?_eq_some found] at nothing
  exact nothing

theorem scanFiles_again {more : List UInt32} (knows : Knows magic files records index)
    (scanned : ∀ file ∈ more, file ∈ index.scanned)
    (fill : ∀ file ∈ more, Record.Fill magic files file (records file)) :
    scanFiles (some files) magic more index = (index, .ok 0) := by
  induction more with
  | nil => rfl
  | cons file more ih =>
    have later := ih (fun other listed => scanned other (List.mem_cons_of_mem file listed))
      fun other listed => fill other (List.mem_cons_of_mem file listed)
    rw [scanFiles, scanFile_again (knows.inFile file) (scanned file List.mem_cons_self)
      (fill file List.mem_cons_self)]
    simp only [later]
    rfl

/-- When the scans have caught up with the directory, the next one leaves the index as it is. -/
theorem rescan_again (knows : Knows magic files records index)
    (scanned : ∀ file ∈ Directory.blockFiles files, file ∈ index.scanned)
    (fill : ∀ file ∈ Directory.blockFiles files, Record.Fill magic files file (records file)) :
    rescan (some files) magic index = (index, .ok ()) := by
  rw [rescan, scanFiles_again knows scanned fill]
  rfl

end BlockIndex

end ClaimLedger
