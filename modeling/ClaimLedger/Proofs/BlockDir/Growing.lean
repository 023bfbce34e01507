/-
# A directory that grows

A source looks at its directory again and again. In between, files are added and extended,
and what was left of a file, zeros or an unfinished record, is written over; nothing that
was scanned changes. However the growth is cut into pieces, the index comes to know the same
records as that of a new source, which scans the final directory at once.
-/

import ClaimLedger.Proofs.BlockDir.Parents
import ClaimLedger.Proofs.BlockDir.Served

namespace ClaimLedger

namespace BlockIndex

variable {magic : Bytes} {files files' : Std.ExtTreeMap String Bytes}
variable {records : UInt32 → List Record} {index next : BlockIndex} {file : UInt32}

/-- Files were added or extended, and what the index has scanned of them was left alone. -/
structure Grows (index : BlockIndex) (files files' : Std.ExtTreeMap String Bytes) : Prop where
  kept : ∀ name ∈ files, name ∈ files'
  scanned : ∀ file n, index.scanned[file]? = some n →
    (Directory.contents? (some files') file).map (List.take n) =
      (Directory.contents? (some files) file).map (List.take n)

/-- The index after a new source has scanned a directory as often as it grew, each time
without a failure. -/
inductive Followed (magic : Bytes) : Std.ExtTreeMap String Bytes → BlockIndex → Prop
  | first {files : Std.ExtTreeMap String Bytes} {index : BlockIndex} :
      rescan (some files) magic {} = (index, .ok ()) → Followed magic files index
  | next {files files' : Std.ExtTreeMap String Bytes} {index index' : BlockIndex} :
      Followed magic files index → Grows index files files' →
      rescan (some files') magic index = (index', .ok ()) → Followed magic files' index'

theorem Grows.mem_blockFiles (grows : Grows index files files')
    (listed : file ∈ Directory.blockFiles files) : file ∈ Directory.blockFiles files' := by
  rw [Directory.blockFiles, List.mem_mergeSort, List.mem_filterMap] at listed ⊢
  obtain ⟨name, isName, isNumber⟩ := listed
  rw [Std.ExtTreeMap.mem_keys] at isName
  exact ⟨name, Std.ExtTreeMap.mem_keys.mpr (grows.kept name isName), isNumber⟩

/-- Growth leaves the records alone that were scanned. -/
theorem Knows.grows (knows : Knows magic files records index) (grows : Grows index files files') :
    Knows magic files' records index where
  inFile file := by
    have inFile := knows.inFile file
    refine ⟨inFile.isMarker, inFile.scanned, fun n isScanned => ?_, inFile.known⟩
    obtain ⟨rest, contents⟩ := inFile.contents n isScanned
    have front := grows.scanned file n isScanned
    rw [contents, inFile.eq_room isScanned, Option.map_some, Record.take_room inFile.isMarker,
      Option.map_eq_some_iff] at front
    obtain ⟨contents', isFile, front⟩ := front
    refine ⟨contents'.drop (Record.room (records file)), ?_⟩
    rw [isFile, ← front, List.take_append_drop]
  located := knows.located

/-- Whenever the scans have caught up with the directory, the index knows the records of
all of its block files, and its links are those of the blocks. -/
theorem Followed.knows (followed : Followed magic files index) :
    ∃ all, Knows magic files all index ∧
      (∀ file ∈ Directory.blockFiles files, Record.Fill magic files file (all file)) ∧
      (∀ file ∉ Directory.blockFiles files, all file = []) ∧ index.IsLinked := by
  induction followed with
  | first scans =>
    obtain ⟨all, knows, fills, same⟩ := exists_fill_of_rescan knows_empty scans
    exact ⟨all, knows, fills, same, (isLinked_of_no_blocks rfl rfl rfl).of_rescan scans⟩
  | next _ grows scans ih =>
    obtain ⟨records, knows, -, inFiles, isLinked⟩ := ih
    obtain ⟨all, knows', fills, same⟩ := exists_fill_of_rescan (knows.grows grows) scans
    refine ⟨all, knows', fills, fun file unlisted => ?_, isLinked.of_rescan scans⟩
    rw [same file unlisted]
    exact inFiles file fun listed => unlisted (grows.mem_blockFiles listed)

/-! ## The index that a new source would have -/

/-- Two indices that know the same records say the same of a block, as far as its records
agree about it. -/
theorem Knows.map_getElem?_eq {fresh : BlockIndex} {hash : BlockHash} {α : Type}
    (knows : Knows magic files records index) (knows' : Knows magic files records fresh)
    (view : Location → α)
    (agree : ∀ {file file' : UInt32} {i i' : Nat} {record record' : Record},
      (records file)[i]? = some record →
      (records file')[i']? = some record' → record.hash = hash → record'.hash = hash →
      view (record.entry file (Record.place (records file) i)).2 =
        view (record'.entry file' (Record.place (records file') i')).2) :
    index.blocks[hash]?.map view = fresh.blocks[hash]?.map view := by
  cases found : index.blocks[hash]? with
  | none =>
    cases found' : fresh.blocks[hash]? with
    | none => rfl
    | some location' =>
      have listed : hash ∈ fresh.blocks := Std.ExtTreeMap.mem_iff_isSome_getElem?.mpr (by
        rw [found']
        rfl)
      rw [knows'.mem_blocks_iff, ← knows.mem_blocks_iff, Std.ExtTreeMap.mem_iff_isSome_getElem?,
        found] at listed
      cases listed
  | some location =>
    have listed : hash ∈ index.blocks := Std.ExtTreeMap.mem_iff_isSome_getElem?.mpr (by
      rw [found]
      rfl)
    rw [knows.mem_blocks_iff, ← knows'.mem_blocks_iff] at listed
    have found' := Std.ExtTreeMap.getElem?_eq_some_getElem listed
    obtain ⟨file, i, record, isRecord, isEntry⟩ := knows.exists_record found
    obtain ⟨file', i', record', isRecord', isEntry'⟩ := knows'.exists_record found'
    have same := agree isRecord isRecord' (congrArg Prod.fst isEntry) (congrArg Prod.fst isEntry')
    rw [isEntry, isEntry'] at same
    rw [found', Option.map_some, Option.map_some, same]

end BlockIndex

/-- A block of this hash is in one record only. -/
def Record.Once (records : UInt32 → List Record) (hash : BlockHash) : Prop :=
  ∀ {file file' : UInt32} {i i' : Nat} {record record' : Record},
    (records file)[i]? = some record → (records file')[i']? = some record' →
      record.hash = hash → record'.hash = hash → file = file' ∧ i = i'

/-- No two different headers of these records have one hash. -/
def Record.CollisionFree (records : UInt32 → List Record) : Prop :=
  ∀ {file file' : UInt32} {record record' : Record}, record ∈ records file →
    record' ∈ records file' → record.hash = record'.hash → record.header = record'.header

namespace BlockIndex

variable {magic : Bytes} {files : Std.ExtTreeMap String Bytes} {index : BlockIndex}

/-- Whenever a source has followed a directory that grows, a new source finds in it what the
old one found over time. The block files hold records, and up to the place where the scan of
a file has stopped they hold nothing else; the blocks of all of them are in either index. A
block that is in one record has the same place in both. As long as no two headers have the
same hash, and the first block and the end of the longest chain are unique, the heights and
the main chain are the same. -/
theorem rescan_eq_of_followed (followed : Followed magic files index) :
    ∃ (records : UInt32 → List Record) (fresh : BlockIndex), Directory.Holds magic files records ∧
      rescan (some files) magic {} = (fresh, .ok ()) ∧
      (∀ hash, hash ∈ index.blocks ↔ hash ∈ fresh.blocks) ∧
      (∀ hash, Record.Once records hash → index.blocks[hash]? = fresh.blocks[hash]?) ∧
      (∀ file n, index.scanned[file]? = some n → ∃ contents,
        Directory.contents? (some files) file = some contents ∧ n ≤ contents.length ∧
        contents.take n = (records file).flatMap (Record.encode magic) ∧
        ∀ record ∈ records file, record.hash ∈ index.blocks) ∧
      (Record.CollisionFree records → OneGenesis index.blocks →
        index.heights = fresh.heights ∧
        (OneTip index.blocks → index.mainChain = fresh.mainChain)) := by
  obtain ⟨records, knows, fill, inFiles, isLinked⟩ := followed.knows
  obtain ⟨fresh, scans, knows'⟩ :=
    rescan_of_fill knows_empty (fun file _ => List.nil_prefix) fill inFiles
  have isLinked' : fresh.IsLinked := (isLinked_of_no_blocks rfl rfl rfl).of_rescan scans
  have holds : Directory.Holds magic files records := by
    refine ⟨fun file listed => ?_, inFiles⟩
    obtain ⟨-, rest, pauses, contents⟩ := fill file listed
    exact ⟨rest, RecordHead.isTail_of_ofBytes pauses, contents⟩
  refine ⟨records, fresh, holds, scans, fun hash => ?_, fun hash once => ?_,
    fun file n isScanned => ?_, fun apart one => ?_⟩
  · rw [knows.mem_blocks_iff, knows'.mem_blocks_iff]
  · have same := knows.map_getElem?_eq knows' id fun isRecord isRecord' isHash isHash' => by
      obtain ⟨rfl, rfl⟩ := once isRecord isRecord' isHash isHash'
      cases isRecord.symm.trans isRecord'
      rfl
    rwa [Option.map_id_fun, id, id] at same
  · have inFile := knows.inFile file
    obtain ⟨rest, contents⟩ := inFile.contents n isScanned
    have room : n = Record.room (records file) := inFile.eq_room isScanned
    refine ⟨_, contents, ?_, ?_, inFile.known⟩
    · rw [room, ← Record.length_eq_room inFile.isMarker, List.length_append]
      exact Nat.le_add_right _ _
    · rw [room, Record.take_room inFile.isMarker]
  · have same : SameParents index.blocks fresh.blocks := fun hash =>
      knows.map_getElem?_eq knows' _ fun isRecord isRecord' isHash isHash' =>
        congrArg Header.previous (apart (List.mem_of_getElem? isRecord)
          (List.mem_of_getElem? isRecord') (isHash.trans isHash'.symm))
    rw [← isLinked, ← isLinked']
    exact ⟨heights_relink_eq same one, mainChain_relink_eq same one⟩

/-! ## A record that is completed -/

section Pair

variable {first second : Record}

/-- The small directory while its last record is being written. -/
def begunFiles (magic : Bytes) (first second : Record) : Std.ExtTreeMap String Bytes :=
  Directory.oneFile (second.encode magic ++
    RecordHead.encode magic (UInt32.ofNat first.bytes.length) (first.bytes.take 8))

/-- The records that are complete by then. -/
def begunRecords (second : Record) (file : UInt32) : List Record :=
  if file = 0 then [second] else []

theorem fill_begunFiles (isMarker : IsMarker magic) (long : 8 < first.bytes.length) :
    Record.Fill magic (begunFiles magic first second) 0 (begunRecords second 0) := by
  have less : (first.bytes.take 8).length < (UInt32.ofNat first.bytes.length).toNat := by
    have number : (UInt32.ofNat first.bytes.length).toNat = first.bytes.length :=
      UInt32.toNat_ofNat_of_lt first.fits
    rw [number, List.length_take]
    omega
  refine ⟨fun _ => isMarker, _, RecordHead.ofBytes_of_isTail isMarker (.unfinished less), ?_⟩
  rw [begunFiles, Directory.contents?_oneFile, begunRecords, if_pos rfl, List.flatMap_singleton]

theorem fill_pairFiles (isMarker : IsMarker magic) :
    Record.Fill magic (pairFiles magic first second) 0 (pairRecords first second 0) :=
  ⟨fun _ => isMarker, _, RecordHead.ofBytes_of_isTail isMarker .zeros,
    Directory.contents?_oneFile _⟩

theorem grows_begunFiles (isMarker : IsMarker magic)
    (knows : Knows magic (begunFiles magic first second) (begunRecords second) index) :
    Grows index (begunFiles magic first second) (pairFiles magic first second) where
  kept name := by
    rw [begunFiles, pairFiles, Directory.oneFile, Directory.oneFile, Std.ExtTreeMap.mem_insert,
      Std.ExtTreeMap.mem_insert]
    exact id
  scanned file n isScanned := by
    have inFront : n ≤ (second.encode magic).length := by
      rw [(knows.inFile file).eq_room isScanned, Record.length_encode isMarker, begunRecords]
      split
      · exact Nat.le_refl _
      · exact Nat.zero_le _
    have pair : (pairRecords first second 0).flatMap (Record.encode magic) =
        second.encode magic ++ first.encode magic := by
      rw [pairRecords, if_pos rfl, List.flatMap_cons, List.flatMap_singleton]
    have opened (files : Std.ExtTreeMap String Bytes) :
        Directory.contents? (some files) file = files[Directory.nameOfNumber file]? := rfl
    rw [opened, opened, begunFiles, pairFiles, pair, Directory.oneFile, Directory.oneFile,
      Std.ExtTreeMap.getElem?_insert, Std.ExtTreeMap.getElem?_insert]
    split
    · rw [Option.map_some, Option.map_some, List.append_assoc,
        List.take_append_of_le_length inFront, List.take_append_of_le_length inFront]
    · rfl

/-- Where the first block is the only one that follows nothing, the second one stands on it. -/
theorem standsAt_pair (knows : Knows magic files (pairRecords first second) index)
    (isRoot : first.previous = Digest.zero 32) (follows : first.Follows second)
    (apart : first.hash ≠ second.hash) {hash : BlockHash} {n : Nat} :
    StandsAt index.blocks n hash ↔ n = 0 ∧ hash = first.hash ∨ n = 1 ∧ hash = second.hash := by
  have parent {hash : BlockHash} {location : Location}
      (found : index.blocks[hash]? = some location) :
      hash = second.hash ∧ location.previous = first.hash ∨
        hash = first.hash ∧ location.previous = Digest.zero 32 := by
    obtain ⟨file, i, record, isRecord, isEntry⟩ := knows.exists_record found
    cases isEntry
    rcases mem_pairRecords (List.mem_of_getElem? isRecord) with rfl | rfl
    · exact .inl ⟨rfl, follows.1⟩
    · exact .inr ⟨rfl, isRoot⟩
  have notZero : first.hash ≠ Digest.zero 32 := follows.1 ▸ follows.2
  have located {record : Record} (listed : record ∈ pairRecords first second 0) :
      ∃ location, index.blocks[record.hash]? = some location :=
    ⟨_, Std.ExtTreeMap.getElem?_eq_some_getElem ((knows.inFile 0).known record listed)⟩
  have isGenesis : IsGenesis index.blocks first.hash := by
    obtain ⟨location, found⟩ := located (List.mem_cons_of_mem second List.mem_cons_self)
    rcases parent found with ⟨same, -⟩ | ⟨-, isZero⟩
    · exact absurd same apart
    · exact ⟨location, found, isZero⟩
  have precedes : Precedes index.blocks first.hash second.hash := by
    obtain ⟨location, found⟩ := located List.mem_cons_self
    rcases parent found with ⟨-, isFirst⟩ | ⟨same, -⟩
    · exact ⟨notZero, location, found, isFirst⟩
    · exact absurd same.symm apart
  constructor
  · intro stands
    cases stands with
    | genesis isOther =>
      obtain ⟨location, found, isZero⟩ := isOther
      rcases parent found with ⟨-, isFirst⟩ | ⟨isHash, -⟩
      · exact absurd (isFirst.symm.trans isZero) notZero
      · exact .inl ⟨rfl, isHash⟩
    | next stands isNext =>
      obtain ⟨before, location, found, rfl⟩ := isNext
      rcases parent found with ⟨isHash, isFirst⟩ | ⟨-, isZero⟩
      · rw [isFirst] at stands
        rw [stands.unique (.genesis isGenesis)]
        exact .inr ⟨rfl, isHash⟩
      · exact absurd isZero before
  · rintro (⟨rfl, rfl⟩ | ⟨rfl, rfl⟩)
    · exact .genesis isGenesis
    · exact .next (.genesis isGenesis) precedes

theorem unique_pair (knows : Knows magic files (pairRecords first second) index)
    (isRoot : first.previous = Digest.zero 32) (follows : first.Follows second)
    (apart : first.hash ≠ second.hash) : OneGenesis index.blocks ∧ OneTip index.blocks := by
  have stands {hash : BlockHash} {n : Nat} : StandsAt index.blocks n hash ↔
      n = 0 ∧ hash = first.hash ∨ n = 1 ∧ hash = second.hash :=
    standsAt_pair knows isRoot follows apart
  constructor
  · intro hash other isGenesis isOther
    have atFirst := stands.mp (.genesis isGenesis)
    have atFirst' := stands.mp (.genesis isOther)
    simp only [true_and, Nat.zero_ne_one, false_and, or_false] at atFirst atFirst'
    rw [atFirst, atFirst']
  · intro n hash other isTip isOther highest
    have one := highest (stands.mpr (.inr ⟨rfl, rfl⟩))
    rcases stands.mp isTip with ⟨rfl, -⟩ | ⟨-, rfl⟩
    · omega
    · rcases stands.mp isOther with ⟨rfl, -⟩ | ⟨-, rfl⟩
      · omega
      · rfl

theorem collisionFree_pair (apart : first.hash ≠ second.hash) :
    Record.CollisionFree (pairRecords first second) := by
  intro file file' record record' listed listed' same
  rcases mem_pairRecords listed with rfl | rfl
  · rcases mem_pairRecords listed' with rfl | rfl
    · rfl
    · exact absurd same.symm apart
  · rcases mem_pairRecords listed' with rfl | rfl
    · exact absurd same apart
    · rfl

end Pair

/-- A source scans a file in which a first block is being written behind the one that follows
it, and again when it is there. A new source has the same chain. -/
theorem rescan_eq_of_followed_pair :
    let magic := Network.regtest.magic
    let first := Record.bare (smallHeader (Digest.zero 32))
    let second := Record.bare (smallHeader smallHash)
    ∃ before after fresh : BlockIndex,
      rescan (some (begunFiles magic first second)) magic {} = (before, .ok ()) ∧
      rescan (some (pairFiles magic first second)) magic before = (after, .ok ()) ∧
      rescan (some (pairFiles magic first second)) magic {} = (fresh, .ok ()) ∧
      first.hash ∉ before.blocks ∧ first.hash ∈ after.blocks ∧
      after.blocks[first.hash]? = fresh.blocks[first.hash]? ∧
      after.heights = fresh.heights ∧ after.mainChain = fresh.mainChain := by
  intro magic first second
  have isMarker : IsMarker magic := ⟨rfl, by decide⟩
  have follows : first.Follows second := ⟨hash_smallHeader.1.symm, by decide⟩
  have apart : first.hash ≠ second.hash := fun same =>
    hash_smallHeader.2 (same.symm.trans hash_smallHeader.1)
  have keeps : Directory.Keeps magic (pairFiles magic first second) (pairRecords first second)
      [first, second] := keeps_pairFiles isMarker rfl follows apart (by decide)
  have listed_iff {file : UInt32} {contents : Bytes} :
      file ∈ Directory.blockFiles (Directory.oneFile contents) ↔ file = 0 := by
    rw [Directory.blockFiles_oneFile, List.mem_singleton]
  obtain ⟨before, scans, knows⟩ : ∃ before, rescan (some (begunFiles magic first second)) magic {} =
      (before, .ok ()) ∧ Knows magic (begunFiles magic first second) (begunRecords second) before :=
    rescan_of_fill knows_empty (fun _ _ => List.nil_prefix)
      (fun file listed => listed_iff.mp listed ▸ fill_begunFiles isMarker (by decide))
      fun file unlisted => if_neg (mt listed_iff.mpr unlisted)
  have grows := grows_begunFiles isMarker knows
  obtain ⟨after, scans', knows'⟩ : ∃ after, rescan (some (pairFiles magic first second)) magic
      before = (after, .ok ()) ∧
        Knows magic (pairFiles magic first second) (pairRecords first second) after :=
    rescan_of_fill (knows.grows grows)
      (fun file listed => listed_iff.mp listed ▸ List.prefix_append [second] _)
      (fun file listed => listed_iff.mp listed ▸ fill_pairFiles isMarker)
      fun file unlisted => (if_neg (mt listed_iff.mpr unlisted)).trans
        (if_neg (mt listed_iff.mpr unlisted)).symm
  obtain ⟨records, fresh, holds, isFresh, -, once, -, links⟩ :=
    rescan_eq_of_followed (.next (.first scans) grows scans')
  obtain rfl := holds.unique isMarker keeps.holds
  obtain ⟨oneGenesis, oneTip⟩ := unique_pair knows' rfl follows apart
  obtain ⟨heights, mainChain⟩ := links (collisionFree_pair apart) oneGenesis
  refine ⟨before, after, fresh, scans, scans', isFresh, fun known => ?_, ?_, once _ ?_, heights,
    mainChain oneTip⟩
  · obtain ⟨file, record, listed, isHash⟩ := knows.mem_blocks_iff.mp known
    rw [begunRecords] at listed
    split at listed
    · rw [List.mem_singleton.mp listed] at isHash
      exact apart isHash.symm
    · cases listed
  · exact (knows'.inFile 0).known first (List.mem_cons_of_mem _ List.mem_cons_self)
  · intro file file' i i' record record' isRecord isRecord' isHash isHash'
    exact keeps.distinct isRecord isRecord' (isHash.trans isHash'.symm)

end BlockIndex

end ClaimLedger
