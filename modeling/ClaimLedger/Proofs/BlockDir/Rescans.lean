/-
# An index that falls behind

A scan writes what it finds into the index as it goes, and links the index at its
end, but only if it got there and found a block itself. A scan that fails leaves
its blocks behind without linking them. A later scan that succeeds links them
along with its own, but if it has nothing to find, it leaves the links as they
are. So the links may lag behind the blocks, and whenever they do, it began with
such a failure.
-/

import ClaimLedger.Network
import ClaimLedger.Proofs.BlockDir.Resumption

namespace ClaimLedger

namespace BlockIndex

variable {magic : Bytes} {directory : Directory} {index : BlockIndex} {file : UInt32}

/-- The index after a scan of each of the directories in turn. -/
def rescans (magic : Bytes) (directories : List Directory) : BlockIndex :=
  directories.foldl (fun index directory => (index.rescan directory magic).1) {}

theorem rescans_concat (directories : List Directory) :
    rescans magic (directories ++ [directory]) =
      ((rescans magic directories).rescan directory magic).1 := by
  rw [rescans, List.foldl_append]
  rfl

/-- The heights and the main chain are those of another index. -/
structure SameLinks (index other : BlockIndex) : Prop where
  heights : index.heights = other.heights
  mainChain : index.mainChain = other.mainChain

theorem SameLinks.refl (index : BlockIndex) : SameLinks index index :=
  ⟨rfl, rfl⟩

theorem SameLinks.trans {first second third : BlockIndex} (left : SameLinks first second)
    (right : SameLinks second third) : SameLinks first third :=
  ⟨left.heights.trans right.heights, left.mainChain.trans right.mainChain⟩

theorem SameLinks.symm {index other : BlockIndex} (same : SameLinks index other) :
    SameLinks other index :=
  ⟨same.heights.symm, same.mainChain.symm⟩

/-- Linking looks at the blocks only. -/
theorem relink_sameLinks {other : BlockIndex} (blocks : index.blocks = other.blocks) :
    SameLinks index.relink other.relink := by
  cases index
  cases other
  cases blocks
  exact ⟨rfl, rfl⟩

theorem isLinked_iff : index.IsLinked ↔ SameLinks index.relink index := by
  constructor
  · exact fun isLinked => ⟨congrArg heights isLinked, congrArg mainChain isLinked⟩
  · rintro ⟨heights, mainChain⟩
    have relinked : index.relink =
        { index with heights := index.relink.heights, mainChain := index.relink.mainChain } := rfl
    rw [IsLinked, relinked, heights, mainChain]

theorem IsLinked.of_sameLinks {other : BlockIndex} (isLinked : other.IsLinked)
    (blocks : index.blocks = other.blocks) (same : SameLinks index other) : index.IsLinked := by
  have relinked : SameLinks other.relink other := isLinked_iff.mp isLinked
  exact isLinked_iff.mpr ((relink_sameLinks blocks).trans (relinked.trans same.symm))

/-- Scanning a file adds no links, and no blocks if it found none. -/
theorem scanFile_cases (directory : Directory) (magic : Bytes) (index : BlockIndex)
    (file : UInt32) :
    SameLinks (scanFile directory magic index file).1 index ∧
      ((scanFile directory magic index file).2 = .ok 0 →
        (scanFile directory magic index file).1.blocks = index.blocks) := by
  rw [scanFile]
  split
  · exact ⟨SameLinks.refl index, fun _ => rfl⟩
  · next contents _ =>
    simp only
    rcases scanRecords magic file (index.scanned[file]?.getD 0)
      (contents.drop (index.scanned[file]?.getD 0)) with ⟨found, reason | offset⟩
    · refine ⟨⟨rfl, rfl⟩, ?_⟩
      rintro ⟨⟩
    · refine ⟨⟨rfl, rfl⟩, fun isZero => ?_⟩
      cases found with
      | nil => rfl
      | cons _ _ => cases isZero

theorem scanFiles_cases (directory : Directory) (magic : Bytes) (files : List UInt32)
    (index : BlockIndex) :
    SameLinks (scanFiles directory magic files index).1 index ∧
      ((scanFiles directory magic files index).2 = .ok 0 →
        (scanFiles directory magic files index).1.blocks = index.blocks) := by
  induction files generalizing index with
  | nil => exact ⟨SameLinks.refl index, fun _ => rfl⟩
  | cons file more ih =>
    obtain ⟨same, unchanged⟩ := scanFile_cases directory magic index file
    rw [scanFiles]
    generalize scanFile directory magic index file = scan at same unchanged ⊢
    rcases scan with ⟨next, failure | count⟩
    · refine ⟨same, ?_⟩
      rintro ⟨⟩
    · obtain ⟨same', unchanged'⟩ := ih next
      simp only
      generalize scanFiles directory magic more next = scan at same' unchanged' ⊢
      rcases scan with ⟨last, failure | rest⟩
      · refine ⟨same'.trans same, ?_⟩
        rintro ⟨⟩
      · refine ⟨same'.trans same, fun isZero => ?_⟩
        have sum : count + rest = 0 := Except.ok.inj isZero
        obtain ⟨rfl, rfl⟩ := Nat.add_eq_zero_iff.mp sum
        exact (unchanged' rfl).trans (unchanged rfl)

/-- What a scan of a directory does to the links. -/
theorem rescan_cases (directory : Directory) (magic : Bytes) (index : BlockIndex) :
    (∃ failure, (index.rescan directory magic).2 = .error failure ∧
      SameLinks (index.rescan directory magic).1 index) ∨
    ((index.rescan directory magic).2 = .ok () ∧ (index.rescan directory magic).1.IsLinked) ∨
    (index.rescan directory magic).2 = .ok () ∧
      (index.rescan directory magic).1.blocks = index.blocks ∧
      SameLinks (index.rescan directory magic).1 index := by
  unfold rescan
  split
  · exact .inl ⟨_, rfl, SameLinks.refl index⟩
  · next files =>
    obtain ⟨same, unchanged⟩ :=
      scanFiles_cases (some files) magic (Directory.blockFiles files) index
    generalize scanFiles (some files) magic (Directory.blockFiles files) index = scan
      at same unchanged ⊢
    rcases scan with ⟨next, failure | count⟩
    · exact .inl ⟨failure, rfl, same⟩
    · cases count with
      | zero => exact .inr (.inr ⟨rfl, unchanged rfl, same⟩)
      | succ count => exact .inr (.inl ⟨rfl, next.isLinked_relink⟩)

/-- A scan that succeeds does not leave the links behind the blocks. -/
theorem IsLinked.of_rescan {next : BlockIndex} (isLinked : index.IsLinked)
    (scans : rescan directory magic index = (next, .ok ())) : next.IsLinked := by
  have cases := rescan_cases directory magic index
  rw [scans] at cases
  rcases cases with ⟨failure, ⟨⟩, -⟩ | ⟨-, relinked⟩ | ⟨-, unchanged, same⟩
  · exact relinked
  · exact isLinked.of_sameLinks unchanged same

/-- The links are still those from before a scan that failed when it had found
some blocks. -/
structure LagsSince (magic : Bytes) (done : List Directory) (failing : Directory)
    (directories : List Directory) : Prop where
  first : done ++ [failing] <+: directories
  failed : ∃ failure, ((rescans magic done).rescan failing magic).2 = .error failure
  found : (rescans magic (done ++ [failing])).blocks ≠ (rescans magic done).blocks
  wasLinked : (rescans magic done).IsLinked
  same : SameLinks (rescans magic directories) (rescans magic done)

theorem LagsSince.concat {done directories : List Directory} {failing : Directory}
    (lags : LagsSince magic done failing directories)
    (same : SameLinks (rescans magic (directories ++ [directory])) (rescans magic directories)) :
    LagsSince magic done failing (directories ++ [directory]) :=
  { lags with
    first := lags.first.trans (List.prefix_append _ _)
    same := same.trans lags.same }

/-- Whatever directories a source has scanned, its links are those of the blocks
that it knows, or they have lagged behind since a scan that failed when it had
found some. The next scan puts them right if it succeeds and finds a block. -/
theorem linked_of_rescans (magic : Bytes) (directories : List Directory) :
    ((rescans magic directories).IsLinked ∨
      ∃ done failing, LagsSince magic done failing directories) ∧
    ∀ directory : Directory,
      (∃ failure, ((rescans magic directories).rescan directory magic).2 = .error failure) ∨
      (rescans magic (directories ++ [directory])).IsLinked ∨
      (rescans magic (directories ++ [directory])).blocks = (rescans magic directories).blocks := by
  constructor
  · induction directories using List.reverseRecOn with
    | nil => exact .inl (isLinked_of_no_blocks rfl rfl rfl)
    | append_singleton done directory ih =>
      have scans := rescan_cases directory magic (rescans magic done)
      rw [← rescans_concat] at scans
      rcases ih with isLinked | ⟨before, failing, lags⟩
      · rcases scans with ⟨failure, failed, same⟩ | ⟨-, relinked⟩ | ⟨-, unchanged, same⟩
        · by_cases nothing :
              (rescans magic (done ++ [directory])).blocks = (rescans magic done).blocks
          · exact .inl (isLinked.of_sameLinks nothing same)
          · refine .inr ⟨done, directory, ?_⟩
            exact ⟨List.prefix_rfl, ⟨failure, failed⟩, nothing, isLinked, same⟩
        · exact .inl relinked
        · exact .inl (isLinked.of_sameLinks unchanged same)
      · rcases scans with ⟨-, -, same⟩ | ⟨-, relinked⟩ | ⟨-, -, same⟩
        · exact .inr ⟨before, failing, lags.concat same⟩
        · exact .inl relinked
        · exact .inr ⟨before, failing, lags.concat same⟩
  · intro directory
    rw [rescans_concat]
    rcases rescan_cases directory magic (rescans magic directories) with
      ⟨failure, failed, -⟩ | ⟨-, relinked⟩ | ⟨-, unchanged, -⟩
    · exact .inl ⟨failure, failed⟩
    · exact .inr (.inl relinked)
    · exact .inr (.inr unchanged)

/-! ## A chain that is not seen -/

section Unseen

/-- A block file that is no block file. -/
def damage : Bytes :=
  [0xde, 0xad, 0xbe, 0xef, 0, 0, 0, 0]

variable (magic : Bytes) (record : Record)

/-- A directory with a record in its first block file, and a damaged second one. -/
def damaged : Directory :=
  some ((Directory.oneFile (record.encode magic)).insert (Directory.nameOfNumber 1) damage)

/-- The same directory without the damaged file. -/
def repaired : Directory :=
  some (Directory.oneFile (record.encode magic))

theorem blockFiles_damaged (contents : Bytes) :
    Directory.blockFiles
      ((Directory.oneFile contents).insert (Directory.nameOfNumber 1) damage) = [0, 1] := by
  have keys : ((Directory.oneFile contents).insert (Directory.nameOfNumber 1) damage).keys =
      ["blk00000.dat", "blk00001.dat"] := rfl
  have numbers : ["blk00000.dat", "blk00001.dat"].filterMap Directory.numberOfName? = [0, 1] := by
    decide +kernel
  rw [Directory.blockFiles, keys, numbers]
  exact List.mergeSort_of_pairwise (by decide)

/-- The index that knows the record, and has no links. -/
def unlinked : BlockIndex where
  scanned := (∅ : Std.ExtTreeMap UInt32 Nat).insert 0 (Record.room [record])
  blocks := (∅ : Std.ExtTreeMap BlockHash Location).insert record.hash
    (record.entry 0 RecordHead.lead).2

variable {magic} {record}

theorem contents?_damaged :
    (damaged magic record).contents? 0 = some (record.encode magic) ∧
      (damaged magic record).contents? 1 = some damage := by
  have other : Directory.nameOfNumber 1 ≠ Directory.nameOfNumber 0 := by decide
  constructor
  · have skips := Std.ExtTreeMap.getElem?_insert (t := Directory.oneFile (record.encode magic))
      (k := Directory.nameOfNumber 1) (a := Directory.nameOfNumber 0) (v := damage)
    rw [if_neg fun same => other (Std.compare_eq_iff_eq.mp same)] at skips
    exact skips.trans (Directory.contents?_oneFile _)
  · exact Std.ExtTreeMap.getElem?_insert_self (t := Directory.oneFile (record.encode magic))

/-- A file with one record is scanned to its end. -/
theorem fill_record {files : Std.ExtTreeMap String Bytes} (isMarker : IsMarker magic)
    (contents : Directory.contents? (some files) 0 = some (record.encode magic)) :
    Record.Fill magic files 0 [record] := by
  refine ⟨fun _ => isMarker, [], RecordHead.ofBytes_of_isTail isMarker (.short (by decide)), ?_⟩
  rw [contents, List.flatMap_singleton, List.append_nil]

theorem scanRecords_damage {file : UInt32} (isMarker : damage.take 4 ≠ magic) :
    scanRecords magic file 0 damage = ([], .error (.badMagic (damage.take 4) 0)) := by
  have isHead : RecordHead.ofBytes magic 0 damage = .damage (.badMagic (damage.take 4) 0) := by
    have cut : Bytes.splitExact? RecordHead.lead damage = some (damage, []) := rfl
    rw [RecordHead.ofBytes, cut]
    simp only
    rw [if_neg (by decide), if_pos isMarker]
  rw [scanRecords]
  split
  · next pauses =>
    cases isHead.symm.trans pauses
  · next damaged =>
    cases isHead.symm.trans damaged
    rfl
  · next found =>
    cases isHead.symm.trans found

theorem rescan_damaged (isMarker : IsMarker magic) (foreign : damage.take 4 ≠ magic) :
    rescan (damaged magic record) magic {} = (unlinked record,
      .error (.corruptBlockData (some 1) none (.badMagic (damage.take 4) 0))) := by
  have first : scanFile (damaged magic record) magic {} 0 = (unlinked record, .ok 1) :=
    scanFile_eq (knows_empty.inFile 0) (fill_record isMarker contents?_damaged.1)
  have second : scanFile (damaged magic record) magic (unlinked record) 1 = (unlinked record,
      .error (.corruptBlockData (some 1) none (.badMagic (damage.take 4) 0))) := by
    have start : (unlinked record).scanned[(1 : UInt32)]?.getD 0 = 0 := rfl
    rw [scanFile, contents?_damaged.2]
    simp only [start, List.drop_zero, scanRecords_damage foreign]
    rfl
  rw [damaged] at first second ⊢
  rw [rescan, blockFiles_damaged, scanFiles, first]
  simp only [scanFiles, second]
  rfl

theorem rescan_repaired (isMarker : IsMarker magic) :
    rescan (repaired magic record) magic (unlinked record) = (unlinked record, .ok ()) := by
  have scans : scanFile (repaired magic record) magic (unlinked record) 0 =
      (unlinked record, .ok 0) := by
    have contents : (repaired magic record).contents? 0 = some (record.encode magic) :=
      Directory.contents?_oneFile _
    obtain ⟨-, rest, -, isFile⟩ := fill_record isMarker contents
    have knows : KnowsFile magic (Directory.oneFile (record.encode magic)) (unlinked record) 0
        [record] := by
      refine ⟨fun _ => isMarker, ?_, fun _ _ => ⟨rest, isFile⟩, fun other listed => ?_⟩
      · rw [unlinked, Std.ExtTreeMap.getElem?_insert_self, Option.getD_some]
      · rw [List.mem_singleton.mp listed]
        exact Std.ExtTreeMap.mem_insert_self
    exact scanFile_again knows Std.ExtTreeMap.mem_insert_self (fill_record isMarker contents)
  rw [repaired] at scans ⊢
  rw [rescan, Directory.blockFiles_oneFile, scanFiles, scans]
  rfl

theorem mainChain_relink_unlinked (isRoot : record.previous = Digest.zero 32) :
    (unlinked record).relink.mainChain = #[record.hash] := by
  have blocks : (unlinked record).blocks =
      (∅ : Std.ExtTreeMap BlockHash Location).insert record.hash
        (record.entry 0 RecordHead.lead).2 := rfl
  have only {hash : BlockHash} (isGenesis : IsGenesis (unlinked record).blocks hash) :
      hash = record.hash := by
    obtain ⟨location, found, -⟩ := isGenesis
    rw [blocks, Std.ExtTreeMap.getElem?_insert] at found
    split at found
    · next same => exact (Std.compare_eq_iff_eq.mp same).symm
    · cases found
  have isLine : Line (unlinked record).blocks [record.hash] :=
    { start := by
        rintro _ ⟨⟩
        exact ⟨_, Std.ExtTreeMap.getElem?_insert_self, isRoot⟩
      linked := List.isChain_singleton _ }
  obtain ⟨isChain, longest⟩ :=
    mainChain_relink fun isGenesis isOther => (only isGenesis).trans (only isOther).symm
  have atMost : (unlinked record).relink.mainChain.toList.length ≤ 1 := isChain.length_le
  have one : (unlinked record).relink.mainChain.toList.length = 1 :=
    Nat.le_antisymm atMost (longest isLine)
  obtain ⟨hash, isSingle⟩ := List.length_eq_one_iff.mp one
  have isHash : hash = record.hash := only (isChain.start hash (by rw [isSingle]; rfl))
  rw [← Array.toList_inj, isSingle, isHash]

end Unseen

/-- A scan finds the first block and fails at a damaged file. The next one finds
that file gone and succeeds; yet the chain that the index knows stays unseen. -/
theorem stale_rescans :
    let magic := Network.regtest.magic
    let record := Record.bare ⟨1, Digest.zero 32, Digest.zero 32, Digest.zero 32, 0, 0, 0⟩
    let scan := (rescans magic [damaged magic record]).rescan (repaired magic record) magic
    scan.2 = .ok () ∧ (∃ location, scan.1.blocks[record.hash]? = some location) ∧
      scan.1.tipHeight? = none ∧ scan.1.relink.tipHeight? = some 0 ∧ ¬ scan.1.IsLinked := by
  intro magic record scan
  have isMarker : IsMarker magic := ⟨rfl, by decide⟩
  have before : rescans magic [damaged magic record] = unlinked record :=
    congrArg Prod.fst (rescan_damaged isMarker (by decide))
  have isScan : scan = (unlinked record, .ok ()) := by
    rw [← rescan_repaired isMarker, ← before]
  have relinked : scan.1.relink.mainChain = #[record.hash] := by
    rw [isScan]
    exact mainChain_relink_unlinked rfl
  refine ⟨by rw [isScan], ?_, by rw [isScan]; rfl, by rw [tipHeight?, relinked]; rfl, ?_⟩
  · rw [isScan]
    exact ⟨_, Std.ExtTreeMap.getElem?_insert_self⟩
  · intro isLinked
    rw [isLinked, isScan] at relinked
    cases relinked

end BlockIndex

end ClaimLedger
