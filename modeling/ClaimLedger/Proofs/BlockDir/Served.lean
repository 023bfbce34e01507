/-
# A directory serves its longest chain

Records lie in the files of a directory in any order, side branches among them.
Every question scans the directory first, but as long as the directory is the
same, only the first scan finds anything. What is answered then are the blocks of
the longest chain: its height, its runs, the bytes of each block by its height
and by its hash, and nothing of the side branches.
-/

import Mathlib.Algebra.Order.BigOperators.Group.List
import Mathlib.Algebra.Order.Group.Nat
import Mathlib.Data.List.Chain
import Mathlib.Data.List.Forall2
import ClaimLedger.Network
import ClaimLedger.Proofs.BlockDir.Catalogue
import ClaimLedger.Proofs.BlockDir.Runs

namespace ClaimLedger

namespace Record

/-- The one block follows the other. -/
def Follows (before after : Record) : Prop :=
  after.previous = before.hash ∧ after.previous ≠ Digest.zero 32

/-- Records from one that follows nothing on, each followed by the next. -/
structure Line (records : UInt32 → List Record) (chain : List Record) : Prop where
  listed : ∀ record ∈ chain, ∃ file, record ∈ records file
  start : ∀ first ∈ chain.head?, first.previous = Digest.zero 32
  linked : chain.IsChain Follows

/-- The blocks of a chain with their heights. -/
def raws (chain : List Record) : List RawBlock :=
  chain.zipIdx.map fun row => ⟨UInt32.ofNat row.2, row.1.bytes⟩

theorem getElem?_raws (chain : List Record) (i : Nat) :
    (raws chain)[i]? = chain[i]?.map fun record => ⟨UInt32.ofNat i, record.bytes⟩ := by
  rw [raws, List.getElem?_map, List.getElem?_zipIdx, Option.map_map, Nat.zero_add]
  rfl

theorem drop_raws {chain : List Record} {i : Nat} (inside : i < chain.length) :
    (raws chain).drop i = ⟨UInt32.ofNat i, chain[i].bytes⟩ :: (raws chain).drop (i + 1) := by
  have found : (raws chain)[i]? = some ⟨UInt32.ofNat i, chain[i].bytes⟩ := by
    rw [getElem?_raws, List.getElem?_eq_getElem inside, Option.map_some]
  obtain ⟨inside', isRaw⟩ := List.getElem?_eq_some_iff.mp found
  rw [List.drop_eq_getElem_cons inside', isRaw]

end Record

/-- The files hold records, one of which follows nothing, and one line of them is
longer than all others. It has fewer blocks than there are heights, and announces
fewer transactions than can be counted. -/
structure Directory.Keeps (magic : Bytes) (files : Std.ExtTreeMap String Bytes)
    (records : UInt32 → List Record) (chain : List Record) : Prop where
  isMarker : IsMarker magic
  holds : Directory.Holds magic files records
  distinct : Record.Distinct records
  root : ∃ file, ∃ record ∈ records file, record.previous = Digest.zero 32
  single : ∀ {file file' : UInt32} {record record' : Record}, record ∈ records file →
    record' ∈ records file' → record.previous = Digest.zero 32 →
      record'.previous = Digest.zero 32 → record = record'
  line : Record.Line records chain
  longest : ∀ {other : List Record}, Record.Line records other → other ≠ chain →
    other.length < chain.length
  heights : chain.length < 2 ^ 32
  counts : (chain.map Record.count).sum < 2 ^ 64

/-- Where every block of the chain can be read, what they announce can be
counted: no block announces more transactions than it has bytes. -/
theorem Record.sum_count_lt {chain : List Record} (heights : chain.length < 2 ^ 32)
    (blocks : ∀ record ∈ chain, ∃ block, Block.parse record.bytes = .ok block) :
    (chain.map Record.count).sum < 2 ^ 64 := by
  have each (count : Nat) (listed : count ∈ chain.map Record.count) : count ≤ 2 ^ 32 := by
    obtain ⟨record, member, rfl⟩ := List.mem_map.mp listed
    obtain ⟨block, parsed⟩ := blocks record member
    have room := Block.count_le_of_parse record.announced parsed
    have fits := record.fits
    omega
  have bound : (chain.map Record.count).sum ≤ (chain.map Record.count).length * 2 ^ 32 :=
    List.sum_le_card_nsmul _ _ each
  rw [List.length_map] at bound
  omega

/-- Where every block of the longest line can be read, nothing more has to be known of the
transactions that they announce. -/
theorem Directory.keeps_of_blocks {magic : Bytes} {files : Std.ExtTreeMap String Bytes}
    {records : UInt32 → List Record} {chain : List Record} (isMarker : IsMarker magic)
    (holds : Holds magic files records) (distinct : Record.Distinct records)
    (root : ∃ file, ∃ record ∈ records file, record.previous = Digest.zero 32)
    (single : ∀ {file file' : UInt32} {record record' : Record}, record ∈ records file →
      record' ∈ records file' → record.previous = Digest.zero 32 →
        record'.previous = Digest.zero 32 → record = record')
    (line : Record.Line records chain)
    (longest : ∀ {other : List Record}, Record.Line records other → other ≠ chain →
      other.length < chain.length)
    (heights : chain.length < 2 ^ 32)
    (blocks : ∀ record ∈ chain, ∃ block, Block.parse record.bytes = .ok block) :
    Keeps magic files records chain where
  isMarker := isMarker
  holds := holds
  distinct := distinct
  root := root
  single := single
  line := line
  longest := longest
  heights := heights
  counts := Record.sum_count_lt heights blocks

/-! ## The index of the chain -/

namespace BlockIndex

variable {magic : Bytes} {files : Std.ExtTreeMap String Bytes} {records : UInt32 → List Record}
variable {chain : List Record} {index : BlockIndex}

/-- The index has the chain as its longest one, and tells where its blocks are. -/
structure Serves (index : BlockIndex) (directory : Directory) (chain : List Record) : Prop where
  mainChain : index.mainChain.toList = chain.map Record.hash
  located : ∀ record ∈ chain, ∃ location, index.blocks[record.hash]? = some location ∧
    BlockDir.readAt directory location = .ok record.bytes ∧
    location.txs = UInt64.ofNat record.count
  heights : ∀ {i : Nat} {record : Record}, chain[i]? = some record →
    index.heights[record.hash]? = some (UInt32.ofNat i)

namespace Catalogues

/-- A record is found by the index. -/
theorem located (isMarker : IsMarker magic) (holds : Directory.Holds magic files records)
    (catalogues : index.Catalogues records) {file : UInt32} {record : Record}
    (listed : record ∈ records file) :
    ∃ location, index.blocks[record.hash]? = some location ∧
      BlockDir.readAt (some files) location = .ok record.bytes ∧
      location.previous = record.previous ∧ location.txs = UInt64.ofNat record.count := by
  obtain ⟨i, found⟩ := List.mem_iff_getElem?.mp listed
  have inFile : file ∈ Directory.blockFiles files :=
    Classical.byContradiction fun nowhere => by
      rw [holds.inFiles file nowhere] at listed
      cases listed
  obtain ⟨rest, -, contents⟩ := holds.contents file inFile
  obtain ⟨left, cut⟩ := Record.splitExact?_place isMarker found rest
  refine ⟨(record.entry file (Record.place (records file) i)).2,
    (catalogues.blocks _ _).mpr ⟨file, i, record, found, rfl⟩, ?_, rfl, rfl⟩
  rw [BlockDir.readAt, Record.entry, contents]
  simp only [Option.bind_some, cut]

/-- The index has nothing but records. -/
theorem record_of_found (catalogues : index.Catalogues records) {hash : BlockHash}
    {location : Location} (found : index.blocks[hash]? = some location) :
    ∃ file, ∃ record ∈ records file, record.hash = hash ∧
      record.previous = location.previous := by
  obtain ⟨file, i, record, listed, isEntry⟩ := (catalogues.blocks hash location).mp found
  cases isEntry
  exact ⟨file, record, List.mem_of_getElem? listed, rfl, rfl⟩

theorem isGenesis_iff (isMarker : IsMarker magic) (holds : Directory.Holds magic files records)
    (catalogues : index.Catalogues records) {file : UInt32} {record : Record}
    (listed : record ∈ records file) :
    IsGenesis index.blocks record.hash ↔ record.previous = Digest.zero 32 := by
  obtain ⟨location, found, -, previous, -⟩ := catalogues.located isMarker holds listed
  rw [← previous]
  constructor
  · rintro ⟨location', found', isZero⟩
    cases found.symm.trans found'
    exact isZero
  · exact fun isZero => ⟨location, found, isZero⟩

theorem precedes_iff (isMarker : IsMarker magic) (holds : Directory.Holds magic files records)
    (catalogues : index.Catalogues records) {file : UInt32} {before after : Record}
    (listed : after ∈ records file) :
    Precedes index.blocks before.hash after.hash ↔ before.Follows after := by
  obtain ⟨location, found, -, previous, -⟩ := catalogues.located isMarker holds listed
  rw [Record.Follows, ← previous]
  constructor
  · rintro ⟨notZero, location', found', isBefore⟩
    cases found.symm.trans found'
    exact ⟨isBefore, isBefore ▸ notZero⟩
  · rintro ⟨isBefore, notZero⟩
    exact ⟨isBefore ▸ notZero, location, found, isBefore⟩

/-- The lines of the index are those of the records. -/
theorem line_iff (isMarker : IsMarker magic) (holds : Directory.Holds magic files records)
    (catalogues : index.Catalogues records)
    (listed : ∀ record ∈ chain, ∃ file, record ∈ records file) :
    Line index.blocks (chain.map Record.hash) ↔ Record.Line records chain := by
  have start : (∀ first ∈ (chain.map Record.hash).head?, IsGenesis index.blocks first) ↔
      ∀ first ∈ chain.head?, first.previous = Digest.zero 32 := by
    cases chain with
    | nil => simp
    | cons record more =>
      obtain ⟨file, member⟩ := listed record List.mem_cons_self
      simpa using catalogues.isGenesis_iff isMarker holds member
  have linked : (chain.map Record.hash).IsChain (Precedes index.blocks) ↔
      chain.IsChain Record.Follows := by
    rw [List.isChain_map]
    apply List.IsChain.iff_of_mem_imp
    intro before after _ member
    obtain ⟨file, listed⟩ := listed after member
    exact catalogues.precedes_iff isMarker holds listed
  constructor
  · exact fun line => ⟨listed, start.mp line.start, linked.mp line.linked⟩
  · exact fun line => ⟨start.mpr line.start, linked.mpr line.linked⟩

/-- Every line of the index comes from records. -/
theorem exists_records (catalogues : index.Catalogues records) {line : List BlockHash}
    (isLine : Line index.blocks line) :
    ∃ chain : List Record, (∀ record ∈ chain, ∃ file, record ∈ records file) ∧
      chain.map Record.hash = line := by
  have each : ∀ hash ∈ line, ∃ record : Record, (∃ file, record ∈ records file) ∧
      record.hash = hash := by
    intro hash member
    obtain ⟨i, found⟩ := List.mem_iff_getElem?.mp member
    obtain ⟨location, isBlock⟩ := (isLine.standsAt found).isBlock
    obtain ⟨file, record, listed, isHash, -⟩ := catalogues.record_of_found isBlock
    exact ⟨record, ⟨file, listed⟩, isHash⟩
  clear isLine
  induction line with
  | nil => exact ⟨[], by simp, rfl⟩
  | cons hash more ih =>
    obtain ⟨record, listed, rfl⟩ := each hash List.mem_cons_self
    obtain ⟨chain, listed', rfl⟩ := ih fun other member =>
      each other (List.mem_cons_of_mem _ member)
    refine ⟨record :: chain, ?_, rfl⟩
    intro other member
    rcases List.mem_cons.mp member with rfl | member
    · exact listed
    · exact listed' other member

end Catalogues

theorem serves_of_keeps (keeps : Directory.Keeps magic files records chain)
    (catalogues : index.Catalogues records) : index.Serves (some files) chain := by
  have lines {chain : List Record} (listed : ∀ record ∈ chain, ∃ file, record ∈ records file) :
      Line index.blocks (chain.map Record.hash) ↔ Record.Line records chain :=
    catalogues.line_iff keeps.isMarker keeps.holds listed
  have single {hash other : BlockHash} (isGenesis : IsGenesis index.blocks hash)
      (isOther : IsGenesis index.blocks other) : hash = other := by
    obtain ⟨location, found, isZero⟩ := isGenesis
    obtain ⟨location', found', isZero'⟩ := isOther
    obtain ⟨file, record, listed, rfl, previous⟩ := catalogues.record_of_found found
    obtain ⟨file', record', listed', rfl, previous'⟩ := catalogues.record_of_found found'
    rw [keeps.single listed listed' (previous.trans isZero) (previous'.trans isZero')]
  have isLine : Line index.blocks (chain.map Record.hash) :=
    (lines keeps.line.listed).mpr keeps.line
  have mainChain : index.mainChain.toList = chain.map Record.hash := by
    obtain ⟨isMain, longest⟩ := mainChain_relink single
    rw [catalogues.isLinked] at isMain longest
    obtain ⟨other, listed, isOther⟩ := catalogues.exists_records isMain
    rw [← isOther] at isMain longest ⊢
    by_cases same : other = chain
    · rw [same]
    · have shorter := keeps.longest ((lines listed).mp isMain) same
      have longest := longest isLine
      rw [List.length_map, List.length_map] at longest
      omega
  refine ⟨mainChain, ?_, ?_⟩
  · intro record member
    obtain ⟨file, listed⟩ := keeps.line.listed record member
    obtain ⟨location, found, read, -, txs⟩ := catalogues.located keeps.isMarker keeps.holds listed
    exact ⟨location, found, read, txs⟩
  · intro i record found
    have stands : StandsAt index.blocks i record.hash :=
      isLine.standsAt (by rw [List.getElem?_map, found, Option.map_some])
    rw [← catalogues.isLinked]
    exact (heights_relink single).mpr ⟨i, stands, rfl⟩

namespace Serves

variable {directory : Directory} {height : Height} {record : Record}

theorem blockAt?_eq (serves : index.Serves directory chain)
    (found : chain[height.toNat]? = some record) :
    ∃ location, index.blockAt? height = some (record.hash, location) ∧
      BlockDir.readAt directory location = .ok record.bytes ∧
      location.txs = UInt64.ofNat record.count := by
  obtain ⟨location, isBlock, read, txs⟩ := serves.located record (List.mem_of_getElem? found)
  have isMain : index.mainChain[height.toNat]? = some record.hash := by
    rw [← Array.getElem?_toList, serves.mainChain, List.getElem?_map, found, Option.map_some]
  refine ⟨location, ?_, read, txs⟩
  rw [blockAt?, isMain]
  show (index.blocks[record.hash]?.bind fun location => some (record.hash, location)) = _
  rw [isBlock]
  rfl

theorem blockAt?_eq_none (serves : index.Serves directory chain)
    (beyond : chain[height.toNat]? = none) : index.blockAt? height = none := by
  have notMain : index.mainChain[height.toNat]? = none := by
    rw [← Array.getElem?_toList, serves.mainChain, List.getElem?_map, beyond, Option.map_none]
  rw [blockAt?, notMain]
  rfl

theorem tipHeight?_eq (serves : index.Serves directory chain) (nonempty : chain ≠ []) :
    index.tipHeight? = some (UInt32.ofNat (chain.length - 1)) := by
  have size : index.mainChain.size = chain.length := by
    rw [← Array.length_toList, serves.mainChain, List.length_map]
  have notEmpty : ¬ index.mainChain.isEmpty = true := by
    rw [Array.isEmpty_iff_size_eq_zero, size, List.length_eq_zero_iff]
    exact nonempty
  rw [tipHeight?, if_neg notEmpty, size]

/-- The places are those of a part of the chain. -/
structure Portion (index : BlockIndex) (directory : Directory) (chain : List Record)
    (first count : Nat) (places : List BlockDir.Place) : Prop where
  consecutive : BlockDir.Consecutive first places
  length_eq : places.length = count
  readable : ∀ place ∈ places, BlockDir.Readable directory index place
  raws : places.map (BlockDir.rawAt directory) = ((Record.raws chain).drop first).take count
  txs : BlockDir.txsAt places = (((chain.drop first).take count).map Record.count).sum

theorem portion_nil (first : Nat) : Portion index directory chain first 0 [] where
  consecutive := rfl
  length_eq := rfl
  readable := by rintro _ ⟨⟩
  raws := rfl
  txs := rfl

/-- Every part of the chain has its places. -/
theorem placesAt_eq (serves : index.Serves directory chain) (file : Option UInt32)
    (few : chain.length ≤ 2 ^ 32) (small : ∀ record ∈ chain, record.count < 2 ^ 64)
    {first count : Nat} (inside : ∀ i < count, first + i < chain.length) :
    ∃ places, BlockDir.placesAt index file ((List.range' first count).map UInt32.ofNat) =
      .ok places ∧ Portion index directory chain first count places := by
  induction count generalizing first with
  | zero => exact ⟨[], rfl, portion_nil first⟩
  | succ count ih =>
    have here : first < chain.length := inside 0 (Nat.succ_pos count)
    have later (i : Nat) (lt : i < count) : first + 1 + i < chain.length := by
      have behind := inside (i + 1) (Nat.succ_lt_succ lt)
      omega
    obtain ⟨more, isMore, portion⟩ := ih later
    have isFirst : (UInt32.ofNat first).toNat = first :=
      UInt32.toNat_ofNat_of_lt (Nat.lt_of_lt_of_le here few)
    have found : chain[(UInt32.ofNat first).toNat]? = some chain[first] := by
      rw [isFirst, List.getElem?_eq_getElem here]
    obtain ⟨location, isPlace, read, isTxs⟩ := serves.blockAt?_eq found
    have raw : BlockDir.rawAt directory (UInt32.ofNat first, location) =
        ⟨UInt32.ofNat first, chain[first].bytes⟩ := by
      rw [BlockDir.rawAt, read]
      rfl
    have isCount : location.txs.toNat = chain[first].count := by
      rw [isTxs]
      exact UInt64.toNat_ofNat_of_lt (small _ (List.getElem_mem here))
    refine ⟨(UInt32.ofNat first, location) :: more, ?_, ?_⟩
    · rw [List.range'_succ, List.map_cons, BlockDir.placesAt, isPlace]
      simp only [isMore]
      rfl
    · constructor
      · exact BlockDir.Consecutive.cons_iff.mpr ⟨isFirst, portion.consecutive⟩
      · rw [List.length_cons, portion.length_eq]
      · intro place listed
        rcases List.mem_cons.mp listed with rfl | listed
        · exact ⟨⟨_, isPlace⟩, _, read⟩
        · exact portion.readable place listed
      · rw [List.map_cons, raw, portion.raws, Record.drop_raws here, List.take_succ_cons]
      · have txs := portion.txs
        rw [BlockDir.txsAt] at txs ⊢
        rw [List.map_cons, List.sum_cons, txs, isCount, List.drop_eq_getElem_cons here,
          List.take_succ_cons, List.map_cons, List.sum_cons]

/-- The runs between two heights, as far as the chain goes. -/
theorem runsIn_eq (serves : index.Serves directory chain) (nonempty : chain ≠ [])
    (few : chain.length < 2 ^ 32) (total : (chain.map Record.count).sum < 2 ^ 64)
    (first last : Height) :
    ∃ runs parts, BlockDir.runsIn index first last = .ok runs ∧
      List.Forall₂ BlockDir.Spans runs parts ∧
      Portion index directory chain first.toNat
        (min last.toNat (chain.length - 1) + 1 - first.toNat) parts.flatten ∧
      runs.IsChain fun before after => before.file ≠ after.file := by
  have length : 0 < chain.length := List.length_pos_iff.mpr nonempty
  have small (record : Record) (listed : record ∈ chain) : record.count < 2 ^ 64 :=
    Nat.lt_of_le_of_lt (List.single_le_sum (fun _ _ => Nat.zero_le _) _
      (List.mem_map_of_mem listed)) total
  have isTip : (UInt32.ofNat (chain.length - 1)).toNat = chain.length - 1 :=
    UInt32.toNat_ofNat_of_lt (Nat.lt_of_le_of_lt (Nat.sub_le _ _) few)
  have isEnd : (min last (UInt32.ofNat (chain.length - 1))).toNat =
      min last.toNat (chain.length - 1) := by
    show (if last ≤ UInt32.ofNat (chain.length - 1) then last
      else UInt32.ofNat (chain.length - 1)).toNat = _
    simp only [UInt32.le_iff_toNat_le, isTip]
    split
    · omega
    · omega
  have inside (i : Nat) (lt : i < min last.toNat (chain.length - 1) + 1 - first.toNat) :
      first.toNat + i < chain.length := by
    omega
  obtain ⟨places, isPlaces, portion⟩ := serves.placesAt_eq none (Nat.le_of_lt few) small inside
  have fewer : places.length < 2 ^ 32 := by
    rw [portion.length_eq]
    omega
  have smaller : BlockDir.txsAt places < 2 ^ 64 := by
    rw [portion.txs]
    refine Nat.lt_of_le_of_lt (List.Sublist.sum_le_sum ?_ fun _ _ => Nat.zero_le _) total
    exact ((List.take_sublist _ _).trans (List.drop_sublist _ _)).map _
  obtain ⟨runs, parts, joined, spans, rfl, apart⟩ :=
    BlockDir.joinRuns_of_consecutive portion.consecutive fewer smaller
  refine ⟨runs, parts, ?_, spans, portion, apart⟩
  rw [BlockDir.runsIn, serves.tipHeight?_eq nonempty]
  simp only
  rw [heightsFrom, isEnd, isPlaces]
  exact joined

end Serves

end BlockIndex

/-! ## The answers -/

namespace BlockDir

variable {magic : Bytes} {files : Std.ExtTreeMap String Bytes} {records : UInt32 → List Record}
variable {chain : List Record} {index : BlockIndex} {dir : BlockDir}

/-- The states of a source that was opened on a directory, and has answered some
questions since while the directory stayed the same. -/
inductive Asked (magic : Bytes) (directory : Directory) : BlockDir → Prop
  | opened : Asked magic directory { directory }
  | tipHeight {dir : BlockDir} : Asked magic directory dir →
      Asked magic directory (dir.tipHeight magic).2
  | blockRuns {dir : BlockDir} (first last : Height) : Asked magic directory dir →
      Asked magic directory (dir.blockRuns magic first last).2
  | readBlocks {dir : BlockDir} (run : BlockRun) : Asked magic directory dir →
      Asked magic directory (dir.readBlocks magic run).2
  | blockAtHeight {dir : BlockDir} (height : Height) : Asked magic directory dir →
      Asked magic directory (dir.blockAtHeight magic height).2
  | blockByHash {dir : BlockDir} (hash : BlockHash) : Asked magic directory dir →
      Asked magic directory (dir.blockByHash magic hash).2

/-- The source was not asked yet, or has scanned its directory. -/
structure Current (files : Std.ExtTreeMap String Bytes) (index : BlockIndex) (dir : BlockDir) :
    Prop where
  directory : dir.directory = some files
  isOpen : dir.isLocked = false
  index : dir.index = {} ∨ dir.index = index

/-- An answer does not need a number that does not exist. -/
def Answers {α : Type} (result : Except SyncError α) : Prop :=
  ∀ fault, result ≠ .error (.number fault)

/-- Whatever is asked is answered from the index of the directory. -/
theorem ask_of_current {α : Type} {answer : Directory → BlockIndex → Except SyncError α}
    (scans : BlockIndex.rescan (some files) magic {} = (index, .ok ()))
    (again : index.rescan (some files) magic = (index, .ok ())) (current : Current files index dir)
    (answers : Answers (answer (some files) index)) :
    (dir.ask magic answer).1 = answer (some files) index ∧
      Current files index (dir.ask magic answer).2 := by
  have rescans : dir.index.rescan (some files) magic = (index, .ok ()) := by
    rcases current.index with isNew | same
    · rw [isNew, scans]
    · rw [same, again]
  rw [ask, current.isOpen, if_neg Bool.false_ne_true, current.directory, rescans]
  simp only
  split
  · next fault failed => exact absurd failed (answers fault)
  · exact ⟨rfl, rfl, rfl, .inr rfl⟩

theorem Answers.ok {α : Type} (value : α) : Answers (.ok value : Except SyncError α) := by
  rintro fault ⟨⟩

theorem answers_readAt (directory : Directory) (location : Location) :
    Answers (readAt directory location) := by
  intro fault failed
  rw [readAt] at failed
  split at failed
  · cases failed
  · cases failed

theorem answers_readAll (directory : Directory) (index : BlockIndex) (file : UInt32) (count : Nat)
    (height : Height) : Answers (readAll directory index file count height) := by
  induction count generalizing height with
  | zero => exact Answers.ok []
  | succ count ih =>
    intro fault failed
    rw [readAll] at failed
    split at failed
    · cases failed
    · next hash location _ =>
      cases read : readAt directory location with
      | error failure =>
        rw [read] at failed
        cases failed
        exact answers_readAt directory location fault read
      | ok bytes =>
        rw [read] at failed
        cases later : readAll directory index file count (height + 1) with
        | error failure =>
          rw [later] at failed
          cases failed
          exact ih (height + 1) fault later
        | ok raws =>
          rw [later] at failed
          cases failed

theorem Answers.map {α β : Type} {result : Except SyncError α} (answers : Answers result)
    (f : α → β) : Answers (result.map f) := by
  intro fault failed
  cases result with
  | ok value => cases failed
  | error failure =>
    cases failed
    exact answers fault rfl

section Kept

variable (keeps : Directory.Keeps magic files records chain)

include keeps

theorem ne_nil_of_keeps : chain ≠ [] := by
  rintro rfl
  obtain ⟨file, record, listed, isZero⟩ := keeps.root
  have line : Record.Line records [record] := by
    refine ⟨?_, ?_, List.isChain_singleton record⟩
    · intro other member
      rw [List.mem_singleton.mp member]
      exact ⟨file, listed⟩
    · rintro _ ⟨⟩
      exact isZero
  exact Nat.not_lt_zero _ (keeps.longest line (List.cons_ne_nil _ _))

/-- While the directory stays the same, the source keeps one index of it. -/
theorem exists_index : ∃ index : BlockIndex, index.Serves (some files) chain ∧
    (∀ {dir : BlockDir}, Asked magic (some files) dir → Current files index dir) ∧
    ∀ {α : Type} {answer : Directory → BlockIndex → Except SyncError α} {dir : BlockDir},
      Asked magic (some files) dir → Answers (answer (some files) index) →
        (dir.ask magic answer).1 = answer (some files) index := by
  obtain ⟨index, scans, catalogues, again⟩ :=
    BlockIndex.rescan_of_holds keeps.isMarker keeps.holds keeps.distinct
  have serves := BlockIndex.serves_of_keeps keeps catalogues
  have current {dir : BlockDir} (asked : Asked magic (some files) dir) :
      Current files index dir := by
    induction asked with
    | opened => exact ⟨rfl, rfl, .inl rfl⟩
    | tipHeight _ current => exact (ask_of_current scans again current (Answers.ok _)).2
    | blockRuns first last _ current =>
      refine (ask_of_current scans again current ?_).2
      obtain ⟨runs, _, isRuns, -⟩ := serves.runsIn_eq (ne_nil_of_keeps keeps) keeps.heights
        keeps.counts first last
      rw [isRuns]
      exact Answers.ok runs
    | readBlocks run _ current =>
      exact (ask_of_current scans again current (answers_readAll _ _ _ _ _)).2
    | blockAtHeight height _ current =>
      refine (ask_of_current scans again current ?_).2
      split
      · exact Answers.ok _
      · exact (answers_readAt _ _).map _
    | blockByHash hash _ current =>
      refine (ask_of_current scans again current ?_).2
      split
      · exact Answers.ok _
      · split
        · exact Answers.ok _
        · split
          · exact (answers_readAt _ _).map _
          · exact Answers.ok _
  exact ⟨index, serves, current, fun asked answers =>
    (ask_of_current scans again (current asked) answers).1⟩

/-- What a directory answers about the longest line of its records, from the time
when it was opened on, and as long as it stays the same. -/
theorem serves_of_asked {dir : BlockDir} (asked : Asked magic (some files) dir) :
    (dir.tipHeight magic).1 = .ok (some (UInt32.ofNat (chain.length - 1))) ∧
    (∀ first tip : Height, tip.toNat + 1 = chain.length → first ≤ tip →
      ∃ runs raws, (dir.blockRuns magic first tip).1 = .ok runs ∧
        Coverage.check tip first runs = .ok () ∧
        runs.IsChain (fun before after => before.file ≠ after.file) ∧
        (runs.map fun run => run.blocks.toNat).sum = tip.toNat - first.toNat + 1 ∧
        (runs.map fun run => run.txs.toNat).sum =
          ((chain.drop first.toNat).map Record.count).sum ∧
        List.Forall₂ (fun run raws => ∀ {dir : BlockDir}, Asked magic (some files) dir →
          (dir.readBlocks magic run).1 = .ok raws) runs raws ∧
        raws.flatten = (Record.raws chain).drop first.toNat) ∧
    (∀ height : Height, (dir.blockAtHeight magic height).1 =
      .ok (Record.raws chain)[height.toNat]?) ∧
    (∀ (i : Nat) (record : Record), chain[i]? = some record →
      (dir.blockByHash magic record.hash).1 = .ok (some ⟨UInt32.ofNat i, record.bytes⟩)) ∧
    ∀ hash : BlockHash, (∀ record ∈ chain, record.hash ≠ hash) →
      (dir.blockByHash magic hash).1 = .ok none := by
  obtain ⟨index, serves, -, answered⟩ := exists_index keeps
  have nonempty := ne_nil_of_keeps keeps
  have gives {α : Type} {answer : Directory → BlockIndex → Except SyncError α} {value : α}
      (isValue : answer (some files) index = .ok value) : (dir.ask magic answer).1 = .ok value := by
    rw [answered asked (isValue ▸ Answers.ok value), isValue]
  refine ⟨?_, ?_, ?_, ?_, ?_⟩
  · rw [← serves.tipHeight?_eq nonempty]
    exact gives rfl
  · intro first tip isTip inOrder
    obtain ⟨runs, parts, isRuns, spans, portion, apart⟩ :=
      serves.runsIn_eq nonempty keeps.heights keeps.counts first tip
    have inOrder := UInt32.le_iff_toNat_le.mp inOrder
    have count : min tip.toNat (chain.length - 1) + 1 - first.toNat =
        chain.length - first.toNat := by
      omega
    rw [count] at portion
    have length := portion.length_eq
    have notTop : tip ≠ Height.top := by
      have heights := keeps.heights
      have top : Height.top.toNat = 4294967295 := rfl
      rintro rfl
      omega
    refine ⟨runs, parts.map fun part => part.map (rawAt (some files)), gives isRuns,
      check_of_spans spans portion.consecutive notTop (by omega), apart, ?_, ?_, ?_, ?_⟩
    · rw [sum_blocks_of_spans spans, length]
      omega
    · rw [sum_txs_of_spans spans, portion.txs, List.take_of_length_le]
      rw [List.length_drop]
    · refine (readAll_of_spans spans portion.readable).imp fun run raws read dir asked => ?_
      exact (answered asked (answers_readAll _ _ _ _ _)).trans read
    · rw [← List.map_flatten, portion.raws, List.take_of_length_le]
      rw [List.length_drop, Record.raws, List.length_map, List.length_zipIdx]
  · intro height
    apply gives
    rw [Record.getElem?_raws]
    cases found : chain[height.toNat]? with
    | none =>
      rw [serves.blockAt?_eq_none found]
      rfl
    | some record =>
      obtain ⟨location, isPlace, read, -⟩ := serves.blockAt?_eq found
      rw [isPlace]
      simp only
      rw [read, Option.map_some, UInt32.ofNat_toNat]
      rfl
  · intro i record found
    have below : i < 2 ^ 32 :=
      Nat.lt_trans (List.getElem?_eq_some_iff.mp found).1 keeps.heights
    have isHeight : (UInt32.ofNat i).toNat = i := UInt32.toNat_ofNat_of_lt below
    obtain ⟨location, isPlace, read, -⟩ := serves.blockAt?_eq (isHeight.symm ▸ found)
    apply gives
    rw [serves.heights found]
    simp only [isPlace]
    rw [if_pos trivial, read]
    rfl
  · intro hash unknown
    apply gives
    cases index.heights[hash]? with
    | none => rfl
    | some height =>
      simp only
      cases found : chain[height.toNat]? with
      | none => rw [serves.blockAt?_eq_none found]
      | some record =>
        obtain ⟨location, isPlace, -, -⟩ := serves.blockAt?_eq found
        rw [isPlace]
        exact if_neg (unknown record (List.mem_of_getElem? found))

end Kept

end BlockDir

/-! ## A small directory -/

section Pair

/-- One file with two records. -/
def pairRecords (first second : Record) (file : UInt32) : List Record :=
  if file = 0 then [second, first] else []

/-- The file ends in room for more records. -/
def pairFiles (magic : Bytes) (first second : Record) : Std.ExtTreeMap String Bytes :=
  Directory.oneFile
    ((pairRecords first second 0).flatMap (Record.encode magic) ++ [0, 0, 0, 0, 0])

variable {magic : Bytes} {first second : Record}

theorem getElem?_pairRecords {file : UInt32} {i : Nat} {record : Record}
    (found : (pairRecords first second file)[i]? = some record) :
    file = 0 ∧ (i = 0 ∧ record = second ∨ i = 1 ∧ record = first) := by
  rw [pairRecords] at found
  split at found
  · next isZero =>
    refine ⟨isZero, ?_⟩
    match i, found with
    | 0, found => exact .inl ⟨rfl, (Option.some.inj found).symm⟩
    | 1, found => exact .inr ⟨rfl, (Option.some.inj found).symm⟩
  · cases found

theorem mem_pairRecords {file : UInt32} {record : Record}
    (listed : record ∈ pairRecords first second file) : record = second ∨ record = first := by
  obtain ⟨i, found⟩ := List.mem_iff_getElem?.mp listed
  rcases (getElem?_pairRecords found).2 with ⟨-, same⟩ | ⟨-, same⟩
  · exact .inl same
  · exact .inr same

/-- Of a block and the one that follows it, no line is longer than both together. -/
theorem longest_pair (isRoot : first.previous = Digest.zero 32) (follows : first.Follows second)
    (apart : first.hash ≠ second.hash) {other : List Record}
    (line : Record.Line (pairRecords first second) other) (different : other ≠ [first, second]) :
    other.length < 2 := by
  -- only the second record follows another one, and nothing follows it
  have next {before after : Record} (member : after ∈ other) (isNext : before.Follows after) :
      after = second ∧ before.hash = first.hash := by
    obtain ⟨file, listed⟩ := line.listed after member
    rcases mem_pairRecords listed with rfl | rfl
    · exact ⟨rfl, isNext.1.symm.trans follows.1⟩
    · exact absurd isRoot isNext.2
  cases other with
  | nil => exact Nat.zero_lt_two
  | cons one more =>
    cases more with
    | nil => exact Nat.one_lt_two
    | cons two more =>
      exfalso
      obtain ⟨isNext, linked⟩ := List.isChain_cons_cons.mp line.linked
      obtain ⟨rfl, -⟩ := next (List.mem_cons_of_mem _ List.mem_cons_self) isNext
      obtain ⟨file, listed⟩ := line.listed one List.mem_cons_self
      rcases mem_pairRecords listed with rfl | rfl
      · exact follows.2 (line.start _ rfl)
      · cases more with
        | nil => exact different rfl
        | cons three more =>
          obtain ⟨isNext, -⟩ := List.isChain_cons_cons.mp linked
          have member : three ∈ one :: two :: three :: more := by simp
          exact apart (next member isNext).2.symm

theorem keeps_pairFiles (isMarker : IsMarker magic) (isRoot : first.previous = Digest.zero 32)
    (follows : first.Follows second) (apart : first.hash ≠ second.hash)
    (counts : first.count + second.count < 2 ^ 64) :
    Directory.Keeps magic (pairFiles magic first second) (pairRecords first second)
      [first, second] where
  isMarker := isMarker
  holds := {
    contents := by
      intro file listed
      rw [pairFiles, Directory.blockFiles_oneFile] at listed
      rw [List.mem_singleton.mp listed]
      exact ⟨_, .zeros, Directory.contents?_oneFile _⟩
    inFiles := by
      intro file nowhere
      rw [pairFiles, Directory.blockFiles_oneFile] at nowhere
      exact if_neg fun isZero => nowhere (List.mem_singleton.mpr isZero) }
  distinct := by
    intro file file' i i' record record' found found' same
    obtain ⟨rfl, ⟨rfl, rfl⟩ | ⟨rfl, rfl⟩⟩ := getElem?_pairRecords found
    · obtain ⟨rfl, ⟨rfl, rfl⟩ | ⟨rfl, rfl⟩⟩ := getElem?_pairRecords found'
      · exact ⟨rfl, rfl⟩
      · exact absurd same.symm apart
    · obtain ⟨rfl, ⟨rfl, rfl⟩ | ⟨rfl, rfl⟩⟩ := getElem?_pairRecords found'
      · exact absurd same apart
      · exact ⟨rfl, rfl⟩
  root := ⟨0, first, List.mem_cons_of_mem _ List.mem_cons_self, isRoot⟩
  single := by
    intro file file' record record' listed listed' isZero isZero'
    rcases mem_pairRecords listed with rfl | rfl
    · exact absurd isZero follows.2
    · rcases mem_pairRecords listed' with rfl | rfl
      · exact absurd isZero' follows.2
      · rfl
  line := by
    refine ⟨?_, ?_, List.isChain_pair.mpr follows⟩
    · intro record member
      refine ⟨0, ?_⟩
      rcases List.mem_pair.mp member with rfl | rfl
      · exact List.mem_cons_of_mem _ List.mem_cons_self
      · exact List.mem_cons_self
    · rintro _ ⟨⟩
      exact isRoot
  longest := longest_pair isRoot follows apart
  heights := by
    show 2 < 2 ^ 32
    decide
  counts := counts

end Pair

/-- The hash of the first block of a chain. -/
def smallHash : BlockHash :=
  ⟨[0xb2, 0x21, 0xd4, 0xa0, 0x4b, 0xed, 0xbf, 0x38, 0x34, 0x88, 0x03, 0x17, 0x1c, 0xf9, 0x37, 0x31,
    0x94, 0xe5, 0xd1, 0xad, 0xbf, 0xb3, 0xa4, 0x9a, 0x84, 0x70, 0x8b, 0xd9, 0x93, 0xc6, 0xcd,
    0x9d], rfl⟩

/-- The header of that block or of the next one, by what it follows. -/
def smallHeader (previous : BlockHash) : Header :=
  ⟨1, previous, Digest.zero 32, Digest.zero 32, 0, 0, 0⟩

theorem hash_smallHeader : (smallHeader (Digest.zero 32)).hash = smallHash ∧
    (smallHeader smallHash).hash ≠ smallHash := by
  decide +kernel

/-- A directory with these two blocks serves them in the order of the chain. -/
theorem serves_small :
    let magic := Network.regtest.magic
    let first := Record.bare (smallHeader (Digest.zero 32))
    let second := Record.bare (smallHeader smallHash)
    let dir : BlockDir := { directory := some (pairFiles magic first second) }
    (dir.tipHeight magic).1 = .ok (some 1) ∧
    (∃ runs raws, (dir.blockRuns magic 0 1).1 = .ok runs ∧ Coverage.check 1 0 runs = .ok () ∧
      (runs.map fun run => run.blocks.toNat).sum = 2 ∧
      (runs.map fun run => run.txs.toNat).sum = 2 ∧
      List.Forall₂ (fun run raws => (dir.readBlocks magic run).1 = .ok raws) runs raws ∧
      raws.flatten = [⟨0, first.bytes⟩, ⟨1, second.bytes⟩]) ∧
    (dir.blockAtHeight magic 2).1 = .ok none ∧
    (dir.blockByHash magic second.hash).1 = .ok (some ⟨1, second.bytes⟩) := by
  intro magic first second dir
  have follows : first.Follows second := ⟨hash_smallHeader.1.symm, by decide⟩
  have apart : first.hash ≠ second.hash := fun same =>
    hash_smallHeader.2 (same.symm.trans hash_smallHeader.1)
  have keeps : Directory.Keeps magic (pairFiles magic first second) (pairRecords first second)
      [first, second] :=
    keeps_pairFiles ⟨rfl, by decide⟩ rfl follows apart (by decide)
  have asked : BlockDir.Asked magic (some (pairFiles magic first second)) dir := .opened
  obtain ⟨tip, runs, atHeight, byHash, -⟩ := BlockDir.serves_of_asked keeps asked
  obtain ⟨runs, raws, isRuns, covered, -, blocks, txs, reads, isRaws⟩ := runs 0 1 rfl (by decide)
  refine ⟨tip, ⟨runs, raws, isRuns, covered, blocks, txs, ?_, isRaws⟩, atHeight 2,
    byHash 1 second rfl⟩
  exact reads.imp fun run raws read => read asked

end ClaimLedger
