/-
# The records of a block file

A block file holds records one after the other, and may end in something that is
no complete record yet: a few bytes, zeros, or a record that is still being
written. A scan finds exactly the records, each with its place, and stops in
front of the rest; at the place that it gives a block, the file has the bytes of
that block.
-/

import Mathlib.Algebra.GroupWithZero.Nat
import ClaimLedger.BlockDir
import ClaimLedger.Bytes.Lemmas
import ClaimLedger.Proofs.BlockDir.Linking
import ClaimLedger.Proofs.Wire

namespace ClaimLedger

/-- What a record of a block file holds: bytes that announce a number of
transactions under a header, and not too many for their length to be written. -/
structure Record where
  bytes : Bytes
  header : Header
  /-- The number of transactions that is announced. -/
  count : Nat
  rest : Bytes
  announced : Block.announced bytes = .ok (header, count, rest)
  fits : bytes.length < 0x100000000

namespace Record

variable {magic : Bytes} {file : UInt32} {offset : Nat}

/-- The hash that names the block. -/
def hash (record : Record) : BlockHash :=
  record.header.hash

/-- The hash of the block that it follows. -/
def previous (record : Record) : BlockHash :=
  record.header.previous

/-- The record as it is written. -/
def encode (magic : Bytes) (record : Record) : Bytes :=
  RecordHead.encode magic (UInt32.ofNat record.bytes.length) record.bytes

/-- The record as the index remembers it, when its block starts at a place of a
file. -/
def entry (record : Record) (file : UInt32) (offset : Nat) : BlockHash × Location :=
  (record.hash, {
    file, offset
    length := record.bytes.length
    previous := record.previous
    txs := UInt64.ofNat record.count })

theorem locate_bytes (record : Record) (file : UInt32) (offset : Nat) :
    BlockIndex.locate file offset record.bytes = .ok (record.entry file offset) := by
  rw [BlockIndex.locate, record.announced]
  rfl

/-- A header with one transaction announced behind it. -/
def bare (header : Header) : Record where
  bytes := header.encode ++ [1]
  header
  count := 1
  rest := []
  announced := by
    rw [Block.announced, Header.parse_append]
    rfl
  fits := by
    rw [List.length_append, Header.length_encode]
    decide

end Record

/-- The marker of a network: four bytes that are not all zero. -/
structure IsMarker (magic : Bytes) : Prop where
  length_eq : magic.length = 4
  ne_zeros : magic ≠ [0, 0, 0, 0]

/-- What may be behind the last complete record of a file. -/
inductive IsTail (magic : Bytes) : Bytes → Prop
  /-- Less than the front of a record. -/
  | short {rest : Bytes} : rest.length < RecordHead.lead → IsTail magic rest
  /-- Room for later records. -/
  | zeros {rest : Bytes} : IsTail magic ([0, 0, 0, 0] ++ rest)
  /-- A record that is still being written. -/
  | unfinished {length : UInt32} {block : Bytes} :
      block.length < length.toNat → IsTail magic (RecordHead.encode magic length block)

namespace RecordHead

variable {magic : Bytes} {offset : Nat}

/-- The front of a record that is written, whole or not. -/
theorem ofBytes_append (isMarker : IsMarker magic) {length : UInt32} {data : Bytes} :
    ofBytes magic offset (magic ++ Encode.word length ++ data) =
      match Bytes.splitExact? length.toNat data with
      | none => pause
      | some (block, rest) =>
        if length.toNat < Header.size then damage (.shortRecord length.toNat offset)
        else record block rest := by
  have lengthOf : (magic ++ Encode.word length).length = lead := by
    rw [List.length_append, isMarker.length_eq, Encode.word, Bytes.length_ofNatLE, lead]
  have cut : Bytes.splitExact? lead (magic ++ Encode.word length ++ data) =
      some (magic ++ Encode.word length, data) :=
    Bytes.splitExact?_eq_some_iff.mpr ⟨rfl, lengthOf⟩
  have marker : (magic ++ Encode.word length).take 4 = magic := by
    rw [← isMarker.length_eq, List.take_left]
  have field : Bytes.toNatLE ((magic ++ Encode.word length).drop 4) = length.toNat := by
    rw [← isMarker.length_eq, List.drop_left, Encode.word, Bytes.toNatLE_ofNatLE]
    exact Nat.mod_eq_of_lt length.toNat_lt
  rw [ofBytes, cut]
  simp only [marker, field]
  rw [if_neg isMarker.ne_zeros]
  exact if_neg (not_not.mpr rfl)

theorem ofBytes_of_isTail (isMarker : IsMarker magic) {rest : Bytes} (isTail : IsTail magic rest) :
    ofBytes magic offset rest = pause := by
  cases isTail with
  | short isShort =>
    have uncut : Bytes.splitExact? lead rest = none := by
      cases cut : Bytes.splitExact? lead rest with
      | none => rfl
      | some parts =>
        obtain ⟨rfl, length⟩ := Bytes.splitExact?_eq_some_iff.mp cut
        rw [List.length_append] at isShort
        omega
    rw [ofBytes, uncut]
  | @zeros rest =>
    rw [ofBytes]
    split
    · rfl
    · next head tail cut =>
      have zeros : head.take 4 = [0, 0, 0, 0] := by
        obtain ⟨same, length⟩ := Bytes.splitExact?_eq_some_iff.mp cut
        have inside : 4 ≤ head.length := by
          rw [length]
          decide
        rw [← List.take_append_of_le_length inside, ← same]
        rfl
      rw [zeros]
      rfl
  | @unfinished length block less =>
    have uncut : Bytes.splitExact? length.toNat block = none := by
      cases cut : Bytes.splitExact? length.toNat block with
      | none => rfl
      | some parts =>
        obtain ⟨rfl, length⟩ := Bytes.splitExact?_eq_some_iff.mp cut
        rw [List.length_append] at less
        omega
    rw [encode, ofBytes_append isMarker, uncut]

theorem ofBytes_encode (isMarker : IsMarker magic) (record : Record) (rest : Bytes) :
    ofBytes magic offset (record.encode magic ++ rest) = .record record.bytes rest := by
  have field : (UInt32.ofNat record.bytes.length).toNat = record.bytes.length :=
    UInt32.toNat_ofNat_of_lt record.fits
  have long : ¬ record.bytes.length < Header.size := by
    have announces := Block.size_lt_of_announced record.announced
    omega
  rw [Record.encode, encode, List.append_assoc, ofBytes_append isMarker, field,
    Bytes.splitExact?_append]
  exact if_neg long

end RecordHead

/-! ## Scanning a file -/

/-- The length of records as they are written. -/
def Record.room (records : List Record) : Nat :=
  (records.map fun record => RecordHead.lead + record.bytes.length).sum

/-- Records as the index remembers them, when the first one starts at a place of
a file. -/
def Record.entries (file : UInt32) : Nat → List Record → List (BlockHash × Location)
  | _, [] => []
  | offset, record :: more =>
    record.entry file (offset + RecordHead.lead) ::
      entries file (offset + (RecordHead.lead + record.bytes.length)) more

namespace BlockIndex

variable {magic : Bytes} {file : UInt32} {offset : Nat}

theorem scanRecords_of_pause {data : Bytes}
    (pauses : RecordHead.ofBytes magic offset data = .pause) :
    scanRecords magic file offset data = ([], .ok offset) := by
  rw [scanRecords]
  split
  · rfl
  · next damaged => cases pauses.symm.trans damaged
  · next found => cases pauses.symm.trans found

/-- Records in front of anything are found, and the scan goes on behind them. -/
theorem scanRecords_append (isMarker : IsMarker magic) (records : List Record) (rest : Bytes) :
    scanRecords magic file offset (records.flatMap (Record.encode magic) ++ rest) =
      (Record.entries file offset records ++
          (scanRecords magic file (offset + Record.room records) rest).1,
        (scanRecords magic file (offset + Record.room records) rest).2) := by
  induction records generalizing offset with
  | nil => rfl
  | cons record more ih =>
    have isHead : RecordHead.ofBytes magic offset
        ((record :: more).flatMap (Record.encode magic) ++ rest) =
          .record record.bytes (more.flatMap (Record.encode magic) ++ rest) := by
      rw [List.flatMap_cons, List.append_assoc]
      exact RecordHead.ofBytes_encode isMarker record _
    have behind : offset + RecordHead.lead + record.bytes.length + Record.room more =
        offset + Record.room (record :: more) := by
      rw [Record.room, Record.room, List.map_cons, List.sum_cons]
      omega
    rw [scanRecords]
    split
    · next pauses =>
      cases isHead.symm.trans pauses
    · next damaged =>
      cases isHead.symm.trans damaged
    · next found =>
      cases isHead.symm.trans found
      rw [record.locate_bytes, ih, behind, Record.entries, Nat.add_assoc]
      rfl

end BlockIndex

namespace Record

variable {magic : Bytes} {file : UInt32} {offset i : Nat} {records : List Record} {record : Record}

/-- The place of a block among the records of a file. -/
def place (records : List Record) (i : Nat) : Nat :=
  room (records.take i) + RecordHead.lead

theorem getElem?_entries : (entries file offset records)[i]? =
    records[i]?.map fun record => record.entry file (offset + place records i) := by
  induction records generalizing offset i with
  | nil => rfl
  | cons first more ih =>
    cases i with
    | zero => rfl
    | succ i =>
      have further : offset + (RecordHead.lead + first.bytes.length) + place more i =
          offset + place (first :: more) (i + 1) := by
        rw [place, place, List.take_succ_cons, room, room, List.map_cons, List.sum_cons]
        omega
      rw [entries, List.getElem?_cons_succ, List.getElem?_cons_succ, ih, further]

theorem length_encode (isMarker : IsMarker magic) (record : Record) :
    (record.encode magic).length = RecordHead.lead + record.bytes.length := by
  rw [encode, RecordHead.encode, List.length_append, List.length_append, isMarker.length_eq,
    Encode.word, Bytes.length_ofNatLE]
  rfl

theorem length_flatMap_encode (isMarker : IsMarker magic) (records : List Record) :
    (records.flatMap (encode magic)).length = room records := by
  induction records with
  | nil => rfl
  | cons record more ih =>
    rw [List.flatMap_cons, List.length_append, ih, length_encode isMarker, room, room,
      List.map_cons, List.sum_cons]

/-- At the place of a block, the file has its bytes. -/
theorem splitExact?_place (isMarker : IsMarker magic) (found : records[i]? = some record)
    (rest : Bytes) :
    ∃ left, Bytes.splitExact? record.bytes.length
      ((records.flatMap (encode magic) ++ rest).drop (place records i)) =
        some (record.bytes, left) := by
  have parts : records = records.take i ++ record :: records.drop (i + 1) := by
    obtain ⟨inside, isRecord⟩ := List.getElem?_eq_some_iff.mp found
    rw [← isRecord, ← List.drop_eq_getElem_cons inside, List.take_append_drop]
  have front : ((records.take i).flatMap (encode magic) ++
      (magic ++ Encode.word (UInt32.ofNat record.bytes.length))).length = place records i := by
    rw [List.length_append, length_flatMap_encode isMarker, List.length_append,
      isMarker.length_eq, Encode.word, Bytes.length_ofNatLE]
    rfl
  have contents : records.flatMap (encode magic) ++ rest =
      ((records.take i).flatMap (encode magic) ++
        (magic ++ Encode.word (UInt32.ofNat record.bytes.length))) ++
      (record.bytes ++ ((records.drop (i + 1)).flatMap (encode magic) ++ rest)) := by
    conv_lhs => rw [parts]
    rw [List.flatMap_append, List.flatMap_cons, encode, RecordHead.encode]
    simp only [List.append_assoc]
  rw [contents, ← front, List.drop_left]
  exact ⟨_, Bytes.splitExact?_append _ _⟩

end Record

/-! ## A directory with one file -/

namespace Directory

/-- A directory with one block file. -/
def oneFile (contents : Bytes) : Std.ExtTreeMap String Bytes :=
  (∅ : Std.ExtTreeMap String Bytes).insert (nameOfNumber 0) contents

theorem blockFiles_oneFile (contents : Bytes) : blockFiles (oneFile contents) = [0] := by
  have keys : (oneFile contents).keys = ["blk00000.dat"] := rfl
  have numbers : ["blk00000.dat"].filterMap numberOfName? = [0] := by decide +kernel
  rw [blockFiles, keys, numbers]
  exact List.mergeSort_singleton 0

theorem contents?_oneFile (contents : Bytes) :
    contents? (some (oneFile contents)) 0 = some contents := by
  show (oneFile contents)[nameOfNumber 0]? = some contents
  rw [oneFile, Std.ExtTreeMap.getElem?_insert_self]

end Directory

end ClaimLedger
