/-
# Scanning block files

A block file is a sequence of records: the network's marker, the length of the
block as four bytes, and the block. It may end in zeros that were reserved for
later records, or in a record that is still being written; both are left for
the next scan. A scan reads only what was added since the last one, and links
the index again when it found a block.
-/

import Std.Data.ExtTreeMap
import ClaimLedger.BlockDir.Index
import ClaimLedger.Error

namespace ClaimLedger

/-- A directory with the contents of its files by name; `none` when the
directory itself is missing. -/
abbrev Directory := Option (Std.ExtTreeMap String Bytes)

namespace Directory

/-- The value of a decimal number of any length, with an optional plus sign;
`none` unless it fits into 32 bits. -/
def fileNumber? (digits : List Char) : Option UInt32 :=
  let digits := match digits with
    | '+' :: rest => rest
    | _ => digits
  if digits.isEmpty || !digits.all Char.isDigit then none
  else
    let value := digits.foldl (fun value digit => value * 10 + (digit.toNat - 48)) 0
    if value < 0x100000000 then some (UInt32.ofNat value) else none

/-- The file number in a name: what stands between the fixed first and last
parts of the name of a block file. -/
def numberOfName? (name : String) : Option UInt32 := do
  let chars := name.toList
  guard ("blk".toList.isPrefixOf chars)
  let rest := chars.drop 3
  guard (".dat".toList.isSuffixOf rest)
  fileNumber? (rest.take (rest.length - 4))

/-- The name under which the block file of a number is opened: at least five
digits. -/
def nameOfNumber (file : UInt32) : String :=
  let digits := toString file.toNat
  "blk" ++ String.ofList (List.replicate (5 - digits.length) '0') ++ digits ++ ".dat"

/-- The numbers in the names of block files, in ascending order. A number comes
as often as there are names for it. -/
def blockFiles (files : Std.ExtTreeMap String Bytes) : List UInt32 :=
  (files.keys.filterMap numberOfName?).mergeSort fun a b => a ≤ b

/-- The contents of the block file of a number. -/
def contents? (directory : Directory) (file : UInt32) : Option Bytes := do
  (← directory)[nameOfNumber file]?

/-- Add bytes to the end of a file; the directory and the file come into being
if they were missing. -/
def append (directory : Directory) (name : String) (bytes : Bytes) : Directory :=
  let files := directory.getD ∅
  some (files.insert name (files[name]?.getD [] ++ bytes))

/-- Give a file a length: what is beyond it is cut off, what is missing is
filled with zeros. -/
def setLength (directory : Directory) (name : String) (length : Nat) : Directory :=
  directory.map fun files => files.modify name fun bytes =>
    bytes.take length ++ List.replicate (length - bytes.length) 0

/-- Delete a file. -/
def delete (directory : Directory) (name : String) : Directory :=
  directory.map fun files => files.erase name

end Directory

/-- What the front of a file's unscanned part holds. -/
inductive RecordHead where
  /-- No complete record yet. -/
  | pause
  /-- Something that is no record. -/
  | damage (reason : Corruption)
  /-- A block, and what comes after it. -/
  | record (block rest : Bytes)

namespace RecordHead

/-- The length of the marker and the length field together. -/
def lead : Nat := 8

/-- Look at the front of a file's part that starts at the given offset. -/
def ofBytes (magic : Bytes) (offset : Nat) (data : Bytes) : RecordHead :=
  match Bytes.splitExact? lead data with
  | none => pause
  | some (head, rest) =>
    let marker := head.take 4
    let length := Bytes.toNatLE (head.drop 4)
    if marker = [0, 0, 0, 0] then pause
    else if marker ≠ magic then damage (.badMagic marker offset)
    else
      match Bytes.splitExact? length rest with
      | none => pause
      | some (block, rest) =>
        if length < Header.size then damage (.shortRecord length offset)
        else record block rest

/-- A record of the given bytes, its length field being what they say it is or
not. -/
def encode (magic : Bytes) (length : UInt32) (block : Bytes) : Bytes :=
  magic ++ Encode.word length ++ block

theorem length_rest_lt {magic data block rest : Bytes} {offset : Nat}
    (h : ofBytes magic offset data = record block rest) : rest.length < data.length := by
  unfold ofBytes at h
  split at h
  · cases h
  · rename_i head tail hhead
    obtain ⟨rfl, hlead⟩ := Bytes.splitExact?_eq_some_iff.mp hhead
    dsimp only at h
    split at h
    · cases h
    split at h
    · cases h
    split at h
    · cases h
    · rename_i body tail' hbody
      obtain ⟨rfl, _⟩ := Bytes.splitExact?_eq_some_iff.mp hbody
      split at h
      · cases h
      · simp only [record.injEq] at h
        obtain ⟨rfl, rfl⟩ := h
        simp only [List.length_append, hlead, lead]
        omega

end RecordHead

namespace BlockIndex

/-- A block in a file as the index remembers it. -/
def locate (file : UInt32) (offset : Nat) (block : Bytes) :
    Except BlockError (BlockHash × Location) := do
  let (header, count, _) ← Block.announced block
  return (header.hash, {
    file, offset
    length := block.length
    previous := header.previous
    txs := UInt64.ofNat count })

/-- The blocks in a file's part that starts at the given offset, and the offset
of what is left for the next scan. The blocks in front of a damage come back
with it. -/
def scanRecords (magic : Bytes) (file : UInt32) (offset : Nat) (data : Bytes) :
    List (BlockHash × Location) × Except Corruption Nat :=
  match _h : RecordHead.ofBytes magic offset data with
  | .pause => ([], .ok offset)
  | .damage reason => ([], .error reason)
  | .record block rest =>
    match locate file (offset + RecordHead.lead) block with
    | .error cause => ([], .error (.badBlock cause))
    | .ok entry =>
      let (more, result) :=
        scanRecords magic file (offset + RecordHead.lead + block.length) rest
      (entry :: more, result)
termination_by data.length
decreasing_by exact RecordHead.length_rest_lt _h

/-- Remember blocks, the later entry for a hash instead of an earlier one. -/
def remember (index : BlockIndex) (found : List (BlockHash × Location)) : BlockIndex :=
  { index with
    blocks := found.foldl (fun blocks (hash, location) => blocks.insert hash location)
      index.blocks }

/-- Scan what was added to one file, and report how many blocks that gave. -/
def scanFile (directory : Directory) (magic : Bytes) (index : BlockIndex) (file : UInt32) :
    BlockIndex × Except SyncError Nat :=
  match directory.contents? file with
  | none => (index, .error (.sourceUnavailable ["open " ++ Directory.nameOfNumber file]))
  | some contents =>
    let start := index.scanned[file]?.getD 0
    let (found, result) := scanRecords magic file start (contents.drop start)
    let index := index.remember found
    match result with
    | .error reason => (index, .error (.corruptBlockData (some file) none reason))
    | .ok offset =>
      ({ index with scanned := index.scanned.insert file offset }, .ok found.length)

/-- Scan files one after the other, and report how many blocks that gave. -/
def scanFiles (directory : Directory) (magic : Bytes) :
    List UInt32 → BlockIndex → BlockIndex × Except SyncError Nat
  | [], index => (index, .ok 0)
  | file :: more, index =>
    match scanFile directory magic index file with
    | (index, .error failure) => (index, .error failure)
    | (index, .ok count) =>
      let (index, rest) := scanFiles directory magic more index
      (index, rest.map (count + ·))

/-- Bring the index up to date with the directory. It is linked again only if
the whole scan succeeded and found a block. -/
def rescan (directory : Directory) (magic : Bytes) (index : BlockIndex) :
    BlockIndex × Except SyncError Unit :=
  match directory with
  | none => (index, .error (.sourceUnavailable ["read directory"]))
  | some files =>
    match scanFiles directory magic (Directory.blockFiles files) index with
    | (index, .error failure) => (index, .error failure)
    | (index, .ok count) => (if 0 < count then index.relink else index, .ok ())

end BlockIndex

end ClaimLedger
