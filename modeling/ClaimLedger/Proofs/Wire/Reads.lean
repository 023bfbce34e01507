/-
# What a decoder reads

`Reads` describes a decoder completely where it succeeds: by which bytes spell which
value. A described decoder takes exactly such a spelling off the front of its input and
never looks at what is behind it. Descriptions are put together as decoders are, one
rule for each way to build a decoder. So the description of a number, a count or a list
is found once, and larger formats only have to be simplified. Every number has one
spelling here, which is what makes reading and writing inverse to each other.
-/

import Mathlib.Tactic.SplitIfs
import ClaimLedger.Proofs.Wire

namespace ClaimLedger

namespace Decoder

variable {α β : Type}

/-- The decoder succeeds exactly in front of a spelling, and leaves what is behind. -/
def Reads (item : Decoder α) (spells : α → Bytes → Prop) : Prop :=
  ∀ input value rest, item input = .ok (value, rest) ↔
    ∃ taken, spells value taken ∧ input = taken ++ rest

namespace Reads

variable {item : Decoder α} {spells : α → Bytes → Prop}

/-- A description may be put in other words. -/
theorem congr {other : α → Bytes → Prop} (reads : Reads item spells)
    (same : ∀ value taken, spells value taken ↔ other value taken) : Reads item other := by
  intro input value rest
  simp only [reads input value rest, same]

/-- Where each value has one spelling, the input begins with it. -/
theorem iff {fits : α → Prop} {encode : α → Bytes}
    (reads : Reads item fun value taken => fits value ∧ taken = encode value)
    {input rest : Bytes} {value : α} :
    item input = .ok (value, rest) ↔ fits value ∧ input = encode value ++ rest := by
  rw [reads input value rest]
  constructor
  · rintro ⟨_, ⟨isFit, rfl⟩, rfl⟩
    exact ⟨isFit, rfl⟩
  · rintro ⟨isFit, rfl⟩
    exact ⟨_, ⟨isFit, rfl⟩, rfl⟩

theorem pure (value : α) :
    Reads (Pure.pure value : Decoder α) fun read taken => read = value ∧ taken = [] := by
  intro input read rest
  constructor
  · rintro ⟨⟩
    exact ⟨[], ⟨rfl, rfl⟩, rfl⟩
  · rintro ⟨_, ⟨rfl, rfl⟩, rfl⟩
    rfl

/-- The spelling of what is read in two steps is that of the first in front of that of
the second. -/
theorem bind {next : α → Decoder β} {after : α → β → Bytes → Prop} (first : Reads item spells)
    (second : ∀ value, Reads (next value) (after value)) :
    Reads (item >>= next) fun value taken => ∃ before front back,
      spells before front ∧ after before value back ∧ taken = front ++ back := by
  intro input value rest
  have runs : (item >>= next) input = (item input >>= fun result => next result.1 result.2) := rfl
  rw [runs]
  constructor
  · intro read
    cases isFirst : item input with
    | error cause =>
      rw [isFirst] at read
      cases read
    | ok result =>
      obtain ⟨before, left⟩ := result
      rw [isFirst] at read
      obtain ⟨front, isFront, rfl⟩ := (first _ _ _).mp isFirst
      obtain ⟨back, isBack, rfl⟩ := (second before _ _ _).mp read
      exact ⟨front ++ back, ⟨before, front, back, isFront, isBack, rfl⟩, by
        rw [List.append_assoc]⟩
  · rintro ⟨_, ⟨before, front, back, isFront, isBack, rfl⟩, rfl⟩
    have isFirst : item (front ++ back ++ rest) = .ok (before, back ++ rest) :=
      (first _ _ _).mpr ⟨front, isFront, List.append_assoc _ _ _⟩
    rw [isFirst]
    exact (second before _ _ _).mpr ⟨back, isBack, rfl⟩

theorem ite {condition : Prop} [Decidable condition] {other : Decoder α}
    {otherwise : α → Bytes → Prop} (yes : Reads item spells) (no : Reads other otherwise) :
    Reads (if condition then item else other) fun value taken =>
      if condition then spells value taken else otherwise value taken := by
  split
  · exact yes
  · exact no

/-- A check that may fail, in front of the rest. -/
theorem guard {condition : Prop} [Decidable condition] {cause : WireError}
    {rest : Unit → Decoder α} (reads : Reads (rest ()) spells) :
    Reads (if condition then (MonadExcept.throw cause : Decoder Unit) >>= rest else rest ())
      fun value taken => ¬ condition ∧ spells value taken := by
  split
  · next fails =>
    intro input value left
    constructor
    · rintro ⟨⟩
    · rintro ⟨_, ⟨holds, _⟩, _⟩
      exact absurd fails holds
  · next holds => exact reads.congr fun value taken => (and_iff_right holds).symm

/-! ## Bytes, numbers and digests -/

theorem bytes (n : Nat) : Reads (Decoder.bytes n) fun value taken =>
    value.length = n ∧ taken = value := by
  intro input value rest
  have cut : Decoder.bytes n input = .ok (value, rest) ↔
      Bytes.splitExact? n input = some (value, rest) := by
    rw [Decoder.bytes]
    split
    · next none => simp [none]
    · next found => simp [found]
  rw [cut, Bytes.splitExact?_eq_some_iff]
  constructor
  · rintro ⟨rfl, length⟩
    exact ⟨value, ⟨length, rfl⟩, rfl⟩
  · rintro ⟨_, ⟨length, rfl⟩, rfl⟩
    exact ⟨rfl, length⟩

theorem nat (n : Nat) : Reads (Decoder.nat n) fun value taken =>
    value < 256 ^ n ∧ taken = Bytes.ofNatLE n value := by
  refine ((bytes n).bind fun _ => pure _).congr fun value taken => ?_
  constructor
  · rintro ⟨before, _, _, ⟨rfl, rfl⟩, ⟨rfl, rfl⟩, rfl⟩
    rw [List.append_nil, Bytes.ofNatLE_toNatLE]
    exact ⟨Bytes.toNatLE_lt _, rfl⟩
  · rintro ⟨fits, rfl⟩
    refine ⟨_, _, [], ⟨Bytes.length_ofNatLE n value, rfl⟩, ⟨?_, rfl⟩, (List.append_nil _).symm⟩
    rw [Bytes.toNatLE_ofNatLE, Nat.mod_eq_of_lt fits]

theorem byte : Reads Decoder.byte fun value taken => taken = [value] := by
  refine ((nat 1).bind fun _ => pure _).congr fun value taken => ?_
  constructor
  · rintro ⟨before, _, _, ⟨-, rfl⟩, ⟨rfl, rfl⟩, rfl⟩
    rfl
  · rintro rfl
    refine ⟨value.toNat, _, [], ⟨value.toNat_lt, rfl⟩, ⟨UInt8.ofNat_toNat.symm, rfl⟩, ?_⟩
    simp [Bytes.ofNatLE]

theorem word : Reads Decoder.word fun value taken => taken = Encode.word value := by
  refine ((nat 4).bind fun _ => pure _).congr fun value taken => ?_
  constructor
  · rintro ⟨before, _, _, ⟨fits, rfl⟩, ⟨rfl, rfl⟩, rfl⟩
    have number : (UInt32.ofNat before).toNat = before := UInt32.toNat_ofNat_of_lt fits
    rw [Encode.word, number, List.append_nil]
  · rintro rfl
    exact ⟨value.toNat, _, [], ⟨value.toNat_lt, rfl⟩, ⟨UInt32.ofNat_toNat.symm, rfl⟩,
      (List.append_nil _).symm⟩

theorem longWord : Reads Decoder.longWord fun value taken => taken = Encode.longWord value := by
  refine ((nat 8).bind fun _ => pure _).congr fun value taken => ?_
  constructor
  · rintro ⟨before, _, _, ⟨fits, rfl⟩, ⟨rfl, rfl⟩, rfl⟩
    have number : (UInt64.ofNat before).toNat = before := UInt64.toNat_ofNat_of_lt fits
    rw [Encode.longWord, number, List.append_nil]
  · rintro rfl
    exact ⟨value.toNat, _, [], ⟨value.toNat_lt, rfl⟩, ⟨UInt64.ofNat_toNat.symm, rfl⟩,
      (List.append_nil _).symm⟩

theorem digest (n : Nat) : Reads (Decoder.digest n) fun value taken => taken = value.bytes := by
  intro input value rest
  constructor
  · intro read
    rw [Decoder.digest] at read
    split at read
    · cases read
    · next cut =>
      split at read
      · cases read
      · next isDigest =>
        cases read
        exact ⟨_, Digest.ofBytes?_eq_some_iff.mp isDigest,
          (Bytes.splitExact?_eq_some_iff.mp cut).1⟩
  · rintro ⟨_, rfl, rfl⟩
    exact digest_append value rest

/-! ## Counts and lists -/

theorem atLeast (least n : Nat) : Reads (Decoder.atLeast least n) fun value taken =>
    (least ≤ value ∧ value < 256 ^ n) ∧ taken = Bytes.ofNatLE n value := by
  have checked (value : Nat) : Reads (do
        if value < least then throw .nonMinimalCount
        return value : Decoder Nat)
      fun read taken => ¬ value < least ∧ read = value ∧ taken = [] := guard (pure value)
  refine ((nat n).bind checked).congr fun value taken => ?_
  constructor
  · rintro ⟨before, _, _, ⟨fits, rfl⟩, ⟨least, rfl, rfl⟩, rfl⟩
    exact ⟨⟨Nat.not_lt.mp least, fits⟩, List.append_nil _⟩
  · rintro ⟨⟨least, fits⟩, rfl⟩
    exact ⟨value, _, [], ⟨fits, rfl⟩, ⟨Nat.not_lt.mpr least, rfl, rfl⟩, (List.append_nil _).symm⟩

/-- A count has one spelling, the shortest that has room for it. -/
theorem count : Reads Decoder.count fun n taken => n < 2 ^ 64 ∧ taken = Encode.count n := by
  refine ((nat 1).bind fun marker => ite (pure marker) <| ite (atLeast 0xfd 2) <|
    ite (atLeast 0x10000 4) (atLeast 0x100000000 8)).congr fun n taken => ?_
  constructor
  · rintro ⟨marker, _, back, ⟨fits, rfl⟩, read, rfl⟩
    split_ifs at read with isOne isTwo isFour
    · obtain ⟨rfl, rfl⟩ := read
      rw [Encode.count, if_pos isOne, List.append_nil]
      exact ⟨by omega, rfl⟩
    · obtain ⟨⟨least, most⟩, rfl⟩ := read
      rw [Encode.count, if_neg (by omega), if_pos (by omega), isTwo]
      exact ⟨by omega, rfl⟩
    · obtain ⟨⟨least, most⟩, rfl⟩ := read
      rw [Encode.count, if_neg (by omega), if_neg (by omega), if_pos (by omega), isFour]
      exact ⟨by omega, rfl⟩
    · obtain ⟨⟨least, most⟩, rfl⟩ := read
      have isEight : marker = 0xff := by omega
      rw [Encode.count, if_neg (by omega), if_neg (by omega), if_neg (by omega), isEight]
      exact ⟨by omega, rfl⟩
  · rintro ⟨fits, rfl⟩
    rw [Encode.count]
    split_ifs with isOne isTwo isFour
    · refine ⟨n, _, [], ⟨by omega, rfl⟩, ?_, (List.append_nil _).symm⟩
      rw [if_pos isOne]
      exact ⟨rfl, rfl⟩
    · exact ⟨0xfd, _, _, ⟨by decide, rfl⟩, ⟨⟨by omega, by omega⟩, rfl⟩, rfl⟩
    · exact ⟨0xfe, _, _, ⟨by decide, rfl⟩, ⟨⟨by omega, by omega⟩, rfl⟩, rfl⟩
    · exact ⟨0xff, _, _, ⟨by decide, rfl⟩, ⟨⟨by omega, by omega⟩, rfl⟩, rfl⟩

/-- A list is spelled by its items one after the other. -/
theorem times {fits : α → Prop} {encode : α → Bytes}
    (reads : Reads item fun value taken => fits value ∧ taken = encode value) (n : Nat) :
    Reads (Decoder.times item n) fun values taken =>
      (values.length = n ∧ ∀ value ∈ values, fits value) ∧ taken = values.flatMap encode := by
  induction n with
  | zero =>
    refine (pure []).congr fun values taken => ?_
    rw [List.length_eq_zero_iff]
    constructor
    · rintro ⟨rfl, rfl⟩
      exact ⟨⟨rfl, by simp⟩, rfl⟩
    · rintro ⟨⟨rfl, -⟩, rfl⟩
      exact ⟨rfl, rfl⟩
  | succ n ih =>
    refine (reads.bind fun _ => ih.bind fun _ => pure _).congr fun values taken => ?_
    constructor
    · rintro ⟨first, _, _, ⟨fitsFirst, rfl⟩, ⟨more, _, _, ⟨⟨rfl, fitMore⟩, rfl⟩, ⟨rfl, rfl⟩, rfl⟩,
        rfl⟩
      refine ⟨⟨rfl, List.forall_mem_cons.mpr ⟨fitsFirst, fitMore⟩⟩, ?_⟩
      rw [List.flatMap_cons, List.append_nil]
    · rintro ⟨⟨length, fit⟩, rfl⟩
      cases values with
      | nil => cases length
      | cons first more =>
        obtain ⟨fitsFirst, fitMore⟩ := List.forall_mem_cons.mp fit
        refine ⟨first, _, _, ⟨fitsFirst, rfl⟩, ⟨more, _, [], ⟨⟨Nat.succ.inj length, fitMore⟩, rfl⟩,
          ⟨rfl, rfl⟩, rfl⟩, ?_⟩
        rw [List.flatMap_cons, List.append_nil]

theorem counted {fits : α → Prop} {encode : α → Bytes}
    (reads : Reads item fun value taken => fits value ∧ taken = encode value) :
    Reads (Decoder.counted item) fun values taken =>
      (values.length < 2 ^ 64 ∧ ∀ value ∈ values, fits value) ∧
        taken = Encode.counted encode values := by
  refine (count.bind fun n => times reads n).congr fun values taken => ?_
  constructor
  · rintro ⟨n, _, _, ⟨fits, rfl⟩, ⟨⟨rfl, fit⟩, rfl⟩, rfl⟩
    exact ⟨⟨fits, fit⟩, rfl⟩
  · rintro ⟨⟨fits, fit⟩, rfl⟩
    exact ⟨_, _, _, ⟨fits, rfl⟩, ⟨⟨rfl, fit⟩, rfl⟩, rfl⟩

theorem countedBytes : Reads Decoder.countedBytes fun value taken =>
    value.length < 2 ^ 64 ∧ taken = Encode.countedBytes value := by
  refine (count.bind fun n => bytes n).congr fun value taken => ?_
  constructor
  · rintro ⟨n, _, _, ⟨fits, rfl⟩, ⟨rfl, rfl⟩, rfl⟩
    exact ⟨fits, rfl⟩
  · rintro ⟨fits, rfl⟩
    exact ⟨_, _, _, ⟨fits, rfl⟩, ⟨rfl, rfl⟩, rfl⟩

end Reads

end Decoder

end ClaimLedger
