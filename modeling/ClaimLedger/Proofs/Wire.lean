/-
# What a decoder takes

A decoder works on the front of its input and leaves the rest. `Takes` says how
many bytes it takes at least when it succeeds. One after the other, decoders take
the sum. So a header and each transaction have their bytes, and no block that can
be read announces more transactions than it has bytes. A header that was written
takes just what was written.
-/

import ClaimLedger.Block
import ClaimLedger.Bytes.Lemmas

namespace ClaimLedger

namespace Decoder

variable {α β : Type} {least more : Nat}

/-- When it succeeds, the decoder takes at least so many bytes. -/
def Takes (item : Decoder α) (least : Nat) : Prop :=
  ∀ input value rest, item input = .ok (value, rest) → least + rest.length ≤ input.length

namespace Takes

theorem weaken {item : Decoder α} (takes : Takes item more) (le : least ≤ more) :
    Takes item least := by
  intro input value rest read
  have taken := takes input value rest read
  omega

theorem pure (value : α) : Takes (Pure.pure value : Decoder α) 0 := by
  intro input value rest read
  cases read
  exact Nat.le_of_eq (Nat.zero_add _)

theorem throw (cause : WireError) : Takes (MonadExcept.throw cause : Decoder α) least := by
  intro input value rest read
  cases read

theorem bind {item : Decoder α} {next : α → Decoder β} (first : Takes item least)
    (second : ∀ value, Takes (next value) more) : Takes (item >>= next) (least + more) := by
  intro input value rest read
  have runs : (item >>= next) input = (item input >>= fun result => next result.1 result.2) := rfl
  rw [runs] at read
  cases taken : item input with
  | error cause =>
    rw [taken] at read
    cases read
  | ok result =>
    rw [taken] at read
    have before := first _ _ _ taken
    have after := second result.1 _ _ _ read
    omega

/-- A decoder takes what its first part takes. -/
theorem front {item : Decoder α} {next : α → Decoder β} (first : Takes item least)
    (second : ∀ value, Takes (next value) 0) : Takes (item >>= next) least :=
  first.bind second

/-- A check that may fail, in front of the rest. -/
theorem guard {condition : Prop} [Decidable condition] {cause : WireError}
    {rest : Unit → Decoder α} (takes : Takes (rest ()) least) :
    Takes (if condition then (MonadExcept.throw cause : Decoder Unit) >>= rest else rest ())
      least := by
  split
  · intro input value left read
    cases read
  · exact takes

theorem ite {condition : Prop} [Decidable condition] {yes no : Decoder α}
    (isYes : Takes yes least) (isNo : Takes no least) :
    Takes (if condition then yes else no) least := by
  split
  · exact isYes
  · exact isNo

theorem bytes (n : Nat) : Takes (Decoder.bytes n) n := by
  intro input value rest read
  rw [Decoder.bytes] at read
  split at read
  · cases read
  · next cut =>
    cases read
    obtain ⟨rfl, length⟩ := Bytes.splitExact?_eq_some_iff.mp cut
    exact Nat.le_of_eq (by rw [List.length_append, length])

theorem nat (n : Nat) : Takes (Decoder.nat n) n :=
  (bytes n).front fun _ => pure _

theorem word : Takes Decoder.word 4 :=
  (nat 4).front fun _ => pure _

theorem longWord : Takes Decoder.longWord 8 :=
  (nat 8).front fun _ => pure _

theorem digest (n : Nat) : Takes (Decoder.digest n) n := by
  intro input value rest read
  rw [Decoder.digest] at read
  split at read
  · cases read
  · next cut =>
    split at read
    · cases read
    · cases read
      obtain ⟨rfl, length⟩ := Bytes.splitExact?_eq_some_iff.mp cut
      exact Nat.le_of_eq (by rw [List.length_append, length])

theorem atLeast (bound n : Nat) : Takes (Decoder.atLeast bound n) n :=
  (nat n).front fun _ => ite (throw _) (pure _)

theorem count : Takes Decoder.count 1 :=
  (nat 1).front fun _ => ite (pure _) <| ite ((atLeast _ _).weaken (Nat.zero_le _)) <|
    ite ((atLeast _ _).weaken (Nat.zero_le _)) ((atLeast _ _).weaken (Nat.zero_le _))

theorem times {item : Decoder α} (takes : Takes item 0) (n : Nat) :
    Takes (Decoder.times item n) 0 := by
  induction n with
  | zero => exact pure _
  | succ n ih => exact takes.front fun _ => ih.front fun _ => pure _

theorem counted {item : Decoder α} (takes : Takes item 0) : Takes (Decoder.counted item) 0 :=
  (count.weaken (Nat.zero_le _)).front fun n => times takes n

theorem countedBytes : Takes Decoder.countedBytes 0 :=
  (count.weaken (Nat.zero_le _)).front fun n => (bytes n).weaken (Nat.zero_le _)

end Takes

/-! ## Reading back what was written -/

theorem bind_ok {item : Decoder α} {next : α → Decoder β} {input rest : Bytes} {value : α}
    (read : item input = .ok (value, rest)) : (item >>= next) input = next value rest := by
  have runs : (item >>= next) input = (item input >>= fun result => next result.1 result.2) := rfl
  rw [runs, read]
  rfl

theorem word_append (word : UInt32) (rest : Bytes) :
    Decoder.word (Encode.word word ++ rest) = .ok (word, rest) := by
  have cut : Bytes.splitExact? 4 (Encode.word word ++ rest) = some (Encode.word word, rest) :=
    Bytes.splitExact?_eq_some_iff.mpr ⟨rfl, Bytes.length_ofNatLE 4 _⟩
  have value : Bytes.toNatLE (Encode.word word) = word.toNat := by
    rw [Encode.word, Bytes.toNatLE_ofNatLE]
    exact Nat.mod_eq_of_lt word.toNat_lt
  have read : Decoder.bytes 4 (Encode.word word ++ rest) = .ok (Encode.word word, rest) := by
    rw [Decoder.bytes, cut]
  have number : Decoder.nat 4 (Encode.word word ++ rest) =
      .ok (Bytes.toNatLE (Encode.word word), rest) := bind_ok read
  have whole : Decoder.word (Encode.word word ++ rest) =
      .ok (UInt32.ofNat (Bytes.toNatLE (Encode.word word)), rest) := bind_ok number
  rw [whole, value, UInt32.ofNat_toNat]

theorem digest_append {n : Nat} (digest : Digest n) (rest : Bytes) :
    Decoder.digest n (digest.bytes ++ rest) = .ok (digest, rest) := by
  have cut : Bytes.splitExact? n (digest.bytes ++ rest) = some (digest.bytes, rest) :=
    Bytes.splitExact?_eq_some_iff.mpr ⟨rfl, digest.length_eq⟩
  rw [Decoder.digest, cut]
  simp only [Digest.ofBytes?_eq_some_iff.mpr rfl]

end Decoder

open Decoder

theorem Header.parse_append (header : Header) (rest : Bytes) :
    Header.parse (header.encode ++ rest) = .ok (header, rest) := by
  have read : Header.decoder (header.encode ++ rest) = .ok (header, rest) := by
    simp only [Header.encode, List.append_assoc]
    rw [Header.decoder, bind_ok (word_append _ _), bind_ok (digest_append _ _),
      bind_ok (digest_append _ _), bind_ok (digest_append _ _), bind_ok (word_append _ _),
      bind_ok (word_append _ _), bind_ok (word_append _ _)]
    rfl
  rw [Header.parse, read]

theorem Header.takes_decoder : Takes Header.decoder Header.size :=
  Takes.word.bind fun _ => (Takes.digest 32).bind fun _ => (Takes.digest 32).bind fun _ =>
    (Takes.digest 32).bind fun _ => Takes.word.bind fun _ => Takes.word.bind fun _ =>
      Takes.word.bind fun _ => Takes.pure _

theorem OutPoint.takes_decoder : Takes OutPoint.decoder 0 :=
  ((Takes.digest 32).bind fun _ => Takes.word.bind fun _ => Takes.pure _).weaken (Nat.zero_le _)

theorem TxIn.takes_decoder : Takes TxIn.decoder 0 :=
  OutPoint.takes_decoder.front fun _ => Takes.countedBytes.front fun _ =>
    (Takes.word.weaken (Nat.zero_le _)).front fun _ => Takes.pure _

theorem TxOut.takes_decoder : Takes TxOut.decoder 0 :=
  (Takes.longWord.weaken (Nat.zero_le _)).front fun _ => Takes.countedBytes.front fun _ =>
    Takes.pure _

theorem Witness.takes_items (total n filled : Nat) : Takes (Witness.items total n filled) 0 := by
  induction n generalizing filled with
  | zero => exact Takes.pure _
  | succ n ih =>
    rw [Witness.items]
    refine (Takes.count.weaken (Nat.zero_le _)).front fun size => ?_
    refine Takes.guard (Takes.guard ?_)
    exact ((Takes.bytes size).weaken (Nat.zero_le _)).front fun _ => (ih _).front fun _ =>
      Takes.pure _

theorem Witness.takes_decoder : Takes Witness.decoder 0 :=
  (Takes.count.weaken (Nat.zero_le _)).front fun total =>
    Takes.guard (Witness.takes_items total total _)

theorem Transaction.takes_witnesses (inputs : List TxIn) :
    Takes (Transaction.witnesses inputs) 0 := by
  induction inputs with
  | nil => exact Takes.pure _
  | cons input more ih =>
    exact Witness.takes_decoder.front fun _ => ih.front fun _ => Takes.pure _

theorem Transaction.takes_decoder : Takes Transaction.decoder 4 := by
  have ending {inputs : List TxIn} {outputs : List TxOut} {version : Int32} :
      Takes (do return (⟨version, inputs, outputs, ← Decoder.word⟩ : Transaction)) 0 :=
    (Takes.word.weaken (Nat.zero_le _)).front fun _ => Takes.pure _
  have outputs : Takes (Decoder.counted TxOut.decoder) 0 := Takes.counted TxOut.takes_decoder
  rw [Transaction.decoder]
  refine Takes.word.front fun version => (Takes.counted TxIn.takes_decoder).front fun inputs => ?_
  refine Takes.ite ?_ (outputs.front fun _ => ending)
  have marker : Takes Decoder.byte 0 :=
    ((Takes.nat 1).weaken (Nat.zero_le _)).front fun _ => Takes.pure _
  refine marker.front fun _ => Takes.guard ?_
  refine (Takes.counted TxIn.takes_decoder).front fun _ => outputs.front fun _ => ?_
  refine (Transaction.takes_witnesses _).front fun _ => ?_
  exact Takes.guard ending

namespace Block

variable {bytes rest : Bytes} {header : Header} {count : Nat} {block : Block}

/-- What announces a number of transactions has a header, and a byte for the
number. -/
theorem size_lt_of_announced (read : announced bytes = .ok (header, count, rest)) :
    Header.size + rest.length < bytes.length := by
  rw [announced, Header.parse] at read
  cases isHeader : Header.decoder bytes with
  | error cause =>
    rw [isHeader] at read
    cases read
  | ok result =>
    obtain ⟨header, left⟩ := result
    rw [isHeader] at read
    simp only [bind, Except.bind] at read
    split at read
    · cases read
    · next isCount =>
      cases read
      have front := Header.takes_decoder bytes header left isHeader
      have behind := Takes.count left count rest isCount
      omega

theorem length_readTransactions {n index : Nat} {transactions : List Transaction}
    (read : readTransactions n index bytes = .ok (transactions, rest)) :
    n + rest.length ≤ bytes.length := by
  induction n generalizing index bytes transactions with
  | zero =>
    cases read
    exact Nat.le_of_eq (Nat.zero_add _)
  | succ n ih =>
    rw [readTransactions] at read
    split at read
    · cases read
    · next tx left isTx =>
      have taken := Transaction.takes_decoder bytes tx left isTx
      cases isMore : readTransactions n (index + 1) left with
      | error cause =>
        rw [isMore] at read
        cases read
      | ok result =>
        obtain ⟨more, after⟩ := result
        rw [isMore] at read
        cases read
        have taken' := ih isMore
        omega

/-- A block that can be read announces no more transactions than it has bytes. -/
theorem count_le_of_parse (read : announced bytes = .ok (header, count, rest))
    (parsed : parse bytes = .ok block) : count ≤ bytes.length := by
  rw [parse, read] at parsed
  simp only [bind, Except.bind] at parsed
  split at parsed
  · cases parsed
  · cases isRead : readTransactions count 0 rest with
    | error cause =>
      rw [isRead] at parsed
      cases parsed
    | ok result =>
      have taken := length_readTransactions isRead
      have front := size_lt_of_announced read
      omega

end Block

end ClaimLedger
