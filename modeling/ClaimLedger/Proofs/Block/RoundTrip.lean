/-
# Blocks and their bytes

Every block has one way to be written, and reading accepts nothing else. The descriptions
of the parts are put together here to that of a whole block: a header of fixed length, a
count, and as many transactions, each in the form that its witnesses ask for. The form with
witnesses begins like a transaction without inputs, so a transaction that has none must use
it; then the first count tells the forms apart. What is read can therefore be written back
byte by byte, and no block is the beginning of another one.
-/

import Mathlib.Logic.Basic
import ClaimLedger.Block
import ClaimLedger.Proofs.Wire.Reads

namespace ClaimLedger

open Decoder

/-! ## Inputs and outputs -/

theorem OutPoint.reads_decoder :
    Reads OutPoint.decoder fun outpoint taken => taken = outpoint.encode := by
  refine ((Reads.digest 32).bind fun _ => Reads.bind Reads.word fun _ => Reads.pure _).congr
    fun outpoint taken => ?_
  constructor
  · rintro ⟨txid, _, _, rfl, ⟨vout, _, _, rfl, ⟨rfl, rfl⟩, rfl⟩, rfl⟩
    rw [OutPoint.encode, List.append_nil]
  · rintro rfl
    exact ⟨_, _, _, rfl, ⟨_, _, [], rfl, ⟨rfl, rfl⟩, rfl⟩, by rw [OutPoint.encode, List.append_nil]⟩

namespace TxIn

/-- The input without its witness. -/
def bare (input : TxIn) : TxIn :=
  { input with witness := [] }

/-- A count has room for the length of the script. -/
def Fits (input : TxIn) : Prop :=
  input.script.length < 2 ^ 64

theorem map_bare {inputs : List TxIn} (bare : ∀ input ∈ inputs, input.witness = []) :
    inputs.map TxIn.bare = inputs := by
  rw [List.map_congr_left (g := id), List.map_id]
  intro input listed
  obtain ⟨previous, script, sequence, witness⟩ := input
  cases bare _ listed
  rfl

/-- Inputs are written without their witnesses. -/
theorem counted_map_bare (inputs : List TxIn) :
    Encode.counted TxIn.encode (inputs.map TxIn.bare) = Encode.counted TxIn.encode inputs := by
  rw [Encode.counted, Encode.counted, List.length_map, List.flatMap_map]
  rfl

theorem reads_decoder : Reads TxIn.decoder fun input taken =>
    (input.witness = [] ∧ input.Fits) ∧ taken = input.encode := by
  refine (Reads.bind OutPoint.reads_decoder fun _ => Reads.bind Reads.countedBytes fun _ =>
    Reads.bind Reads.word fun _ => Reads.pure _).congr fun input taken => ?_
  constructor
  · rintro ⟨previous, _, _, rfl, ⟨script, _, _, ⟨fits, rfl⟩, ⟨sequence, _, _, rfl, ⟨rfl, rfl⟩,
      rfl⟩, rfl⟩, rfl⟩
    refine ⟨⟨rfl, fits⟩, ?_⟩
    rw [TxIn.encode, List.append_nil, List.append_assoc]
  · rintro ⟨⟨bare, fits⟩, rfl⟩
    obtain ⟨previous, script, sequence, witness⟩ := input
    cases bare
    refine ⟨_, _, _, rfl, ⟨_, _, _, ⟨fits, rfl⟩, ⟨_, _, [], rfl, ⟨rfl, rfl⟩, rfl⟩, rfl⟩, ?_⟩
    rw [TxIn.encode, List.append_nil, List.append_assoc]

end TxIn

namespace TxOut

/-- A count has room for the length of the script. -/
def Fits (output : TxOut) : Prop :=
  output.script.length < 2 ^ 64

theorem reads_decoder : Reads TxOut.decoder fun output taken =>
    output.Fits ∧ taken = output.encode := by
  refine (Reads.bind Reads.longWord fun _ => Reads.bind Reads.countedBytes fun _ =>
    Reads.pure _).congr fun output taken => ?_
  constructor
  · rintro ⟨value, _, _, rfl, ⟨script, _, _, ⟨fits, rfl⟩, ⟨rfl, rfl⟩, rfl⟩, rfl⟩
    refine ⟨fits, ?_⟩
    rw [TxOut.encode, List.append_nil]
  · rintro ⟨fits, rfl⟩
    refine ⟨_, _, _, rfl, ⟨_, _, [], ⟨fits, rfl⟩, ⟨rfl, rfl⟩, rfl⟩, ?_⟩
    rw [TxOut.encode, List.append_nil]

end TxOut

/-! ## Witnesses -/

namespace Witness

/-- There is room for the remaining items of a witness, when so much is taken. -/
def ItemsFit (total : Nat) : Nat → List Bytes → Prop
  | _, [] => True
  | filled, item :: more =>
    let required := filled + item.length + (Encode.count item.length).length
    (required < 2 ^ 64 ∧ required ≤ WireError.roomLimit + 4 * total) ∧
      ItemsFit total required more

/-- There is room for the witness. -/
def Fits (witness : List Bytes) : Prop :=
  witness.length ≤ WireError.roomLimit ∧ ItemsFit witness.length (4 * witness.length) witness

theorem fits_nil : Fits [] :=
  ⟨Nat.zero_le _, trivial⟩

theorem reads_items (total n filled : Nat) : Reads (Witness.items total n filled)
    fun items taken => (items.length = n ∧ ItemsFit total filled items) ∧
      taken = items.flatMap Encode.countedBytes := by
  induction n generalizing filled with
  | zero =>
    refine (Reads.pure []).congr fun items taken => ?_
    rw [List.length_eq_zero_iff]
    constructor
    · rintro ⟨rfl, rfl⟩
      exact ⟨⟨rfl, trivial⟩, rfl⟩
    · rintro ⟨⟨rfl, -⟩, rfl⟩
      exact ⟨rfl, rfl⟩
  | succ n ih =>
    have reads : Reads (Witness.items total (n + 1) filled) _ :=
      Reads.bind Reads.count fun size => Reads.guard <| Reads.guard <|
        (Reads.bytes size).bind fun _ =>
          (ih (filled + size + (Encode.count size).length)).bind fun _ => Reads.pure _
    refine reads.congr fun items taken => ?_
    constructor
    · rintro ⟨size, _, _, ⟨-, rfl⟩, ⟨small, room, first, _, _, ⟨rfl, rfl⟩, ⟨more, _, _,
        ⟨⟨rfl, fit⟩, rfl⟩, ⟨rfl, rfl⟩, rfl⟩, rfl⟩, rfl⟩
      refine ⟨⟨rfl, ⟨Nat.not_le.mp small, Nat.not_lt.mp room⟩, fit⟩, ?_⟩
      rw [List.flatMap_cons, Encode.countedBytes, List.append_nil, List.append_assoc]
    · rintro ⟨⟨length, fit⟩, rfl⟩
      cases items with
      | nil => cases length
      | cons first more =>
        obtain ⟨⟨small, room⟩, fit⟩ := fit
        refine ⟨first.length, _, _, ⟨by omega, rfl⟩, ⟨Nat.not_le.mpr small, Nat.not_lt.mpr room,
          first, _, _, ⟨rfl, rfl⟩, ⟨more, _, [], ⟨⟨Nat.succ.inj length, fit⟩, rfl⟩, ⟨rfl, rfl⟩,
            rfl⟩, rfl⟩, ?_⟩
        rw [List.flatMap_cons, Encode.countedBytes, List.append_nil, List.append_assoc]

theorem reads_decoder : Reads Witness.decoder fun witness taken =>
    Fits witness ∧ taken = encode witness := by
  have reads : Reads Witness.decoder _ :=
    Reads.bind Reads.count fun total => Reads.guard (reads_items total total (4 * total))
  refine reads.congr fun witness taken => ?_
  constructor
  · rintro ⟨total, _, _, ⟨-, rfl⟩, ⟨few, ⟨rfl, fit⟩, rfl⟩, rfl⟩
    exact ⟨⟨Nat.not_lt.mp few, fit⟩, rfl⟩
  · rintro ⟨⟨few, fit⟩, rfl⟩
    have room : WireError.roomLimit < 2 ^ 64 := by decide
    exact ⟨_, _, _, ⟨Nat.lt_of_le_of_lt few room, rfl⟩, ⟨Nat.not_lt.mpr few, ⟨rfl, fit⟩, rfl⟩, rfl⟩

end Witness

/-! ## Transactions -/

namespace Transaction

theorem reads_witnesses (inputs : List TxIn) : Reads (Transaction.witnesses inputs)
    fun done taken => (done.map TxIn.bare = inputs.map TxIn.bare ∧
        ∀ input ∈ done, Witness.Fits input.witness) ∧
      taken = done.flatMap fun input => Witness.encode input.witness := by
  induction inputs with
  | nil =>
    refine (Reads.pure []).congr fun done taken => ?_
    rw [List.map_nil, List.map_eq_nil_iff]
    constructor
    · rintro ⟨rfl, rfl⟩
      exact ⟨⟨rfl, by simp⟩, rfl⟩
    · rintro ⟨⟨rfl, -⟩, rfl⟩
      exact ⟨rfl, rfl⟩
  | cons input more ih =>
    have reads : Reads (Transaction.witnesses (input :: more)) _ :=
      Reads.bind Witness.reads_decoder fun _ => ih.bind fun _ => Reads.pure _
    refine reads.congr fun done taken => ?_
    constructor
    · rintro ⟨witness, _, _, ⟨fits, rfl⟩, ⟨rest, _, _, ⟨⟨same, fit⟩, rfl⟩, ⟨rfl, rfl⟩, rfl⟩, rfl⟩
      refine ⟨⟨?_, List.forall_mem_cons.mpr ⟨fits, fit⟩⟩, ?_⟩
      · rw [List.map_cons, List.map_cons, same]
        rfl
      · rw [List.flatMap_cons, List.append_nil]
    · rintro ⟨⟨same, fit⟩, rfl⟩
      cases done with
      | nil => cases same
      | cons first rest =>
        obtain ⟨fits, fit⟩ := List.forall_mem_cons.mp fit
        obtain ⟨sameFirst, same⟩ := List.cons.inj same
        refine ⟨first.witness, _, _, ⟨fits, rfl⟩, ⟨rest, _, [], ⟨⟨same, fit⟩, rfl⟩, ⟨?_, rfl⟩,
          rfl⟩, ?_⟩
        · rw [TxIn.bare, TxIn.bare, TxIn.mk.injEq] at sameFirst
          obtain ⟨previous, script, sequence, -⟩ := sameFirst
          rw [← previous, ← script, ← sequence]
        · rw [List.flatMap_cons, List.append_nil]

/-- Every count and every witness of the transaction has room. -/
structure Fits (tx : Transaction) : Prop where
  inputs : tx.inputs.length < 2 ^ 64 ∧ ∀ input ∈ tx.inputs, input.Fits
  outputs : tx.outputs.length < 2 ^ 64 ∧ ∀ output ∈ tx.outputs, output.Fits
  witnesses : ∀ input ∈ tx.inputs, Witness.Fits input.witness

/-- The form with witnesses is used unless there are inputs, and none has a witness. -/
theorem usesWitnessForm_iff {tx : Transaction} : tx.usesWitnessForm = true ↔
    ¬ (!tx.inputs.isEmpty && tx.inputs.all fun input => input.witness.isEmpty) = true := by
  simp only [usesWitnessForm, Bool.not_eq_true, Bool.and_eq_false_iff, Bool.not_eq_false',
    Bool.or_eq_true, List.any_eq_not_all_not, Bool.not_not, Bool.not_eq_true']

theorem not_usesWitnessForm_iff {tx : Transaction} : ¬ tx.usesWitnessForm = true ↔
    ¬ tx.inputs.isEmpty = true ∧ ∀ input ∈ tx.inputs, input.witness = [] := by
  rw [usesWitnessForm_iff, not_not, Bool.and_eq_true, Bool.not_eq_true', Bool.not_eq_true]
  simp only [List.all_eq_true, List.isEmpty_iff]

/-- What is behind the inputs of the plain form. -/
theorem reads_behindInputs (version : Int32) (inputs : List TxIn) :
    Reads (do
        let outputs ← Decoder.counted TxOut.decoder
        return ⟨version, inputs, outputs, ← Decoder.word⟩ : Decoder Transaction)
      fun tx taken => (tx.version = version ∧ tx.inputs = inputs ∧
          tx.outputs.length < 2 ^ 64 ∧ ∀ output ∈ tx.outputs, output.Fits) ∧
        taken = Encode.counted TxOut.encode tx.outputs ++ Encode.word tx.lockTime := by
  refine ((Reads.counted TxOut.reads_decoder).bind fun _ => Reads.bind Reads.word fun _ =>
    Reads.pure _).congr fun tx taken => ?_
  constructor
  · rintro ⟨outputs, _, _, ⟨fit, rfl⟩, ⟨lockTime, _, _, rfl, ⟨rfl, rfl⟩, rfl⟩, rfl⟩
    exact ⟨⟨rfl, rfl, fit⟩, by rw [List.append_nil]⟩
  · rintro ⟨⟨rfl, rfl, fit⟩, rfl⟩
    exact ⟨_, _, _, ⟨fit, rfl⟩, ⟨_, _, [], rfl, ⟨rfl, rfl⟩, rfl⟩, by rw [List.append_nil]⟩

/-- What is behind the count of zero that begins the form with witnesses. -/
theorem reads_behindZero (version : Int32) :
    Reads (do
        let marker ← Decoder.byte
        if marker ≠ 1 then throw (.unknownMarker marker)
        let inputs ← Decoder.counted TxIn.decoder
        let outputs ← Decoder.counted TxOut.decoder
        let inputs ← witnesses inputs
        if !inputs.isEmpty && inputs.all (fun input => input.witness.isEmpty) then
          throw .missingWitness
        return ⟨version, inputs, outputs, ← Decoder.word⟩ : Decoder Transaction)
      fun tx taken => (tx.version = version ∧ tx.Fits ∧ tx.usesWitnessForm = true) ∧
        taken = 1 :: Encode.counted TxIn.encode tx.inputs ++
          Encode.counted TxOut.encode tx.outputs ++
          tx.inputs.flatMap (fun input => Witness.encode input.witness) ++
            Encode.word tx.lockTime := by
  refine Reads.congr (Reads.bind Reads.byte fun marker => Reads.guard <|
    (Reads.counted TxIn.reads_decoder).bind fun inputs =>
      (Reads.counted TxOut.reads_decoder).bind fun outputs =>
        (reads_witnesses inputs).bind fun done =>
          Reads.guard <| Reads.bind Reads.word fun _ => Reads.pure _) fun tx taken => ?_
  constructor
  · rintro ⟨marker, _, _, rfl, ⟨isOne, inputs, _, _, ⟨⟨few, fitInputs⟩, rfl⟩,
      ⟨outputs, _, _, ⟨fitOutputs, rfl⟩, ⟨done, _, _, ⟨⟨same, fitWitnesses⟩, rfl⟩,
        ⟨witnessed, lockTime, _, _, rfl, ⟨rfl, rfl⟩, rfl⟩, rfl⟩, rfl⟩, rfl⟩, rfl⟩
    rw [TxIn.map_bare fun input listed => (fitInputs input listed).1] at same
    subst same
    rw [List.length_map] at few
    have fit (input : TxIn) (listed : input ∈ done) : input.Fits :=
      (fitInputs input.bare (List.mem_map_of_mem listed)).2
    refine ⟨⟨rfl, ⟨⟨few, fit⟩, fitOutputs, fitWitnesses⟩, usesWitnessForm_iff.mpr witnessed⟩, ?_⟩
    rw [not_not.mp isOne, TxIn.counted_map_bare]
    simp only [List.append_nil, List.append_assoc, List.cons_append, List.nil_append]
  · rintro ⟨⟨rfl, fits, witnessed⟩, rfl⟩
    have fit (input : TxIn) (listed : input ∈ tx.inputs.map TxIn.bare) :
        input.witness = [] ∧ input.Fits := by
      obtain ⟨original, isInput, rfl⟩ := List.mem_map.mp listed
      exact ⟨rfl, fits.inputs.2 original isInput⟩
    have same : tx.inputs.map TxIn.bare = (tx.inputs.map TxIn.bare).map TxIn.bare :=
      (TxIn.map_bare fun input listed => (fit input listed).1).symm
    have few : (tx.inputs.map TxIn.bare).length < 2 ^ 64 := by
      rw [List.length_map]
      exact fits.inputs.1
    refine ⟨1, _, _, rfl, ⟨not_not.mpr rfl, tx.inputs.map TxIn.bare, _, _, ⟨⟨few, fit⟩, rfl⟩,
      ⟨tx.outputs, _, _, ⟨fits.outputs, rfl⟩, ⟨tx.inputs, _, _, ⟨⟨same, fits.witnesses⟩, rfl⟩,
        ⟨usesWitnessForm_iff.mp witnessed, tx.lockTime, _, [], rfl, ⟨rfl, rfl⟩, rfl⟩, rfl⟩, rfl⟩,
      rfl⟩, ?_⟩
    rw [TxIn.counted_map_bare]
    simp only [List.append_nil, List.append_assoc, List.cons_append, List.nil_append]

/-- A transaction is written in the form that it was read in. -/
theorem reads_decoder : Reads Transaction.decoder fun tx taken => tx.Fits ∧ taken = tx.encode := by
  have reads : Reads Transaction.decoder _ :=
    Reads.bind Reads.word fun word => (Reads.counted TxIn.reads_decoder).bind fun inputs =>
      Reads.ite (reads_behindZero (Int32.ofUInt32 word))
        (reads_behindInputs (Int32.ofUInt32 word) inputs)
  refine reads.congr fun tx taken => ?_
  constructor
  · rintro ⟨word, _, _, rfl, ⟨inputs, _, _, ⟨⟨few, fitInputs⟩, rfl⟩, behind, rfl⟩, rfl⟩
    split at behind
    · next isEmpty =>
      obtain ⟨⟨version, fits, witnessed⟩, rfl⟩ := behind
      refine ⟨fits, ?_⟩
      rw [encode, if_pos witnessed, encodeWitnessed, version, List.isEmpty_iff.mp isEmpty]
      simp only [List.append_assoc]
      rfl
    · next notEmpty =>
      obtain ⟨⟨version, rfl, fitOutputs⟩, rfl⟩ := behind
      have bare (input : TxIn) (listed : input ∈ tx.inputs) : input.witness = [] :=
        (fitInputs input listed).1
      refine ⟨⟨⟨few, fun input listed => (fitInputs input listed).2⟩, fitOutputs,
        fun input listed => bare input listed ▸ Witness.fits_nil⟩, ?_⟩
      rw [encode, if_neg (not_usesWitnessForm_iff.mpr ⟨notEmpty, bare⟩), encodePlain, version]
      simp only [List.append_assoc]
  · rintro ⟨fits, rfl⟩
    rw [encode]
    split
    · next witnessed =>
      refine ⟨tx.version.toUInt32, _, _, rfl, ⟨[], _,
        1 :: Encode.counted TxIn.encode tx.inputs ++ Encode.counted TxOut.encode tx.outputs ++
          tx.inputs.flatMap (fun input => Witness.encode input.witness) ++ Encode.word tx.lockTime,
        ⟨⟨by decide, by simp⟩, rfl⟩, ?_, rfl⟩, ?_⟩
      · exact ⟨⟨rfl, fits, witnessed⟩, rfl⟩
      · rw [encodeWitnessed]
        simp only [List.append_assoc]
        rfl
    · next plain =>
      obtain ⟨some, bare⟩ := not_usesWitnessForm_iff.mp plain
      refine ⟨tx.version.toUInt32, _, _, rfl, ⟨tx.inputs, _,
        Encode.counted TxOut.encode tx.outputs ++ Encode.word tx.lockTime, ⟨⟨fits.inputs.1,
          fun input listed => ⟨bare input listed, fits.inputs.2 input listed⟩⟩, rfl⟩, ?_, rfl⟩, ?_⟩
      · rw [if_neg some]
        exact ⟨⟨rfl, rfl, fits.outputs⟩, rfl⟩
      · rw [encodePlain]
        simp only [List.append_assoc]

/-- A transaction is read back from its bytes exactly if it has room. -/
theorem decode_encode_iff {tx : Transaction} : decode tx.encode = .ok tx ↔ tx.Fits := by
  have whole : decode tx.encode = .ok tx ↔ decoder tx.encode = .ok (tx, []) := by
    rw [decode, all]
    split
    · next failed => simp [failed]
    · next read => simp [read]
    · next read => simp [read]
  rw [whole, reads_decoder.iff, List.append_nil, and_iff_left rfl]

end Transaction

/-! ## Blocks -/

theorem Header.reads_decoder :
    Reads Header.decoder fun header taken => taken = header.encode := by
  refine (Reads.bind Reads.word fun _ => (Reads.digest 32).bind fun _ =>
    (Reads.digest 32).bind fun _ => (Reads.digest 32).bind fun _ => Reads.bind Reads.word fun _ =>
      Reads.bind Reads.word fun _ => Reads.bind Reads.word fun _ => Reads.pure _).congr
    fun header taken => ?_
  constructor
  · rintro ⟨version, _, _, rfl, ⟨previous, _, _, rfl, ⟨merkleRoot, _, _, rfl, ⟨claimRoot, _, _, rfl,
      ⟨time, _, _, rfl, ⟨bits, _, _, rfl, ⟨nonce, _, _, rfl, ⟨rfl, rfl⟩, rfl⟩, rfl⟩, rfl⟩, rfl⟩,
        rfl⟩, rfl⟩, rfl⟩
    simp only [Header.encode, List.append_assoc, List.append_nil]
  · rintro rfl
    refine ⟨header.version.toUInt32, _, _, rfl, ⟨_, _, _, rfl, ⟨_, _, _, rfl, ⟨_, _, _, rfl,
      ⟨_, _, _, rfl, ⟨_, _, _, rfl, ⟨_, _, [], rfl, ⟨rfl, rfl⟩, rfl⟩, rfl⟩, rfl⟩, rfl⟩, rfl⟩, rfl⟩,
        ?_⟩
    simp only [Header.encode, List.append_assoc, List.append_nil]

namespace Block

variable {bytes rest : Bytes} {header : Header} {count n index : Nat} {block : Block}
variable {transactions : List Transaction}

theorem parse_header_iff : Header.parse bytes = .ok (header, rest) ↔
    bytes = header.encode ++ rest := by
  have reads : Header.decoder bytes = .ok (header, rest) ↔ bytes = header.encode ++ rest := by
    rw [Header.reads_decoder]
    simp
  rw [← reads, Header.parse]
  split
  · next failed => simp [failed]
  · next read => simp [read]

theorem announced_iff : announced bytes = .ok (header, count, rest) ↔
    count < 2 ^ 64 ∧ bytes = header.encode ++ (Encode.count count ++ rest) := by
  constructor
  · intro read
    rw [announced] at read
    cases isHeader : Header.parse bytes with
    | error failure =>
      rw [isHeader] at read
      cases read
    | ok result =>
      obtain ⟨header', left⟩ := result
      obtain rfl := parse_header_iff.mp isHeader
      rw [isHeader] at read
      simp only [bind, Except.bind] at read
      split at read
      · cases read
      · next isCount =>
        cases read
        obtain ⟨fits, rfl⟩ := Reads.count.iff.mp isCount
        exact ⟨fits, rfl⟩
  · rintro ⟨fits, rfl⟩
    have isCount : Decoder.count (Encode.count count ++ rest) = .ok (count, rest) :=
      Reads.count.iff.mpr ⟨fits, rfl⟩
    rw [announced, parse_header_iff.mpr rfl]
    simp only [bind, Except.bind, isCount]

/-- Transactions one after the other are read back from their bytes. -/
theorem readTransactions_iff : readTransactions n index bytes = .ok (transactions, rest) ↔
    (transactions.length = n ∧ ∀ tx ∈ transactions, tx.Fits) ∧
      bytes = transactions.flatMap Transaction.encode ++ rest := by
  induction n generalizing index bytes transactions rest with
  | zero =>
    rw [readTransactions, Except.ok.injEq, Prod.mk.injEq, List.length_eq_zero_iff]
    constructor
    · rintro ⟨rfl, rfl⟩
      exact ⟨⟨rfl, by simp⟩, rfl⟩
    · rintro ⟨⟨rfl, -⟩, rfl⟩
      exact ⟨rfl, rfl⟩
  | succ n ih =>
    constructor
    · intro read
      rw [readTransactions] at read
      split at read
      · cases read
      · next tx left isFirst =>
        obtain ⟨fits, rfl⟩ := Transaction.reads_decoder.iff.mp isFirst
        cases isMore : readTransactions n (index + 1) left with
        | error failure =>
          rw [isMore] at read
          cases read
        | ok result =>
          obtain ⟨more, after⟩ := result
          obtain ⟨⟨rfl, fit⟩, rfl⟩ := ih.mp isMore
          rw [isMore] at read
          cases read
          refine ⟨⟨rfl, List.forall_mem_cons.mpr ⟨fits, fit⟩⟩, ?_⟩
          rw [List.flatMap_cons, List.append_assoc]
    · rintro ⟨⟨length, fit⟩, rfl⟩
      cases transactions with
      | nil => cases length
      | cons tx more =>
        obtain ⟨fits, fit⟩ := List.forall_mem_cons.mp fit
        have isFirst : Transaction.decoder ((tx :: more).flatMap Transaction.encode ++ rest) =
            .ok (tx, more.flatMap Transaction.encode ++ rest) :=
          Transaction.reads_decoder.iff.mpr ⟨fits, by rw [List.flatMap_cons, List.append_assoc]⟩
        have isMore : readTransactions n (index + 1) (more.flatMap Transaction.encode ++ rest) =
            .ok (more, rest) := ih.mpr ⟨⟨Nat.succ.inj length, fit⟩, rfl⟩
        rw [readTransactions, isFirst]
        simp only [isMore]
        rfl

/-- A block that can be read back from its bytes: it has transactions, no more than a count
has room for, each is read back from its own bytes, and the header has their merkle root. -/
structure IsSound (block : Block) : Prop where
  nonempty : block.transactions ≠ []
  counted : block.transactions.length < 2 ^ 64
  readable : ∀ tx ∈ block.transactions, Transaction.decode tx.encode = .ok tx
  merkleRoot : block.merkleRoot? = some block.header.merkleRoot

theorem IsSound.fit (sound : block.IsSound) : ∀ tx ∈ block.transactions, tx.Fits :=
  fun tx listed => Transaction.decode_encode_iff.mp (sound.readable tx listed)

/-- What is in front of the transactions is read first. -/
theorem announced_encode (sound : block.IsSound) :
    announced block.encode = .ok (block.header, block.transactions.length,
      block.transactions.flatMap Transaction.encode) :=
  announced_iff.mpr ⟨sound.counted, rfl⟩

/-- Fitting the header to the transactions makes a sound block of them. -/
theorem isSound_assemble (header : Header) (nonempty : transactions ≠ [])
    (counted : transactions.length < 2 ^ 64) (fit : ∀ tx ∈ transactions, tx.Fits) :
    (assemble header transactions).IsSound := by
  have some : transactions.map Transaction.txid ≠ [] := by simpa using nonempty
  obtain ⟨root, isRoot⟩ := Merkle.exists_root? some
  refine ⟨nonempty, counted, fun tx listed => Transaction.decode_encode_iff.mpr (fit tx listed), ?_⟩
  rw [merkleRoot?, assemble, isRoot]
  rfl

/-- Reading accepts the bytes of sound blocks, and gives the block that was written. -/
theorem parse_eq_ok_iff : parse bytes = .ok block ↔ block.IsSound ∧ bytes = block.encode := by
  constructor
  · intro parsed
    rw [parse] at parsed
    cases read : announced bytes with
    | error failure =>
      rw [read] at parsed
      cases parsed
    | ok result =>
      obtain ⟨header, count, rest⟩ := result
      obtain ⟨fits, rfl⟩ := announced_iff.mp read
      rw [read] at parsed
      simp only [bind, Except.bind] at parsed
      split at parsed
      · cases parsed
      · next some =>
        cases isRead : readTransactions count 0 rest with
        | error failure =>
          rw [isRead] at parsed
          cases parsed
        | ok result =>
          obtain ⟨transactions, left⟩ := result
          obtain ⟨⟨rfl, fit⟩, rfl⟩ := readTransactions_iff.mp isRead
          rw [isRead] at parsed
          simp only at parsed
          split at parsed
          · cases parsed
          · next atEnd =>
            split at parsed
            · cases parsed
            · next isRoot =>
              cases parsed
              refine ⟨⟨fun none => some (List.length_eq_zero_iff.mpr none), fits,
                fun tx listed => Transaction.decode_encode_iff.mpr (fit tx listed),
                not_not.mp isRoot⟩, ?_⟩
              rw [not_not.mp atEnd, List.append_nil]
              rfl
  · rintro ⟨sound, rfl⟩
    have isRead : readTransactions block.transactions.length 0
        (block.transactions.flatMap Transaction.encode) = .ok (block.transactions, []) :=
      readTransactions_iff.mpr ⟨⟨rfl, sound.fit⟩, (List.append_nil _).symm⟩
    have some : block.transactions.length ≠ 0 :=
      fun none => sound.nonempty (List.length_eq_zero_iff.mp none)
    rw [parse, announced_encode sound]
    simp only [bind, Except.bind, if_neg some, isRead, pure, Except.pure]
    simp [sound.merkleRoot]

/-- Before reading the transactions, their number is known. -/
theorem announcedCount_encode (sound : block.IsSound) :
    announcedCount block.encode = .ok block.transactions.length := by
  rw [announcedCount, announced_encode sound]
  rfl

theorem take_encode (block : Block) : block.encode.take Header.size = block.header.encode := by
  have size : block.header.encode.length = Header.size := Header.length_encode _
  rw [encode, ← size, List.take_left]

/-- The count in front fixes how many transactions are read, so nothing fits behind them. -/
theorem eq_nil_of_encode_append {other : Block} {more : Bytes} (sound : block.IsSound)
    (soundOther : other.IsSound) (longer : block.encode ++ more = other.encode) : more = [] := by
  have read : announced other.encode = .ok (block.header, block.transactions.length,
      block.transactions.flatMap Transaction.encode ++ more) :=
    announced_iff.mpr ⟨sound.counted, by
      rw [← longer, encode, Encode.counted, List.append_assoc, List.append_assoc]⟩
  have readOther := announced_encode soundOther
  rw [read, Except.ok.injEq, Prod.mk.injEq, Prod.mk.injEq] at readOther
  obtain ⟨-, sameCount, sameBytes⟩ := readOther
  have taken : readTransactions block.transactions.length 0
      (block.transactions.flatMap Transaction.encode ++ more) = .ok (block.transactions, more) :=
    readTransactions_iff.mpr ⟨⟨rfl, sound.fit⟩, rfl⟩
  have takenOther : readTransactions block.transactions.length 0
      (block.transactions.flatMap Transaction.encode ++ more) = .ok (other.transactions, []) :=
    readTransactions_iff.mpr ⟨⟨sameCount.symm, soundOther.fit⟩, by
      rw [sameBytes, List.append_nil]⟩
  rw [taken, Except.ok.injEq, Prod.mk.injEq] at takenOther
  exact takenOther.2

/-- Blocks go to bytes and back without loss. What is read is written back as it was, has
transactions, as many as announced in front, and its header is at the front. Every sound
block is read back from its bytes, and nothing else is read. Of two byte strings that are
read, neither goes on behind the other. -/
theorem parse_encode_roundTrip :
    (∀ bytes block, parse bytes = .ok block →
      block.transactions ≠ [] ∧ block.encode = bytes ∧
        announcedCount bytes = .ok block.transactions.length ∧
        block.header.encode = bytes.take Header.size) ∧
    (∀ block : Block, block.IsSound → parse block.encode = .ok block) ∧
    (∀ bytes, (∃ block, parse bytes = .ok block) ↔
      ∃ block : Block, block.IsSound ∧ bytes = block.encode) ∧
    (∀ bytes more block other, parse bytes = .ok block → parse (bytes ++ more) = .ok other →
      more = []) := by
  refine ⟨fun bytes block parsed => ?_, fun block sound => parse_eq_ok_iff.mpr ⟨sound, rfl⟩,
    fun bytes => exists_congr fun block => parse_eq_ok_iff,
    fun bytes more block other parsed parsedMore => ?_⟩
  · obtain ⟨sound, rfl⟩ := parse_eq_ok_iff.mp parsed
    exact ⟨sound.nonempty, rfl, announcedCount_encode sound, (take_encode block).symm⟩
  · obtain ⟨sound, rfl⟩ := parse_eq_ok_iff.mp parsed
    obtain ⟨soundOther, longer⟩ := parse_eq_ok_iff.mp parsedMore
    exact eq_nil_of_encode_append sound soundOther longer

/-- A block with a transaction in either form: without inputs, and with an input that has no
witness. -/
theorem parse_encode_bothForms :
    let input : TxIn := ⟨⟨Digest.zero 32, 0⟩, [0x51], 0, []⟩
    let block := assemble ⟨1, Digest.zero 32, Digest.zero 32, Digest.zero 32, 0, 0, 0⟩
      [⟨1, [], [], 0⟩, ⟨1, [input], [], 0⟩]
    block.IsSound ∧ parse block.encode = .ok block ∧ announcedCount block.encode = .ok 2 ∧
      ∀ other, parse (block.encode ++ [0]) ≠ .ok other := by
  intro input block
  have sound : block.IsSound := isSound_assemble _ (List.cons_ne_nil _ _) (by decide) (by
    rintro tx (_ | ⟨_, _ | ⟨_, ⟨⟩⟩⟩)
    · exact ⟨by simp, by simp, by simp⟩
    · exact ⟨by simp [TxIn.Fits, input], by simp, by simp [Witness.fits_nil, input]⟩)
  obtain ⟨reads, writes, -, ends⟩ := parse_encode_roundTrip
  have parsed : parse block.encode = .ok block := writes block sound
  refine ⟨sound, parsed, (reads _ _ parsed).2.2.1, fun other parsedMore => ?_⟩
  cases ends _ _ _ _ parsed parsedMore

end Block

end ClaimLedger
