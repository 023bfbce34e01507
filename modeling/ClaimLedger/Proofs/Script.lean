/-
# How claim scripts are written

A claim script is one of four forms in front of the owner's script: a new claim, an
update, and a support with or without a value. Each form is a leading byte, two or
three pushes, and two drop instructions. A push may announce its length in any way
that has room for it, so the same claim has many spellings; yet every script is
spelled by at most one form, and reading a script finds that form. The owner's
script is never looked at, so it may be any bytes at all.
-/

import Mathlib.Data.List.Basic
import ClaimLedger.Bytes.Lemmas
import ClaimLedger.Script

namespace ClaimLedger

namespace Script

/-! ## Pushes -/

/-- The ways to announce the length of pushed data. -/
inductive PushForm where
  /-- The length is the instruction itself. -/
  | direct
  /-- The instruction is followed by a length of one byte. -/
  | byte
  /-- The instruction is followed by a length of two bytes. -/
  | short
  /-- The instruction is followed by a length of four bytes. -/
  | long
  deriving DecidableEq

namespace PushForm

/-- The first length for which a form has no room. -/
def room : PushForm → Nat
  | direct => 76
  | byte => 256
  | short => 65536
  | long => 4294967296

/-- The announcement of a length. -/
def lead (length : Nat) : PushForm → Bytes
  | direct => [UInt8.ofNat length]
  | byte => 0x4c :: Bytes.ofNatLE 1 length
  | short => 0x4d :: Bytes.ofNatLE 2 length
  | long => 0x4e :: Bytes.ofNatLE 4 length

/-- No two forms announce a length in equally many bytes. -/
theorem eq_of_lead_eq {length : Nat} {form form' : PushForm}
    (same : lead length form = lead length form') : form = form' := by
  have lengths := congrArg List.length same
  cases form <;> cases form' <;> first | rfl | simp [lead] at lengths

end PushForm

/-- Data behind an announcement of its length that has room for it. -/
@[ext]
structure Push where
  form : PushForm
  data : Bytes
  fits : data.length < form.room

namespace Push

/-- The push as it is written. -/
def encode (push : Push) : Bytes :=
  push.form.lead push.data.length ++ push.data

end Push

variable {script data rest owner : Bytes}

/-- Data behind a length of some bytes is found where that length is announced. -/
theorem takeCounted?_eq_some_iff {width : Nat} :
    takeCounted? width script = some (data, rest) ↔
      data.length < 256 ^ width ∧ script = Bytes.ofNatLE width data.length ++ data ++ rest := by
  rw [takeCounted?, Option.bind_eq_bind, Option.bind_eq_some_iff]
  constructor
  · rintro ⟨⟨field, left⟩, cut, taken⟩
    obtain ⟨rfl, rfl⟩ := Bytes.splitExact?_eq_some_iff.mp cut
    obtain ⟨rfl, length⟩ := Bytes.splitExact?_eq_some_iff.mp taken
    rw [length, Bytes.ofNatLE_toNatLE, List.append_assoc]
    exact ⟨Bytes.toNatLE_lt field, rfl⟩
  · rintro ⟨fits, rfl⟩
    refine ⟨(Bytes.ofNatLE width data.length, data ++ rest), ?_, ?_⟩
    · rw [List.append_assoc]
      exact Bytes.splitExact?_eq_some_iff.mpr ⟨rfl, Bytes.length_ofNatLE _ _⟩
    · show Bytes.splitExact? (Bytes.toNatLE (Bytes.ofNatLE width data.length)) (data ++ rest) = _
      rw [Bytes.toNatLE_ofNatLE, Nat.mod_eq_of_lt fits]
      exact Bytes.splitExact?_append data rest

/-- A push is found exactly where one is written, in whichever form. -/
theorem takePush?_eq_some_iff : takePush? script = some (data, rest) ↔
    ∃ push : Push, push.data = data ∧ script = push.encode ++ rest := by
  constructor
  · intro taken
    cases script with
    | nil => cases taken
    | cons b script =>
      rw [takePush?] at taken
      split_ifs at taken with isDirect isByte isShort isLong
      · obtain ⟨rfl, length⟩ := Bytes.splitExact?_eq_some_iff.mp taken
        have bound : b.toNat ≤ 75 := UInt8.le_iff_toNat_le.mp isDirect
        have fits : data.length < PushForm.direct.room := by
          rw [length]
          exact Nat.lt_succ_of_le bound
        have announced : UInt8.ofNat data.length = b := by
          rw [length, UInt8.ofNat_toNat]
        refine ⟨⟨.direct, data, fits⟩, rfl, ?_⟩
        rw [← announced]
        rfl
      · obtain ⟨fits, rfl⟩ := takeCounted?_eq_some_iff.mp taken
        exact ⟨⟨.byte, data, fits⟩, rfl, by rw [isByte]; rfl⟩
      · obtain ⟨fits, rfl⟩ := takeCounted?_eq_some_iff.mp taken
        exact ⟨⟨.short, data, fits⟩, rfl, by rw [isShort]; rfl⟩
      · obtain ⟨fits, rfl⟩ := takeCounted?_eq_some_iff.mp taken
        exact ⟨⟨.long, data, fits⟩, rfl, by rw [isLong]; rfl⟩
  · rintro ⟨⟨form, data, fits⟩, rfl, rfl⟩
    cases form with
    | direct =>
      have fits : data.length < 76 := fits
      have value : (UInt8.ofNat data.length).toNat = data.length :=
        UInt8.toNat_ofNat_of_lt (Nat.lt_trans fits (by decide))
      have isDirect : UInt8.ofNat data.length ≤ 0x4b := by
        rw [UInt8.le_iff_toNat_le, value]
        exact Nat.le_of_lt_succ fits
      show takePush? (UInt8.ofNat data.length :: (data ++ rest)) = _
      rw [takePush?, if_pos isDirect, value]
      exact Bytes.splitExact?_append data rest
    | byte => exact takeCounted?_eq_some_iff.mpr ⟨fits, rfl⟩
    | short => exact takeCounted?_eq_some_iff.mpr ⟨fits, rfl⟩
    | long => exact takeCounted?_eq_some_iff.mpr ⟨fits, rfl⟩

namespace Push

theorem takePush?_append (push : Push) (rest : Bytes) :
    takePush? (push.encode ++ rest) = some (push.data, rest) :=
  takePush?_eq_some_iff.mpr ⟨push, rfl, rfl⟩

/-- Bytes begin with at most one push. -/
theorem encode_append_inj {push push' : Push} {rest rest' : Bytes}
    (same : push.encode ++ rest = push'.encode ++ rest') : push = push' ∧ rest = rest' := by
  have taken := push.takePush?_append rest
  rw [same, takePush?_append, Option.some.injEq, Prod.mk.injEq] at taken
  obtain ⟨isData, rfl⟩ := taken
  have encoded := List.append_cancel_right same
  rw [encode, encode, isData] at encoded
  have isForm := PushForm.eq_of_lead_eq (List.append_cancel_right encoded)
  exact ⟨Push.ext isForm isData.symm, rfl⟩

/-- A drop instruction is no push. -/
theorem encode_append_ne_dropTwo (push : Push) (rest rest' : Bytes) :
    push.encode ++ rest ≠ 0x6d :: rest' := by
  intro same
  have taken := push.takePush?_append rest
  rw [same] at taken
  cases taken

end Push

theorem takeDrops?_eq_some_iff {first second : UInt8} :
    takeDrops? first second script = some owner ↔ script = first :: second :: owner := by
  unfold takeDrops?
  split
  · split_ifs with isDrops
    · obtain ⟨rfl, rfl⟩ := isDrops
      simp
    · simp only [List.cons.injEq, false_iff]
      rintro ⟨rfl, rfl, rfl⟩
      exact isDrops ⟨rfl, rfl⟩
  · next other =>
    simp only [reduceCtorEq, false_iff]
    exact other first second owner

/-- A push of a claim hash. -/
@[ext]
structure HashPush extends Push where
  isHash : data.length = 20

/-- The claim hash that is pushed. -/
def HashPush.hash (push : HashPush) : ClaimHash :=
  ⟨push.data, push.isHash⟩

/-- What stands in front of an owner's script. -/
inductive ClaimForm where
  | name (name value : Push)
  | update (name : Push) (claim : HashPush) (value : Push)
  | support (name : Push) (claim : HashPush)
  | valuedSupport (name : Push) (claim : HashPush) (value : Push)

namespace ClaimForm

/-- The form as it is written. -/
def encode : ClaimForm → Bytes
  | .name claimed value => 0xb5 :: (claimed.encode ++ value.encode ++ [0x6d, 0x75])
  | .update claimed claim value =>
    0xb7 :: (claimed.encode ++ claim.encode ++ value.encode ++ [0x6d, 0x6d])
  | .support claimed claim => 0xb6 :: (claimed.encode ++ claim.encode ++ [0x6d, 0x75])
  | .valuedSupport claimed claim value =>
    0xb6 :: (claimed.encode ++ claim.encode ++ value.encode ++ [0x6d, 0x6d])

/-- What the form means, however it is spelled. -/
def content : ClaimForm → ClaimScript
  | .name claimed value => .name claimed.data value.data
  | .update claimed claim value => .update claimed.data claim.hash value.data
  | .support claimed claim => .support claimed.data claim.hash none
  | .valuedSupport claimed claim value => .support claimed.data claim.hash (some value.data)

/-- The byte that leads. -/
def lead : ClaimForm → UInt8
  | .name _ _ => 0xb5
  | .update _ _ _ => 0xb7
  | .support _ _ => 0xb6
  | .valuedSupport _ _ _ => 0xb6

/-- What is pushed. -/
def pushes : ClaimForm → List Push
  | .name claimed value => [claimed, value]
  | .update claimed claim value => [claimed, claim.toPush, value]
  | .support claimed claim => [claimed, claim.toPush]
  | .valuedSupport claimed claim value => [claimed, claim.toPush, value]

/-- The second drop, which drops what the first has left. -/
def lastDrop : ClaimForm → UInt8
  | .name _ _ => 0x75
  | .update _ _ _ => 0x6d
  | .support _ _ => 0x75
  | .valuedSupport _ _ _ => 0x6d

theorem encode_append (form : ClaimForm) (owner : Bytes) :
    form.encode ++ owner =
      form.lead :: (form.pushes.flatMap Push.encode ++ 0x6d :: form.lastDrop :: owner) := by
  cases form <;> simp [encode, lead, pushes, lastDrop]

/-- A form is known by its leading byte and its pushes. -/
theorem eq_of_pushes_eq {form form' : ClaimForm} (sameLead : form.lead = form'.lead)
    (samePushes : form.pushes = form'.pushes) : form = form' := by
  cases form <;> cases form' <;> simp_all [lead, pushes, HashPush.ext_iff, Push.ext_iff]

end ClaimForm

/-- A drop ends the pushes in front of it, so they can be told apart. -/
theorem flatMap_encode_append_inj {pushes pushes' : List Push} {rest rest' : Bytes}
    (same : pushes.flatMap Push.encode ++ 0x6d :: rest =
      pushes'.flatMap Push.encode ++ 0x6d :: rest') : pushes = pushes' ∧ rest = rest' := by
  induction pushes generalizing pushes' with
  | nil =>
    cases pushes' with
    | nil => exact ⟨rfl, (List.cons.inj same).2⟩
    | cons push' more' =>
      rw [List.flatMap_cons, List.append_assoc] at same
      exact absurd same.symm (push'.encode_append_ne_dropTwo _ rest)
  | cons push more ih =>
    rw [List.flatMap_cons, List.append_assoc] at same
    cases pushes' with
    | nil => exact absurd same (push.encode_append_ne_dropTwo _ rest')
    | cons push' more' =>
      rw [List.flatMap_cons, List.append_assoc] at same
      obtain ⟨rfl, later⟩ := Push.encode_append_inj same
      obtain ⟨rfl, rfl⟩ := ih later
      exact ⟨rfl, rfl⟩

/-- A script begins with at most one form. -/
theorem ClaimForm.encode_append_inj {form form' : ClaimForm} {owner owner' : Bytes}
    (same : form.encode ++ owner = form'.encode ++ owner') : form = form' ∧ owner = owner' := by
  rw [encode_append, encode_append, List.cons.injEq] at same
  obtain ⟨sameLead, same⟩ := same
  obtain ⟨samePushes, same⟩ := flatMap_encode_append_inj same
  exact ⟨eq_of_pushes_eq sameLead samePushes, (List.cons.inj same).2⟩

/-! ## Reading -/

/-- A claim hash is read where one is pushed. -/
theorem takeHash_iff {claim : ClaimHash} :
    (∃ id, takePush? script = some (id, rest) ∧ Digest.ofBytes? 20 id = some claim) ↔
      ∃ push : HashPush, push.hash = claim ∧ script = push.encode ++ rest := by
  simp only [takePush?_eq_some_iff, Digest.ofBytes?_eq_some_iff]
  constructor
  · rintro ⟨_, ⟨push, rfl, rfl⟩, isHash⟩
    exact ⟨⟨push, by rw [isHash, claim.length_eq]⟩, Digest.ext isHash, rfl⟩
  · rintro ⟨push, rfl, rfl⟩
    exact ⟨push.data, ⟨push.toPush, rfl, rfl⟩, rfl⟩

theorem parseName?_eq_some_iff {parsed : ClaimScript} :
    ClaimScript.parseName? script = some (parsed, owner) ↔
      ∃ claimed value : Push, parsed = .name claimed.data value.data ∧
        script = claimed.encode ++ (value.encode ++ 0x6d :: 0x75 :: owner) := by
  rw [ClaimScript.parseName?]
  simp only [Option.bind_eq_bind, Option.bind_eq_some_iff, takePush?_eq_some_iff, Prod.exists,
    takeDrops?_eq_some_iff]
  constructor
  · rintro ⟨_, _, ⟨claimed, rfl, rfl⟩, _, _, ⟨value, rfl, rfl⟩, _, rfl, ⟨⟩⟩
    exact ⟨claimed, value, rfl, rfl⟩
  · rintro ⟨claimed, value, rfl, rfl⟩
    exact ⟨_, _, ⟨claimed, rfl, rfl⟩, _, _, ⟨value, rfl, rfl⟩, owner, rfl, rfl⟩

theorem parseUpdate?_eq_some_iff {parsed : ClaimScript} :
    ClaimScript.parseUpdate? script = some (parsed, owner) ↔
      ∃ (claimed : Push) (claim : HashPush) (value : Push),
        parsed = .update claimed.data claim.hash value.data ∧
          script = claimed.encode ++ (claim.encode ++ (value.encode ++ 0x6d :: 0x6d :: owner)) := by
  rw [ClaimScript.parseUpdate?]
  simp only [Option.bind_eq_bind, Option.bind_eq_some_iff, Prod.exists, takeDrops?_eq_some_iff]
  constructor
  · rintro ⟨_, _, taken, id, _, takenId, _, _, takenValue, _, rfl, hash, isHash, ⟨⟩⟩
    obtain ⟨claimed, rfl, rfl⟩ := takePush?_eq_some_iff.mp taken
    obtain ⟨claim, rfl, rfl⟩ := takeHash_iff.mp ⟨id, takenId, isHash⟩
    obtain ⟨value, rfl, rfl⟩ := takePush?_eq_some_iff.mp takenValue
    exact ⟨claimed, claim, value, rfl, rfl⟩
  · rintro ⟨claimed, claim, value, rfl, rfl⟩
    obtain ⟨id, takenId, isHash⟩ := takeHash_iff.mpr ⟨claim, rfl, rfl⟩
    exact ⟨_, _, claimed.takePush?_append _, id, _, takenId, _, _, value.takePush?_append _, owner,
      rfl, _, isHash, rfl⟩

theorem parseSupport?_eq_some_iff {parsed : ClaimScript} :
    ClaimScript.parseSupport? script = some (parsed, owner) ↔
      ∃ (claimed : Push) (claim : HashPush) (rest : Bytes),
        script = claimed.encode ++ (claim.encode ++ rest) ∧
        (parsed = .support claimed.data claim.hash none ∧ rest = 0x6d :: 0x75 :: owner ∨
          ∃ value : Push, parsed = .support claimed.data claim.hash (some value.data) ∧
            rest = value.encode ++ 0x6d :: 0x6d :: owner) := by
  rw [ClaimScript.parseSupport?]
  simp only [Option.bind_eq_bind, Option.bind_eq_some_iff, Prod.exists]
  constructor
  · rintro ⟨_, _, taken, id, rest, takenId, hash, isHash, ends⟩
    obtain ⟨claimed, rfl, rfl⟩ := takePush?_eq_some_iff.mp taken
    obtain ⟨claim, rfl, rfl⟩ := takeHash_iff.mp ⟨id, takenId, isHash⟩
    refine ⟨claimed, claim, rest, rfl, ?_⟩
    split at ends
    · obtain ⟨_, drops, ⟨⟩⟩ := Option.bind_eq_some_iff.mp ends
      exact .inl ⟨rfl, takeDrops?_eq_some_iff.mp drops⟩
    · next takenValue =>
      obtain ⟨_, drops, ⟨⟩⟩ := Option.bind_eq_some_iff.mp ends
      obtain ⟨value, rfl, rfl⟩ := takePush?_eq_some_iff.mp takenValue
      exact .inr ⟨value, rfl, congrArg _ (takeDrops?_eq_some_iff.mp drops)⟩
  · rintro ⟨claimed, claim, rest, rfl, ends⟩
    obtain ⟨id, takenId, isHash⟩ := takeHash_iff.mpr ⟨claim, rfl, rfl⟩
    refine ⟨_, _, claimed.takePush?_append _, id, rest, takenId, _, isHash, ?_⟩
    rcases ends with ⟨rfl, rfl⟩ | ⟨value, rfl, rfl⟩
    · rfl
    · rw [value.takePush?_append]
      rfl

/-- What is read is a form in front of the owner's script, and each form is read. -/
theorem parse?_eq_some_iff {parsed : ClaimScript} :
    ClaimScript.parse? script = some (parsed, owner) ↔
      ∃ form : ClaimForm, form.content = parsed ∧ script = form.encode ++ owner := by
  constructor
  · intro read
    cases script with
    | nil => cases read
    | cons b script =>
      rw [ClaimScript.parse?] at read
      split_ifs at read with isName isUpdate isSupport
      · obtain ⟨claimed, value, rfl, rfl⟩ := parseName?_eq_some_iff.mp read
        refine ⟨.name claimed value, rfl, ?_⟩
        simp [isName, ClaimForm.encode, claimName]
      · obtain ⟨claimed, claim, value, rfl, rfl⟩ := parseUpdate?_eq_some_iff.mp read
        refine ⟨.update claimed claim value, rfl, ?_⟩
        simp [isUpdate, ClaimForm.encode, updateClaim]
      · obtain ⟨claimed, claim, rest, rfl, ends⟩ := parseSupport?_eq_some_iff.mp read
        rcases ends with ⟨rfl, rfl⟩ | ⟨value, rfl, rfl⟩
        · refine ⟨.support claimed claim, rfl, ?_⟩
          simp [isSupport, ClaimForm.encode, supportClaim]
        · refine ⟨.valuedSupport claimed claim value, rfl, ?_⟩
          simp [isSupport, ClaimForm.encode, supportClaim]
  · rintro ⟨form, rfl, rfl⟩
    cases form with
    | name claimed value =>
      apply parseName?_eq_some_iff.mpr
      exact ⟨claimed, value, rfl, by simp⟩
    | update claimed claim value =>
      apply parseUpdate?_eq_some_iff.mpr
      exact ⟨claimed, claim, value, rfl, by simp⟩
    | support claimed claim =>
      apply parseSupport?_eq_some_iff.mpr
      exact ⟨claimed, claim, 0x6d :: 0x75 :: owner, by simp, .inl ⟨rfl, rfl⟩⟩
    | valuedSupport claimed claim value =>
      apply parseSupport?_eq_some_iff.mpr
      exact ⟨claimed, claim, value.encode ++ 0x6d :: 0x6d :: owner, by simp,
        .inr ⟨value, rfl, rfl⟩⟩

/-- Reading accepts exactly the four forms in front of any owner's script, and hands out
what the form contains. No script is spelled in two ways, and every script that is not
spelled at all is a plain payment. -/
theorem parse?_spelled :
    (∀ script parsed owner, ClaimScript.parse? script = some (parsed, owner) ↔
      ∃ form : ClaimForm, form.content = parsed ∧ script = form.encode ++ owner) ∧
    Function.Injective (fun spelled : ClaimForm × Bytes => spelled.1.encode ++ spelled.2) ∧
    ∀ script, ClaimScript.parse? script = none ↔
      ∀ (form : ClaimForm) (owner : Bytes), script ≠ form.encode ++ owner := by
  refine ⟨fun script parsed owner => parse?_eq_some_iff, ?_, fun script => ?_⟩
  · rintro ⟨form, owner⟩ ⟨form', owner'⟩ same
    obtain ⟨rfl, rfl⟩ := ClaimForm.encode_append_inj same
    rfl
  · rw [Option.eq_none_iff_forall_ne_some]
    constructor
    · intro unread form owner spelled
      exact unread (form.content, owner) (parse?_eq_some_iff.mpr ⟨form, rfl, spelled⟩)
    · rintro unspelled ⟨parsed, owner⟩ read
      obtain ⟨form, -, spelled⟩ := parse?_eq_some_iff.mp read
      exact unspelled form owner spelled

/-- A name of one byte behind a longer announcement than it needs, an empty value, and
an owner's script that breaks off. -/
example : ClaimScript.parse? [0xb5, 0x4d, 0x01, 0x00, 0x61, 0x00, 0x6d, 0x75, 0x4c] =
    some (.name [0x61] [], [0x4c]) := by decide

end Script

end ClaimLedger
