/-
# Claim scripts

A claim script puts a few pushes of data and two drop instructions in front of
an ordinary output script, so that the output can still be spent by whoever
the ordinary script names. Which opcode leads decides what is pushed:

* a new claim pushes its name and a value,
* an update pushes its name, the claim it updates, and a value,
* a support pushes its name, the claim it supports, and optionally a value.

The pushes may use any of the four ways to write a push, the shortest or not.
Every other script is a plain payment.
-/

import ClaimLedger.OutPoint

namespace ClaimLedger

namespace Script

/-- The leading byte of a new claim. -/
def claimName : UInt8 := 0xb5

/-- The leading byte of a support. -/
def supportClaim : UInt8 := 0xb6

/-- The leading byte of an update. -/
def updateClaim : UInt8 := 0xb7

/-- The instruction that drops two items. -/
def dropTwo : UInt8 := 0x6d

/-- The instruction that drops one item. -/
def dropOne : UInt8 := 0x75

/-- Take pushed data behind a length of `width` bytes. -/
def takeCounted? (width : Nat) (script : Bytes) : Option (Bytes × Bytes) := do
  let (length, rest) ← Bytes.splitExact? width script
  Bytes.splitExact? (Bytes.toNatLE length) rest

/-- Take a push off the front: a length up to 75 is its own instruction, and
three more instructions announce a length of one, two or four bytes. Any other
instruction, or a push that runs past the end, gives `none`. -/
def takePush? : Bytes → Option (Bytes × Bytes)
  | [] => none
  | b :: rest =>
    if b ≤ 0x4b then Bytes.splitExact? b.toNat rest
    else if b = 0x4c then takeCounted? 1 rest
    else if b = 0x4d then takeCounted? 2 rest
    else if b = 0x4e then takeCounted? 4 rest
    else none

/-- Take two given instructions off the front. -/
def takeDrops? (first second : UInt8) : Bytes → Option Bytes
  | a :: b :: rest => if a = first ∧ b = second then some rest else none
  | _ => none

end Script

/-- What a claim script says, apart from the owner's script behind it. -/
inductive ClaimScript where
  | name (name value : Bytes)
  | update (name : Bytes) (claim : ClaimHash) (value : Bytes)
  | support (name : Bytes) (claim : ClaimHash) (value : Option Bytes)
  deriving DecidableEq

namespace ClaimScript

open Script

/-- The rest of a new claim, behind its leading byte. -/
def parseName? (script : Bytes) : Option (ClaimScript × Bytes) := do
  let (claimed, script) ← takePush? script
  let (value, script) ← takePush? script
  let owner ← takeDrops? dropTwo dropOne script
  return (.name claimed value, owner)

/-- The rest of an update, behind its leading byte. -/
def parseUpdate? (script : Bytes) : Option (ClaimScript × Bytes) := do
  let (claimed, script) ← takePush? script
  let (id, script) ← takePush? script
  let (value, script) ← takePush? script
  let owner ← takeDrops? dropTwo dropTwo script
  let claim ← Digest.ofBytes? 20 id
  return (.update claimed claim value, owner)

/-- The rest of a support, behind its leading byte. -/
def parseSupport? (script : Bytes) : Option (ClaimScript × Bytes) := do
  let (claimed, script) ← takePush? script
  let (id, script) ← takePush? script
  let claim ← Digest.ofBytes? 20 id
  match takePush? script with
  | none =>
    let owner ← takeDrops? dropTwo dropOne script
    return (.support claimed claim none, owner)
  | some (value, script) =>
    let owner ← takeDrops? dropTwo dropTwo script
    return (.support claimed claim (some value), owner)

/-- Split a script into what it says about a claim and the owner's script;
`none` for a plain payment. -/
def parse? : Bytes → Option (ClaimScript × Bytes)
  | [] => none
  | lead :: script =>
    if lead = claimName then parseName? script
    else if lead = updateClaim then parseUpdate? script
    else if lead = supportClaim then parseSupport? script
    else none

end ClaimScript

end ClaimLedger
