/-
# Activation delays and lifetimes

A newcomer under a controlled name waits before it competes, the longer the
longer the controller has been in place. Claims and supports live for a fixed
number of blocks; from the extension fork on, whatever would still be alive at
the fork lives for the extended number instead.
-/

import ClaimLedger.Height

namespace ClaimLedger

/-- The parameters of a network's claim rules. -/
structure Rules where
  /-- Blocks of control per block of delay. -/
  delayFactor : UInt32
  /-- The longest delay. -/
  maxDelay : Height
  /-- The lifetime before the fork. -/
  baseLifetime : Height
  /-- The lifetime of what is still alive at the fork. -/
  extendedLifetime : Height
  /-- The height of the fork. -/
  extensionFork : Height
  deriving DecidableEq, Repr

namespace Rules

/-- The blocks that a newcomer at `height` waits under a name whose control
last changed at `takeover`. With a delay factor of zero the rule has no value;
see `activationDelay?`. -/
def activationDelay (rules : Rules) (height takeover : Height) : Height :=
  min (Height.minus height takeover / rules.delayFactor) rules.maxDelay

/-- The delay where the rule defines one. -/
def activationDelay? (rules : Rules) (height takeover : Height) : Option Height :=
  if rules.delayFactor = 0 then none else some (rules.activationDelay height takeover)

/-- The first height at which something created or renewed at `created` no
longer counts. -/
def expirationHeight (rules : Rules) (created : Height) : Height :=
  let base := Height.plus created rules.baseLifetime
  if base < rules.extensionFork then base
  else Height.plus created rules.extendedLifetime

/-- The rules of the main network. -/
def mainnet : Rules := ⟨32, 4032, 262974, 2102400, 400155⟩

/-- The rules of the test network, whose fork comes earlier. -/
def testnet : Rules := { mainnet with extensionFork := 278160 }

/-- The rules of the regression-test network, with short lifetimes. -/
def regtest : Rules := ⟨32, 4032, 500, 600, 800⟩

end Rules

end ClaimLedger
