/-
# Networks

Each network has its own rules and its own record marker in block files.
-/

import ClaimLedger.Bytes
import ClaimLedger.Rules

namespace ClaimLedger

/-- The networks that a chain can belong to. -/
inductive Network where
  | mainnet
  | testnet
  | regtest
  deriving DecidableEq, Repr

namespace Network

/-- The claim rules of a network. -/
def rules : Network → Rules
  | mainnet => Rules.mainnet
  | testnet => Rules.testnet
  | regtest => Rules.regtest

/-- The four bytes in front of every block record of a network. -/
def magic : Network → Bytes
  | mainnet => [0xfa, 0xe4, 0xaa, 0xf1]
  | testnet => [0xfa, 0xe4, 0xaa, 0xe1]
  | regtest => [0xfa, 0xe4, 0xaa, 0xd1]

/-- The name of a network in settings. -/
def name : Network → String
  | mainnet => "mainnet"
  | testnet => "testnet"
  | regtest => "regtest"

/-- The network of a given name. -/
def ofName? (name : String) : Option Network :=
  [mainnet, testnet, regtest].find? fun network => network.name == name

end Network

end ClaimLedger
