/-
# Settings

What a user can choose: the network, the block directory, the database, how
often progress is announced, and how far a subscriber may fall behind. Settings
come from a document in which every entry is optional and no other entry is
allowed; the numbers have to be positive.
-/

import ClaimLedger.Error
import ClaimLedger.Network
import ClaimLedger.Progress.Stream
import ClaimLedger.Toml.Document

namespace ClaimLedger

/-- The settings. -/
structure Settings where
  network : Network := .mainnet
  blocksDir : Option String := none
  dbPath : Option String := none
  /-- The number of blocks between two events while reading. -/
  readInterval : Nat := 100
  /-- The number of transactions between two events while applying. -/
  saveInterval : Nat := 100
  /-- The number of claim rows between two events while writing. -/
  claimInterval : Nat := 500
  /-- The number of events that a subscriber may fall behind. -/
  eventCapacity : Nat := EventStream.defaultCapacity
  deriving DecidableEq

/-- Why settings are refused. -/
inductive SettingsError where
  /-- The file is missing or holds no text. -/
  | unreadable
  /-- The document is malformed, or an entry is unknown or of the wrong kind. -/
  | malformed
  | zeroInterval
  | zeroCapacity
  deriving DecidableEq

namespace SettingsError

/-- The wording of refused settings. -/
def message : SettingsError → String
  | unreadable => "settings cannot be read"
  | malformed => "settings are malformed"
  | zeroInterval => "progress intervals must be positive"
  | zeroCapacity => "event_capacity must be positive"

/-- Refused settings as a failure of the program. -/
def toSyncError (error : SettingsError) : SyncError :=
  .config error.message

end SettingsError

namespace Settings

/-- The network that an entry names: by its name, or as the only name of a
table with nothing under it. -/
def networkOf? : Toml.Value → Option Network
  | .text name => Network.ofName? name
  | .table _ [(name, .emptyList)] => Network.ofName? name
  | .table _ [(name, .table _ [])] => Network.ofName? name
  | _ => none

/-- The text of an entry. -/
def textOf? : Toml.Value → Option String
  | .text text => some text
  | _ => none

/-- The count in an entry. -/
def countOf? : Toml.Value → Option Nat
  | .integer value => if 0 ≤ value then some value.toNat else none
  | _ => none

/-- The settings with one entry of a document taken over. -/
def withEntry (settings : Settings) (entry : String × Toml.Value) : Option Settings :=
  match entry.1 with
  | "network" => (networkOf? entry.2).map fun network => { settings with network }
  | "blocks_dir" => (textOf? entry.2).map fun dir => { settings with blocksDir := some dir }
  | "db_path" => (textOf? entry.2).map fun path => { settings with dbPath := some path }
  | "read_progress_interval" =>
    (countOf? entry.2).map fun count => { settings with readInterval := count }
  | "save_progress_interval" =>
    (countOf? entry.2).map fun count => { settings with saveInterval := count }
  | "claim_progress_interval" =>
    (countOf? entry.2).map fun count => { settings with claimInterval := count }
  | "event_capacity" =>
    (countOf? entry.2).map fun count => { settings with eventCapacity := count }
  | _ => none

/-- Check the numbers. -/
def validate (settings : Settings) : Except SettingsError Settings :=
  if settings.readInterval = 0 ∨ settings.saveInterval = 0 ∨ settings.claimInterval = 0 then
    .error .zeroInterval
  else if settings.eventCapacity = 0 then .error .zeroCapacity
  else .ok settings

/-- The settings in a document. -/
def ofText (document : List Char) : Except SettingsError Settings :=
  match (Toml.parse? document).bind fun entries => entries.foldlM withEntry {} with
  | none => .error .malformed
  | some settings => settings.validate

/-- The settings in a file, given by its bytes if it exists. -/
def ofFile (contents : Option Bytes) : Except SettingsError Settings :=
  match contents.bind Utf8.decode? with
  | none => .error .unreadable
  | some document => ofText document

end Settings

end ClaimLedger
