import RemoteHub.Model.Catalog

/-!
# What a connector and remotehub say to each other (`crates/connector/src/protocol.rs`)
-/

namespace Connector

open Model

/-- `time::OffsetDateTime`. -/
structure OffsetDateTime where
  /-- Nanoseconds since the epoch. -/
  nanos : Int
  /-- Seconds east of UTC. -/
  offset : Int := 0
  deriving DecidableEq

/-- A device remotehub would connect to. -/
structure RequestTarget where
  name : String
  host : String
  port : Nat
  deriving DecidableEq

/-- A remotehub user asks the customer to open these targets for a while. -/
structure CustomerRequest where
  id : Uuid
  requester : String
  reason : String
  minutes : Nat
  targets : List RequestTarget
  deriving DecidableEq

/-- The most remotehub may answer a report with, in bytes. -/
def maxPendingBytes : Nat := 64 * 1024

/-- The most requests an answer may hold. -/
def maxRequests : Nat := 20

/-- The most targets a request may have. -/
def maxTargets : Nat := 20

/-- The longest reason, in characters. -/
def maxReason : Nat := 500

/-- The longest name, in characters. -/
def maxName : Nat := 200

/-- `MINUTES`: how long access may be asked for. -/
def Minutes (minutes : Nat) : Prop := 15 ≤ minutes ∧ minutes ≤ 1440

instance (minutes : Nat) : Decidable (Minutes minutes) := by
  unfold Minutes
  infer_instance

/-- The requests for access waiting for the customer, oldest first. -/
structure Pending where
  requests : List CustomerRequest
  deriving DecidableEq

/-- The customer's answer to a request. -/
structure Answer where
  id : Uuid
  approved : Bool
  /-- `by`: the connector user who answered. -/
  answerer : String
  /-- `until`, RFC 3339. -/
  ends : Option String
  deriving DecidableEq

/-- A report names at most this many groups and as many devices. -/
def maxListed : Nat := 1000

structure OpenGroup where
  name : String
  /-- `until`. -/
  ends : Option String
  deriving DecidableEq

structure OpenDevice where
  name : String
  address : String
  ports : String
  /-- `until`, the latest end of what opens it. -/
  ends : Option String
  deriving DecidableEq

/-- What a connector reports. -/
structure State where
  /-- `open`: whether the whole network is open. -/
  opened : Bool
  /-- `until`. -/
  ends : Option String
  /-- Whether single devices or groups are open while the whole network is not. -/
  partly : Bool
  groups : List OpenGroup
  devices : List OpenDevice
  answers : List Answer
  deriving DecidableEq

end Connector
