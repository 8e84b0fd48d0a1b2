import RemoteHub.Connector.Access

/-!
# What the access lets through (`crates/connector/src/agent.rs`)

Whether a connection to a host, resolved to an address, on a port is open, and until when; and the
addresses of a target that a connection is tried to. The answers of the name service are the parameters
`names` and `lookup`.
-/

namespace Connector

open Net

/-- The customer's name service. -/
structure Names where
  /-- The addresses of a device's host name, none if it has none in time. -/
  resolve : String → List IpAddr
  /-- The addresses of a target, `none` if the lookup fails. -/
  lookup : String → Option (List IpAddr)

/-- Where a connection went: the host as asked, the address it resolved to, and the port. -/
structure Reached where
  host : String
  ip : IpAddr
  port : Nat
  deriving DecidableEq

/-- Whether the address of a device covers a connection. -/
def Address.reaches (names : Names) (reached : Reached) (address : Address) : Bool :=
  let resolved := match address with
    | .host name => names.resolve name
    | .range _ => []
  address.covers reached.host reached.ip resolved

/-- Whether a device, if it is open, lets a connection through. -/
def Device.lets (names : Names) (reached : Reached) (device : Device) : Bool :=
  device.ports.any (·.contains reached.port) && device.address.reaches names reached

/-- Whether a device of a grant does: it has its one port. -/
def Device.grants (names : Names) (reached : Reached) (device : Device) : Bool :=
  device.ports.head?.any (·.contains reached.port) && device.address.reaches names reached

/-- Until when the access lets a connection through: the latest end of the network, the devices and the
approved requests that cover it. -/
def openUntil (names : Names) (s : Snapshot) (reached : Reached) (now : OffsetDateTime) : End :=
  let ends := ((s.openDevices now).filter (·.lets names reached)).foldl
    (fun ends device => later ends (s.deviceUntil now device)) (s.networkUntil now)
  (s.openRequests now).foldl
    (fun ends request => (request.2.devices.filter (·.grants names reached)).foldl
      (fun ends _ => later ends (some request.2.stored.access.closesAt)) ends)
    ends

def permitted (names : Names) (s : Snapshot) (reached : Reached) (now : OffsetDateTime) : Bool :=
  (openUntil names s reached now).isSome

/-- The host and the port of a target. -/
def hostPort (target : String) : Option (String × Nat) :=
  (Text.rsplitOnce ':' target).bind fun (host, port) =>
    (Text.parseUnsigned 65535 port).map fun port => (Text.trimMatches ['[', ']'] host, port)

/-- The addresses that `allow` covers. -/
def allowed (allow : List Network) (addresses : List IpAddr) : List IpAddr :=
  addresses.filter fun ip => allow.isEmpty || allow.any (·.contains ip)

/-! ## Targets -/

structure SocketAddr where
  ip : IpAddr
  port : Nat
  deriving DecidableEq

inductive LookupError
  | timedOut
  | failed (reason : String)
  deriving DecidableEq

def LookupError.reason : LookupError → String
  | .timedOut => "name lookup timed out"
  | .failed reason => "name lookup: " ++ reason

/-- `lookup_host` of a whole target. -/
abbrev Lookup := String → Except LookupError (List SocketAddr)

/-- Why a connection is refused; `notOpen` if the customer has not opened the target. -/
structure Refusal where
  reason : String
  notOpen : Bool := false
  deriving DecidableEq

/-- Where the access lets a connection to a target through. -/
structure Resolved where
  host : String
  port : Nat
  addresses : List SocketAddr
  /-- `until`: the latest end of the access to them; none without end. -/
  ends : Option OffsetDateTime
  deriving DecidableEq

/-- The addresses `target` resolves to that `allow` covers and the access lets through. -/
def resolveTarget (names : Names) (lookup : Lookup) (allow : List Network) (s : Snapshot)
    (target : String) (now : OffsetDateTime) : Except Refusal Resolved := do
  let (host, port) ← (hostPort target).elim (.error { reason := "not host:port: " ++ target }) .ok
  let addresses ← (lookup target).mapError fun e => { reason := e.reason }
  let allowed := addresses.filter fun a => allow.isEmpty || allow.any (·.contains a.ip)
  Except.refuse (allowed = []) { reason := "not allowed" }
  let opened := allowed.filterMap fun a => (openUntil names s ⟨host, a.ip, port⟩ now).map (a, ·)
  match opened.foldl (fun ends e => later ends (some e.2)) none with
  | some ends => .ok { host, port, addresses := opened.map (·.1), ends }
  | none => .error { reason := "not opened", notOpen := true }

/-- The addresses that `reach` gives to `TcpStream::connect`, which tries them one by one. -/
def tried (names : Names) (lookup : Lookup) (allow : List Network) (s : Snapshot) (target : String)
    (now : OffsetDateTime) : List SocketAddr :=
  match resolveTarget names lookup allow s target now with
  | .ok resolved => resolved.addresses
  | .error _ => []

/-- A connection to `target`; `connect` is `TcpStream::connect` within its time, with the address of the
peer. -/
def reach (names : Names) (lookup : Lookup) (allow : List Network) (s : Snapshot) (target : String)
    (now : OffsetDateTime) (connect : List SocketAddr → Except String SocketAddr) :
    Except Refusal Reached := do
  let resolved ← resolveTarget names lookup allow s target now
  let peer ← (connect resolved.addresses).mapError fun reason => { reason }
  return { host := resolved.host, ip := peer.ip, port := resolved.port }

/-- `Report::Checked`. -/
structure Checked where
  /-- `open`. -/
  opened : Bool
  /-- `until`. -/
  ends : Option String
  deriving DecidableEq

/-- The answer to `Control::Check`; `format` writes an end as RFC 3339. -/
def check (format : OffsetDateTime → Option String) (names : Names) (lookup : Lookup)
    (allow : List Network) (s : Snapshot) (target : String) (now : OffsetDateTime) : Checked :=
  match resolveTarget names lookup allow s target now with
  | .ok resolved => { opened := true, ends := resolved.ends.bind format }
  | .error _ => { opened := false, ends := none }

end Connector
