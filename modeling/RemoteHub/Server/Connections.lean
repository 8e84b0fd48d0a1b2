import RemoteHub.Server.Sessions

/-!
# Connecting to a device that requires confirmation

`display` and `terminal` (`crates/server/src/api/display.rs`, `crates/server/src/api/terminal.rs`)
read the session and the device in the request that opens the WebSocket; for a directory user the
session is read once more after the directory has answered (`before_connecting` in
`crates/server/src/refresh.rs`). `run` then waits for the browser's start message, at most
`START_TIMEOUT`, asks for the confirmation, and resolves the credentials. Both paths are the same up
to there. Every step happens at an instant of the clock of `RemoteHub.Server.Sessions`, whose requests
and events go on beside it.

`Shared.confirmations` has the confirmations of each session with the time that its row got, and
`Shared.opened` the connections whose credentials were resolved.
-/

namespace Server.Connections

open Model Sessions

/-- `START_TIMEOUT`. -/
def startTimeout : Int := 120 * second

/-- What a connection reads of its device (`target`). -/
structure Target where
  requiresConfirmation : Bool
  deriving DecidableEq

/-- A session as `by_hash` read it, with the row's `confirmed_at` at that moment, which the code does
not keep. -/
structure Read where
  session : Session
  confirmedAt : Option Int
  deriving DecidableEq

/-- A connection whose credentials were resolved. -/
structure Opened where
  tokenHash : Bytes
  target : Target
  resolvedAt : Int
  deriving DecidableEq

structure Shared where
  store : Sessions.Shared
  devices : HashMap Uuid Target := ∅
  confirmations : List (Bytes × Int) := []
  opened : List Opened := []

/-- How far a request is. `directory` is the directory's answer about its user, whether the sessions
may go on; other users are not asked about. -/
inductive Flight
  /-- A request of `RemoteHub.Server.Sessions`. -/
  | request (f : Sessions.Flight)
  /-- The WebSocket's request: `find` comes next. -/
  | connect (hash : Bytes) (device : Uuid) (keepAlive : Bool) (directory : Option Bool)
  | touch (read : Read) (device : Uuid) (directory : Option Bool)
  /-- `before_connecting`. -/
  | found (read : Read) (device : Uuid) (directory : Option Bool)
  | reload (hash : Bytes) (device : Uuid)
  /-- `target` comes next. -/
  | loaded (read : Read) (device : Uuid)
  /-- The WebSocket is open since then, and waits for the start message. -/
  | waiting (read : Read) (target : Target) (since : Int)
  /-- `require_confirmation` comes next. -/
  | started (read : Read) (target : Target)
  /-- `purpose` and the credentials come next. -/
  | confirmed (read : Read) (target : Target)

namespace Flight

def isNew : Flight → Bool
  | .request f => f.isNew
  | .connect .. => true
  | _ => false

end Flight

namespace Shared

variable (idle : Int) (s : Shared)

/-- `by_hash`. -/
def byHash (hash : Bytes) : Option Read :=
  (s.store.byHash idle hash).map fun session =>
    ⟨session, (s.store.sessions.lookup hash).bind (·.confirmedAt)⟩

/-- A request of `RemoteHub.Server.Sessions` goes on; a right confirmation of a session that is there
is noted. -/
def request (f : Sessions.Flight) (store : Sessions.Shared) : Shared :=
  match f with
  | .commit hash true began =>
    if hash ∈ s.store.sessions then
      { s with store, confirmations := s.confirmations ++ [(hash, began)] }
    else { s with store }
  | _ => { s with store }

end Shared

namespace Flight

/-- The extractors `AnySession` and `Session`: a browser's session that is not locked. -/
def extract (read : Read) (device : Uuid) (directory : Option Bool) : Option Flight :=
  if read.session.client ≠ .web ∨ read.session.locked then none
  else some (.found read device directory)

/-- The next step of a request. -/
def next (idle : Int) (s : Shared) : Flight → Option (Shared × Option Flight)
  | .request f => (f.next idle s.store).map fun r => (s.request f r.1, r.2.map .request)
  | .connect hash device keepAlive directory =>
    match s.byHash idle hash with
    | none => some (s, none)
    | some read =>
      if keepAlive ∧ ¬read.session.locked then some (s, some (.touch read device directory))
      else some (s, extract read device directory)
  | .touch read device directory =>
    some ({ s with store := s.store.touch idle read.session.tokenHash },
      extract read device directory)
  | .found read device directory =>
    match directory with
    | none => some (s, some (.loaded read device))
    | some true => some (s, some (.reload read.session.tokenHash device))
    | some false => some ({ s with store := s.store.endSessions read.session.userId }, none)
  | .reload hash device =>
    some (s, (s.byHash idle hash).map fun read => .loaded read device)
  | .loaded read device =>
    some (s, (s.devices.lookup device).map fun target => .waiting read target s.store.clock)
  | .waiting read target since =>
    if s.store.clock - since ≤ startTimeout then some (s, some (.started read target))
    else some (s, none)
  | .started read target =>
    if target.requiresConfirmation ∧ ¬read.session.confirmed then some (s, none)
    else some (s, some (.confirmed read target))
  | .confirmed read target =>
    some ({ s with opened := s.opened ++ [⟨read.session.tokenHash, target, s.store.clock⟩] }, none)

end Flight

inductive Outside
  /-- What happens to sessions. -/
  | session (e : Sessions.Outside)
  /-- A device is created or changed, or goes. -/
  | device (id : Uuid) (target : Option Target)

def Shared.outside (idle max : Int) (s : Shared) : Outside → Option Shared
  | .session e => (s.store.outside idle max e).map fun store => { s with store }
  | .device id (some target) => some { s with devices := s.devices.insert id target }
  | .device id none => some { s with devices := s.devices.erase id }

def system (idle max : Int) : Interleave.System Shared Flight Outside where
  starts := Flight.isNew
  next _ := Flight.next idle
  outside := Shared.outside idle max

end Server.Connections
