import RemoteHub.Server.Moves
import RemoteHub.Server.OwnSecrets

/-!
# Connections and changes of their target in flight

A connection (`crates/server/src/api/terminal.rs`, `display.rs`) loads the device's target, goes
there, and pins what it was presented where nothing is pinned. Meanwhile `update_device`,
`move_device` and `update_folder` (`crates/server/src/api/catalog.rs`) give the device another target
and forget its pins; they are here statement by statement, with the waits for locked rows left out.

What machines present is no part of the program: a connection brings it along.
-/

namespace Server

open Model Except

/-! ## Targets -/

/-- The two ways to connect: SSH on a terminal; RDP, VNC and HTTPS on a display. -/
inductive Screen
  | terminal | display
  deriving DecidableEq, Repr

def Screen.protocols : Screen → List Protocol
  | .terminal => [.ssh]
  | .display => [.rdp, .vnc, .https]

/-- Where a connection goes. -/
structure Endpoint where
  protocol : Protocol
  host : String
  port : Int
  /-- None: directly. -/
  connectorId : Option Uuid
  deriving DecidableEq, Repr

/-- `Target`: what a connection loads of its device. -/
structure Target extends Endpoint where
  id : Uuid
  hostKey : Option String
  certificateFingerprint : Option String

/-- What is pinned for the way it is connected. -/
def Pins.of (pins : Pins) : Screen → Option String
  | .terminal => pins.hostKey
  | .display => pins.certificateFingerprint

/-- Pins a key where none is pinned. -/
def Pins.store (pins : Pins) (screen : Screen) (key : String) (now : Int) : Pins :=
  match pins.of screen, screen with
  | some _, _ => pins
  | none, .terminal => { pins with hostKey := some key, hostKeyPinnedAt := some now }
  | none, .display =>
    { pins with certificateFingerprint := some key, certificatePinnedAt := some now }

def Target.pinned (t : Target) : Screen → Option String
  | .terminal => t.hostKey
  | .display => t.certificateFingerprint

namespace Db

variable (db : Db)

/-- Where connections to the device go. -/
def endpoint (row : DeviceRow) : Option Endpoint :=
  (db.reachedThrough row).map fun connectorId =>
    { protocol := row.protocol, host := row.host, port := row.port, connectorId }

/-- The `SELECT` of `connect::target`, and the check of the protocol. -/
def loadTarget (screen : Screen) (id : Uuid) : Answer Target := do
  let row ← fetchOne db.devices id
  let connectorId ← ends (db.reachedThrough row)
  refuse (row.protocol ∉ screen.protocols) (invalid "protocol")
  return { id, protocol := row.protocol, host := row.host, port := row.port, connectorId,
           hostKey := row.pins.hostKey, certificateFingerprint := row.pins.certificateFingerprint }

/-- `pin_host_key` and `pin_certificate`: `UPDATE devices ... WHERE id = $1 AND ... IS NULL`. -/
def pin (screen : Screen) (id : Uuid) (key : String) (now : Int) : Db :=
  { db with devices := db.devices.modify id fun row =>
      { row with pins := row.pins.store screen key now } }

/-- The `UPDATE` of `move_device`. -/
def placeDevice (id folder : Uuid) (targetChanged : Bool) : Answer Db := do
  let row := fun (old : DeviceRow) =>
    { old with folderId := folder, pins := if targetChanged then {} else old.pins }
  (db.devices.lookup id).elim (.ok ()) fun old => db.checkDevice id (row old)
  return { db with devices := db.devices.modify id row }

end Db

/-! ## Requests -/

namespace Pinning

/-- A connection that is asked for, and what it meets: the key or the certificate that a machine
presents it (`none` when the connection ends before, and always for VNC), and whether the session
opens then. -/
structure Connection where
  screen : Screen
  subject : Subject
  id : Uuid
  presents : Endpoint → Option String
  opens : Bool := true

/-- How far a request is. -/
inductive Flight
  | connect (c : Connection)
  | connecting (c : Connection) (l : Load.Loading)
  | allowed (c : Connection)
  | loaded (c : Connection) (t : Target)
  /-- What is presented is to be pinned. -/
  | presented (c : Connection) (t : Target) (key : String)
  | updating (f : OwnSecrets.Flight)
  | move (subject : Subject) (id folder : Uuid)
  | moving (subject : Subject) (id folder : Uuid) (l : Load.Loading)
  | leaving (subject : Subject) (id folder : Uuid) (catalog : Catalog)
  | placing (id folder : Uuid) (targetChanged : Bool)
  | change (subject : Subject) (move : Move)
  | changing (f : Server.Flight)

/-- What is committed, and what was presented so far. -/
structure Shared extends OwnSecrets.Shared where
  presented : List (Screen × Endpoint × String) := []

namespace Flight

/-- A request that comes in. -/
def isNew : Flight → Bool
  | .connect .. | .move .. | .change .. => true
  | .updating f => f.isNew
  | _ => false

/-- The next statement, or the next thing a connection does. -/
def statement (ssh : SshKeys) (s : Shared) : Flight → Answer (Shared × Option Flight)
  | .connect c => .ok (s, some (.connecting c {}))
  | .connecting c l =>
    match l.todo with
    | t :: todo => .ok (s, some (.connecting c { l.read s.db s.clock t with todo }))
    | [] => do
      require l.catalog c.subject .connect (.device c.id)
      return (s, some (.allowed c))
  | .allowed c => do return (s, some (.loaded c (← s.db.loadTarget c.screen c.id)))
  | .loaded c t =>
    match (c.presents t.toEndpoint).filter fun _ => t.protocol ≠ .vnc with
    | none => .ok (s, none)
    | some key =>
      .ok ({ s with presented := s.presented ++ [(c.screen, t.toEndpoint, key)] },
        if c.opens ∧ t.pinned c.screen = none then some (.presented c t key) else none)
  | .presented c t key => .ok ({ s with db := s.db.pin c.screen t.id key s.clock }, none)
  | .updating f => do
    let (s', f') ← f.statement ssh s.toShared
    return ({ s with toShared := s' }, f'.map .updating)
  | .move subject id folder => .ok (s, some (.moving subject id folder {}))
  | .moving subject id folder l =>
    match l.todo with
    | t :: todo => .ok (s, some (.moving subject id folder { l.read s.db s.clock t with todo }))
    | [] => do
      require l.catalog subject .edit (.device id)
      require l.catalog subject .edit (.folder folder)
      if l.catalog.parent (.device id) = some folder then .ok (s, none)
      else .ok (s, some (.leaving subject id folder l.catalog))
  | .leaving subject id folder catalog => do
    let before ← Db.fetchOne s.db.devices id
    let reachedBefore ← Db.ends (s.db.reachedThrough before)
    let reachedAfter ← Db.ends
      (s.db.deviceConnector before.connectorMode before.connectorId folder)
    let ownSecret := decide (before.authMode = .device ∧ 0 < before.secretVersion)
    let targetChanged := decide (reachedBefore ≠ reachedAfter)
    takesProfile catalog subject folder targetChanged before.profileId
    onlyIf (targetChanged && ownSecret) (require catalog subject .reveal (.device id))
    return (s, some (.placing id folder targetChanged))
  | .placing id folder targetChanged => do
    return ({ s with db := ← s.db.placeDevice id folder targetChanged }, none)
  | .change subject m => .ok (s, some (.changing (.loading subject m {})))
  | .changing f => do
    let (db, f') ← f.statement s.db s.clock
    return ({ s with db }, f'.map .changing)

/-- `none` when a query never ends; a request that fails is over and its transaction rolled
back. -/
def next (ssh : SshKeys) (s : Shared) (f : Flight) : Option (Shared × Option Flight) :=
  match f.statement ssh s with
  | .ok r => some r
  | .error (.problem _) => some (s, none)
  | .error .endless => none

end Flight

/-! ## Interleavings -/

/-- A device is created or deleted, its pins are reset, time passes, folders come and go above no
device, or other tables change. -/
inductive Outside
  | createDevice (caller : Caller) (id : Uuid) (input : DeviceInput)
  | deleteDevice (caller : Caller) (id : Uuid)
  | resetHostKey (id : Uuid)
  | tick (clock : Int)
  | folders (folders : Table FolderRow)
  | elsewhere (collections : Table CollectionRow) (credentials : Table CredentialRow)
      (profiles : Table ProfileRow) (grants : Table GrantRow) (connectors : Finset Uuid)
      (secretFields : SecretFields)

def Shared.outside (ssh : SshKeys) (s : Shared) : Outside → Option Shared
  | .createDevice caller id input =>
    some { s with db := s.db.settle (s.db.createDevice ssh caller id input) }
  | .deleteDevice caller id => some { s with db := s.db.settle (s.db.deleteDevice caller id) }
  | .resetHostKey id => some { s with db := s.db.forgetPins [id] }
  | .tick clock => some { s with clock }
  | .folders folders =>
    let db : Db := { s.db with folders }
    if s.db.devices.entries.all fun e => db.reachedThrough e.2 = s.db.reachedThrough e.2 then
      some { s with db }
    else none
  | .elsewhere collections credentials profiles grants connectors secretFields =>
    some { s with
           db := { s.db with collections, credentials, profiles, grants, connectors,
                             secretFields } }

def system (ssh : SshKeys) : Interleave.System Shared Flight Outside where
  starts := Flight.isNew
  next _ := Flight.next ssh
  outside := Shared.outside ssh

end Pinning

end Server
