import RemoteHub.Connector.Inventory
import RemoteHub.Connector.Protocol
import RemoteHub.Lib.Bytes
import RemoteHub.Lib.HashMap

/-!
# What the customer has opened (`crates/connector/src/access.rs`)

The access lives in `access.json`, the list in `inventory.json`. A command reads and writes the two
files and can fail at every write; a file that is not written stays as it was. The journal is not
modelled.
-/

namespace Connector

open Model Net Except

inductive Access
  /-- remotehub cannot reach it. -/
  | closed
  /-- Open until `ends`, or without end. -/
  | opened (ends : Option OffsetDateTime)
  deriving DecidableEq

namespace Access

/-- Whether remotehub may reach it at `now`. -/
def isOpen (now : OffsetDateTime) : Access → Bool
  | .closed => false
  | .opened none => true
  | .opened (some ends) => now.nanos < ends.nanos

/-- When it closes by itself. -/
def closesAt : Access → Option OffsetDateTime
  | .opened ends => ends
  | .closed => none

end Access

/-- Who changed the access. -/
inductive Changer
  | web (user : String)
  | commandLine
  | expiry
  deriving DecidableEq

/-- What can be opened on its own. -/
inductive Scope
  | network
  | device (name : String)
  | group (name : String)
  | request (id : Uuid)
  deriving DecidableEq

/-- The access of one scope and its last change. -/
structure Stored where
  access : Access := .closed
  changedBy : Option Changer := none
  changedAt : Option OffsetDateTime := none
  deriving DecidableEq

/-- A request from remotehub the customer approved: exactly its targets, until the end. -/
structure Grant where
  requester : String
  reason : String
  targets : List RequestTarget
  stored : Stored
  deriving DecidableEq

/-- A target as the devices of the list are. -/
def RequestTarget.device (target : RequestTarget) : Option Device :=
  (Address.parse target.host).toOption.map fun address =>
    { name := target.name, address, ports := [⟨target.port, target.port⟩], groups := [] }

def Grant.devices (grant : Grant) : List Device := grant.targets.filterMap RequestTarget.device

/-- The entries of a `BTreeMap`, in the order of their keys. -/
def inOrder {κ ν : Type} [LE κ] [DecidableLE κ] (m : HashMap κ ν) : List (κ × ν) :=
  (m.entries.map fun e => (e.1, e.2)).insertionSort fun a b => a.1 ≤ b.1

/-- What `access.json` holds; what it does not name is closed. -/
structure AccessFile where
  network : Stored := {}
  devices : HashMap String Stored := ∅
  groups : HashMap String Stored := ∅
  requests : HashMap Uuid Grant := ∅
  deriving DecidableEq

namespace AccessFile

variable (file : AccessFile)

def get : Scope → Stored
  | .network => file.network
  | .device name => (file.devices.lookup name).getD {}
  | .group name => (file.groups.lookup name).getD {}
  | .request id => ((file.requests.lookup id).map (·.stored)).getD {}

def set (stored : Stored) : Scope → AccessFile
  | .network => { file with network := stored }
  | .device name => { file with devices := file.devices.insert name stored }
  | .group name => { file with groups := file.groups.insert name stored }
  | .request id =>
    -- an approval is stored by `approve`; closed, it goes
    if stored.access = .closed then { file with requests := file.requests.erase id }
    else { file with requests := file.requests.modify id fun grant => { grant with stored } }

/-- Every scope with its access. -/
def all : List (Scope × Stored) :=
  (.network, file.network) ::
    ((inOrder file.devices).map (fun e => (.device e.1, e.2)) ++
      (inOrder file.groups).map (fun e => (.group e.1, e.2)) ++
      (inOrder file.requests).map fun e => (.request e.1, e.2.stored))

end AccessFile

/-- An end of access: none is closed, `some none` is without end. -/
abbrev End := Option (Option OffsetDateTime)

/-- The later of two ends of access. -/
def later : End → End → End
  | none, other => other
  | other, none => other
  | some none, _ => some none
  | _, some none => some none
  | some (some a), some (some b) => some (some (if a.nanos ≤ b.nanos then b else a))

/-- Everything the connector decides by: the access and the list. -/
structure Snapshot where
  access : AccessFile := {}
  inventory : Inventory := {}
  deriving DecidableEq

namespace Snapshot

variable (s : Snapshot) (now : OffsetDateTime)

def networkOpen : Bool := s.access.network.access.isOpen now

/-- Until when the whole network is open. -/
def networkUntil : End :=
  if s.access.network.access.isOpen now then some s.access.network.access.closesAt else none

/-- The scopes that open a device: itself and its groups. -/
def scopes (device : Device) : List Scope := .device device.name :: device.groups.map .group

/-- Until when `device` is open, by itself or through one of its groups. -/
def deviceUntil (device : Device) : End :=
  ((((scopes device).map fun scope => (s.access.get scope).access).filter (·.isOpen now)).map
    fun access => some access.closesAt).foldl later none

def openDevices : List Device := s.inventory.devices.filter fun d => (s.deviceUntil now d).isSome

/-- The groups of the list that are open, with their end. -/
def openGroups : List (String × Option OffsetDateTime) :=
  s.inventory.groups.filterMap fun name =>
    (s.access.groups.lookup name).bind fun stored =>
      if stored.access.isOpen now then some (name, stored.access.closesAt) else none

/-- The approved requests that are open. -/
def openRequests : List (Uuid × Grant) :=
  (inOrder s.access.requests).filter fun e => e.2.stored.access.isOpen now

/-- Whether anything is open: the network, a device, or a request. -/
def anyOpen : Bool :=
  s.networkOpen now || !(s.openDevices now).isEmpty || !(s.openRequests now).isEmpty

/-- `min` of points in time. -/
def earliest : List OffsetDateTime → Option OffsetDateTime
  | [] => none
  | at' :: rest => some (rest.foldl (fun least at' => if at'.nanos < least.nanos then at' else least) at')

/-- The next point in time something open closes by itself. -/
def nextEnd : Option OffsetDateTime :=
  earliest ((s.access.all.filter fun e => e.2.access.isOpen now).filterMap (·.2.access.closesAt))

/-- The scopes whose time ran out and that are not closed yet. -/
def ranOut : List Scope :=
  (s.access.all.filter fun e => e.2.access.closesAt.isSome && !e.2.access.isOpen now).map (·.1)

end Snapshot

/-! ## Commands -/

inductive ChangeError
  | inventory (error : InventoryError)
  | io
  deriving DecidableEq

/-- `access.json` and `inventory.json`. -/
structure Files where
  access : AccessFile := {}
  inventory : Inventory := {}
  deriving DecidableEq

/-- The files, and which of the writes to come fail: `true` for one that does. -/
structure Disk where
  files : Files
  failing : List Bool

/-- What a command does with the files, which stay as they are where it fails. -/
abbrev Command (α : Type) := Disk → Except ChangeError α × Disk

namespace Command

variable {α β : Type}

def pure (a : α) : Command α := fun disk => (.ok a, disk)

def bind (x : Command α) (f : α → Command β) : Command β := fun disk =>
  match x disk with
  | (.ok a, disk) => f a disk
  | (.error e, disk) => (.error e, disk)

instance : Monad Command where
  pure := Command.pure
  bind := Command.bind

/-- What only computes. -/
def lift (x : Except InventoryError α) : Command α := fun disk => (x.mapError .inventory, disk)

def loadInventory : Command Inventory := fun disk => (.ok disk.files.inventory, disk)

def loadAccess : Command AccessFile := fun disk => (.ok disk.files.access, disk)

/-- The next write, if it does not fail, makes `f` of the files. -/
def write (f : Files → Files) : Command Unit := fun disk =>
  match disk.failing with
  | true :: failing => (.error .io, { disk with failing })
  | _ => (.ok (), { files := f disk.files, failing := disk.failing.tail })

def saveAccess (access : AccessFile) : Command Unit := write fun files => { files with access }

def saveInventory (inventory : Inventory) : Command Unit :=
  write fun files => { files with inventory }

end Command

open Command

/-- Whole seconds. -/
def seconds (at' : OffsetDateTime) : OffsetDateTime :=
  { at' with nanos := at'.nanos - at'.nanos % 1000000000 }

def Access.seconds : Access → Access
  | .opened ends => .opened (ends.map Connector.seconds)
  | .closed => .closed

/-- Whether `change` may change the scope: a device or group must be on the list. -/
def known (list : Inventory) (file : AccessFile) : Scope → Bool
  | .network => true
  | .device name => (list.device name).isSome
  | .group name => list.hasGroup name
  | .request id => (file.requests.lookup id).isSome

/-- The name in the error of an unknown scope. -/
def Scope.name : Scope → String
  | .device name | .group name => name
  | .request id => Text.uuidText id
  | .network => ""

/-- The file that `change` writes. -/
def changed (list : Inventory) (file : AccessFile) (scope : Scope) (access : Access) (who : Changer)
    (now : OffsetDateTime) : Except InventoryError AccessFile := do
  refuse (known list file scope = false) (.unknown scope.name)
  return file.set { access := access.seconds, changedBy := some who, changedAt := some (seconds now) }
    scope

/-- Stores `access` for `scope`. -/
def change (scope : Scope) (access : Access) (who : Changer) (now : OffsetDateTime) :
    Command Unit := do
  let list ← loadInventory
  let file ← loadAccess
  let file ← lift (changed list file scope access who now)
  saveAccess file

/-- The file that `approve` writes. -/
def approved (file : AccessFile) (request : CustomerRequest) (ends : OffsetDateTime) (who : Changer)
    (now : OffsetDateTime) : AccessFile :=
  let stored : Stored :=
    { access := .opened (some (seconds ends))
      changedBy := some who
      changedAt := some (seconds now) }
  let grant : Grant :=
    { requester := request.requester, reason := request.reason, targets := request.targets, stored }
  { file with requests := file.requests.insert request.id grant }

/-- Opens exactly the targets of `request` until `ends`. -/
def approve (request : CustomerRequest) (ends : OffsetDateTime) (who : Changer)
    (now : OffsetDateTime) : Command Unit := do
  let file ← loadAccess
  saveAccess (approved file request ends who now)

/-- Adds a device to the list, closed. -/
def addDevice (lower : String → String) (device : Device) : Command Unit := do
  let list ← loadInventory
  let list ← lift (list.addDevice lower device)
  saveInventory list

/-- Removes a device from the list. -/
def removeDevice (name : String) : Command Unit := do
  let list ← loadInventory
  let list ← lift (list.removeDevice name)
  let file ← loadAccess
  saveAccess { file with devices := file.devices.erase name }
  saveInventory list

def addGroup (lower : String → String) (name : String) : Command Unit := do
  let name ← lift (validName name)
  let list ← loadInventory
  let list ← lift (list.addGroup lower name)
  saveInventory list

/-- Removes a group, from its devices too. -/
def removeGroup (name : String) : Command Unit := do
  let list ← loadInventory
  let list ← lift (list.removeGroup name)
  let file ← loadAccess
  saveAccess { file with groups := file.groups.erase name }
  saveInventory list

/-- A call of one of them, at `now`. -/
inductive Call
  | change (scope : Scope) (access : Access) (who : Changer)
  | approve (request : CustomerRequest) (ends : OffsetDateTime) (who : Changer)
  | addDevice (device : Device)
  | removeDevice (name : String)
  | addGroup (name : String)
  | removeGroup (name : String)

def Call.run (lower : String → String) (now : OffsetDateTime) : Call → Command Unit
  | .change scope access who => Connector.change scope access who now
  | .approve request ends who => Connector.approve request ends who now
  | .addDevice device => Connector.addDevice lower device
  | .removeDevice name => Connector.removeDevice name
  | .addGroup name => Connector.addGroup lower name
  | .removeGroup name => Connector.removeGroup name

end Connector
