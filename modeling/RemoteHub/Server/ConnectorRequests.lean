import Mathlib.Data.List.Sort
import RemoteHub.Connector.Requests
import RemoteHub.Server.AccessRequests
import RemoteHub.Server.Queries

/-!
# Asking the customer for access (`crates/server/src/api/connector_requests.rs`)

A user who may connect asks for a device, or for a folder's devices behind its connector (`create`), and
may take the request back (`withdraw`). Each report of a connector brings the customer's answers and is
answered with the requests that wait (`pending`). The calls are here statement by statement at READ
COMMITTED, as in `RemoteHub.Server.AccessRequests`; what a call reads before its transaction comes with
it.

`Postgres` has what the database decides: which texts it takes as a point in time, and in which order it
comes across rows. `Tables.records` has the answers recorded for each connector, as the audit log does.

Times are in microseconds.
-/

namespace Server.ConnectorRequests

open Model Except
open AccessRequests (Session object)
open Connector (RequestTarget CustomerRequest Pending maxPendingBytes maxRequests maxTargets maxReason
  Minutes readable toVec)

structure Postgres where
  /-- `$1::timestamptz`. -/
  timestamptz : String → Option Int
  /-- The rows of `connector_requests` as call `k` comes across them. -/
  scan {ρ : Type} (k : Nat) : Table ρ → List (Uuid × ρ)
  scan_perm {ρ : Type} (k : Nat) (t : Table ρ) : (scan k t).Perm (t.entries.map fun e => (e.1, e.2))

/-! ## Tables -/

inductive Status
  | pending | approved | refused | cancelled
  deriving DecidableEq, Repr

/-- A row of `connector_requests`, under its `id`, with the CHECKs of the table. -/
structure RequestRow where
  connectorId : Uuid
  folderId : Option Uuid
  deviceId : Option Uuid
  objectName : String
  targets : List RequestTarget
  requesterId : Uuid
  requesterName : String
  minutes : Int
  reason : String
  status : Status := .pending
  answeredBy : Option String := none
  answeredAt : Option Int := none
  /-- `until`. -/
  ends : Option Int := none
  createdAt : Int
  minutesCheck : 15 ≤ minutes ∧ minutes ≤ 1440
  reasonCheck : 1 ≤ reason.length ∧ reason.length ≤ 500

/-- `catalog::object_id`. -/
def RequestRow.object (row : RequestRow) : Option ObjectId := grantObject row.folderId row.deviceId none none

structure Tables where
  connectors : List Uuid := []
  /-- The folders and devices that a foreign key may name. -/
  objects : List ObjectId := []
  requests : Table RequestRow := ∅
  /-- The ids that `gen_random_uuid` has given. -/
  drawn : List Uuid := []
  records : List (Uuid × Connector.Answer) := []

/-! ## Asking -/

/-- A device behind a connector, as a request names it. -/
structure Behind where
  id : Uuid
  name : String
  host : String
  port : Int
  connectorId : Option Uuid

/-- What an approval opens: remotehub's name, and the address and port. -/
def target (device : Behind) : Option RequestTarget :=
  if 0 < device.port ∧ device.port < 65536 ∧ Connector.host device.host = true then
    some { name := readable device.name Connector.maxName, host := device.host, port := device.port.toNat }
  else none

/-- The columns of a device that `create` reads. -/
def behind (db : Db) (id : Uuid) (row : DeviceRow) : Answer Behind := do
  return { id, name := row.name, host := row.host, port := row.port,
           connectorId := ← Db.ends (db.reachedThrough row) }

/-- `SELECT .. FROM devices WHERE id = $1`. -/
def readDevice (db : Db) (id : Uuid) : Answer Behind := do
  behind db id (← (db.devices.lookup id).elim (.error (.of .internal)) .ok)

/-- `SELECT name, folder_connector(id) FROM folders WHERE id = $1`. -/
def readFolder (db : Db) (id : Uuid) : Answer (String × Option Uuid) := do
  let row ← (db.folders.lookup id).elim (.error (.of .internal)) .ok
  return (row.name, ← Db.ends (db.folderConnector id))

/-- The devices of a folder and the folders below it, `ORDER BY lower(name)`. -/
def readDevicesBelow (db : Db) (id : Uuid) : Answer (List Behind) := do
  let below ← Db.ends (db.foldersBelow id)
  let devices ← (db.devices.entries.filter (·.2.folderId ∈ below)).mapM fun e => behind db e.1 e.2
  return devices.insertionSort fun a b => a.name.toLower ≤ b.name.toLower

structure NewRequest where
  kind : String
  objectId : Uuid
  minutes : Int
  reason : String

/-- What `create` inserts, after its checks. -/
structure Asked where
  id : Uuid
  session : Session
  connector : Uuid
  folder : Option Uuid
  device : Option Uuid
  objectName : String
  targets : List RequestTarget
  minutes : Int
  reason : String

/-- The connector, the name and the devices of what is asked for; `db'` is what the statement for the
devices of a folder sees. -/
def readAsked (db db' : Db) (mayConnect : ObjectId → Bool) : ObjectId →
    Answer (Option Uuid × String × List Behind)
  | .device id => do
    let device ← readDevice db id
    return (device.connectorId, device.name, [device])
  | .folder id => do
    let (name, connector) ← readFolder db id
    let devices ← readDevicesBelow db' id
    -- only the devices behind the folder's connector that the user may connect to
    return (connector, name, devices.filter fun d =>
      (d.connectorId.isSome && d.connectorId = connector) && mayConnect (.device d.id))
  | .credential _ | .collection _ | .profile _ => .error (invalid "kind")

/-- The checks of `create`; `id` is the one that the row will get. -/
def NewRequest.check (session : Session) (catalog : Catalog) (db db' : Db) (id : Uuid)
    (input : NewRequest) : Answer Asked := do
  let asked ← object input.kind input.objectId
  let mayConnect object := (catalog.effectiveRole session.subject object).any (.connect ≤ ·)
  refuse (catalog.effectiveRole session.subject asked = none) (.of .notFound)
  refuse (mayConnect asked = false) (.of .forbidden)
  refuse (¬(0 ≤ input.minutes ∧ Minutes input.minutes.toNat)) (invalid "minutes")
  let reason := Text.trim input.reason
  refuse (Connector.plain reason maxReason = false) (invalid "reason")
  -- the targets are fixed now: the customer approves what they see
  let (connector, objectName, devices) ← readAsked db db' mayConnect asked
  let connector ← connector.elim (.error (invalid "object")) .ok
  let targets := devices.filterMap target
  refuse (targets = [] ∨ maxTargets < targets.length) (invalid "object")
  let (folder, device) := match asked with
    | .folder id => (some id, none)
    | .device id => (none, some id)
    | _ => (none, none)
  return { id, session, connector, folder, device, objectName, targets, minutes := input.minutes, reason }

def day : Int := 24 * 60 * 60 * 1000000

/-- Whether a request waits for the customer at `now`. -/
def RequestRow.waits (row : RequestRow) (now : Int) : Bool :=
  row.status = .pending && decide (now - day ≤ row.createdAt)

/-- The row of `INSERT INTO connector_requests`, if the CHECKs let it in. -/
def Asked.row (a : Asked) (now : Int) : Option RequestRow :=
  if h : (15 ≤ a.minutes ∧ a.minutes ≤ 1440) ∧ (1 ≤ a.reason.length ∧ a.reason.length ≤ 500) then
    some
      { connectorId := a.connector
        folderId := a.folder
        deviceId := a.device
        objectName := a.objectName
        targets := a.targets
        requesterId := a.session.userId
        requesterName := a.session.username
        minutes := a.minutes
        reason := a.reason
        createdAt := now
        minutesCheck := h.1
        reasonCheck := h.2 }
  else none

/-! ## What the connector takes -/

/-- A row as the connector reads it. -/
def RequestRow.request (row : RequestRow) (id : Uuid) : CustomerRequest where
  id := id
  requester := readable row.requesterName Connector.maxName
  reason := row.reason
  minutes := row.minutes.toNat
  targets := row.targets

/-- The newest wait for the next report while the answer would be too long; `n` bounds the rounds. -/
def popNewest : Nat → List CustomerRequest → List CustomerRequest
  | 0, requests => requests
  | n + 1, requests =>
    if 1 < requests.length ∧ maxPendingBytes < (toVec ⟨requests⟩).length then
      popNewest n requests.dropLast
    else requests

/-- The rows of a connector that wait at `now`, `ORDER BY created_at`. -/
def waitingRows (rows : List (Uuid × RequestRow)) (connector : Uuid) (now : Int) :
    List (Uuid × RequestRow) :=
  (rows.filter fun e => e.2.connectorId = connector && e.2.waits now).insertionSort fun a b =>
    a.2.createdAt ≤ b.2.createdAt

/-- The requests waiting for the customer of `connector`, oldest first, as many as fit into what the
connector takes. -/
def pending (rows : List (Uuid × RequestRow)) (connector : Uuid) (now : Int) : Pending :=
  let requests := ((waitingRows rows connector now).take maxRequests).map fun e => e.2.request e.1
  ⟨popNewest requests.length requests⟩

/-! ## What the transactions write -/

/-- `UPDATE connector_requests` in `answer`. -/
def RequestRow.answer (row : RequestRow) (answer : Connector.Answer) (ends : Option Int) (now : Int) :
    RequestRow :=
  { row with
    status := if answer.approved then .approved else .refused
    answeredBy := some answer.answerer
    answeredAt := some now
    ends }

namespace Tables

variable (t : Tables)

/-- `SELECT EXISTS` in `create`, in a transaction that began at `now`. -/
def waiting (a : Asked) (now : Int) : Bool :=
  t.requests.entries.any fun e => decide (e.2.requesterId = a.session.userId) && e.2.waits now &&
    decide (e.2.folderId = a.folder) && decide (e.2.deviceId = a.device)

/-- `create` commits. The id is random, and none is drawn twice. -/
def create (a : Asked) (now : Int) : Option Tables :=
  if a.connector ∉ t.connectors ∨ (∃ id ∈ a.folder, .folder id ∉ t.objects) ∨
      (∃ id ∈ a.device, .device id ∉ t.objects) ∨ a.id ∈ t.drawn then none
  else (a.row now).map fun row =>
    { t with requests := t.requests.insert a.id row, drawn := a.id :: t.drawn }

/-- `withdraw` commits. -/
def withdraw (id : Uuid) : Tables :=
  { t with requests := t.requests.modify id ({ · with status := .cancelled }) }

/-- A transaction of `answer` that began at `now` commits: only a pending request of that connector
takes the answer. -/
def answer (connector : Uuid) (answer : Connector.Answer) (ends : Option Int) (now : Int) : Tables :=
  match t.requests.lookup answer.id with
  | some row =>
    if row.connectorId = connector ∧ row.status = .pending then
      { t with
        requests := t.requests.insert answer.id (row.answer answer ends now)
        records := t.records ++ [(connector, answer)] }
    else t
  | none => t

/-- A connector is deleted: `ON DELETE CASCADE`. -/
def deleteConnector (connector : Uuid) : Tables :=
  { t with
    connectors := t.connectors.filter (· ≠ connector)
    requests := .collect (t.requests.entries.filterMap fun e =>
      if e.2.connectorId = connector then none else some (e.1, e.2)) }

/-- The row without what was asked for: `ON DELETE SET NULL`. -/
def forget (object : ObjectId) (row : RequestRow) : RequestRow :=
  { row with
    folderId := row.folderId.filter (.folder · ≠ object)
    deviceId := row.deviceId.filter (.device · ≠ object) }

/-- A folder or a device is deleted. -/
def deleteObject (object : ObjectId) : Tables :=
  { t with
    objects := t.objects.filter (· ≠ object)
    requests := .collect (t.requests.entries.map fun e => (e.1, forget object e.2)) }

end Tables

/-! ## Calls -/

inductive Reply
  | created (id : Uuid)
  | withdrawn
  | listed (pending : Pending)
  deriving DecidableEq

structure Shared where
  clock : Int
  tables : Tables := {}
  /-- The rows of `connector_requests`. -/
  locks : Interleave.Locks Uuid := fun _ => none
  givenUp : List Nat := []
  replies : List (Nat × Answer Reply) := []

/-- How far a call is. -/
inductive Flight
  /-- `create`; the catalog is loaded. -/
  | create (session : Session) (catalog : Catalog) (db db' : Db) (id : Uuid) (input : NewRequest)
  /-- Its checks passed: its transaction comes next. -/
  | asked (a : Asked)
  /-- The transaction began at `now`: `SELECT EXISTS` comes next. -/
  | checking (a : Asked) (now : Int)
  /-- Nothing like it waits: `INSERT` and the commit come next. -/
  | inserting (a : Asked) (now : Int)
  /-- `withdraw`: `SELECT .. FOR UPDATE` comes next. -/
  | withdraw (session : Session) (id : Uuid)
  /-- The row is locked: `UPDATE` and the commit come next. -/
  | withdrawing (id : Uuid)
  /-- `report_state`, signed in and checked, with the answers that are left to record. -/
  | report (connector : Uuid) (answers : List Connector.Answer)
  /-- The transaction of the first answer began at `now`: `UPDATE` comes next. -/
  | answering (connector : Uuid) (now : Int) (answer : Connector.Answer) (rest : List Connector.Answer)

namespace Flight

def isNew : Flight → Bool
  | .create .. | .withdraw .. | .report .. => true
  | _ => false

end Flight

namespace Shared

variable (s : Shared)

/-- The call is over; its transaction has committed, or is rolled back. -/
def close (k : Nat) (reply : Answer Reply) : Option (Shared × Option Flight) :=
  some ({ s with locks := s.locks.release k, replies := s.replies ++ [(k, reply)] }, none)

/-- The call goes on. -/
def goOn (f : Flight) : Option (Shared × Option Flight) := some (s, some f)

end Shared

/-- The next statement of call `k`; `none` while it waits. -/
def Flight.statement (pg : Postgres) (k : Nat) (s : Shared) : Flight → Option (Shared × Option Flight)
  | .create session catalog db db' id input =>
    match input.check session catalog db db' id with
    | .error e => s.close k (.error e)
    | .ok a => s.goOn (.asked a)
  | .asked a => s.goOn (.checking a s.clock)
  | .checking a now =>
    if s.tables.waiting a now then s.close k (.error (.of .requestPending))
    else s.goOn (.inserting a now)
  | .inserting a now =>
    match s.tables.create a now with
    | some tables => { s with tables }.close k (.ok (.created a.id))
    | none => s.close k (.error (.of .internal))
  | .withdraw session id =>
    match s.tables.requests.lookup id with
    | some row =>
      -- others do not learn that the request exists
      if row.requesterId ≠ session.userId then s.close k (.error (.of .notFound))
      else (s.locks.acquire k id).bind fun locks =>
        if row.status ≠ .pending then { s with locks }.close k (.error (.of .requestDecided))
        else { s with locks }.goOn (.withdrawing id)
    | none => s.close k (.error (.of .notFound))
  | .withdrawing id => { s with tables := s.tables.withdraw id }.close k (.ok .withdrawn)
  | .report connector [] =>
    s.close k (.ok (.listed (pending (pg.scan k s.tables.requests) connector s.clock)))
  | .report connector (answer :: rest) => s.goOn (.answering connector s.clock answer rest)
  | .answering connector now answer rest =>
    -- it waits while the row is locked
    (s.locks.acquire k answer.id).bind fun _ =>
      match answer.ends.mapM pg.timestamptz with
      | none => s.close k (.error (.of .internal))
      | some ends =>
        { s with tables := s.tables.answer connector answer ends now }.goOn (.report connector rest)

/-- The next step of call `k`; one that is given up gets no reply. -/
def Flight.next (pg : Postgres) (k : Nat) (s : Shared) (f : Flight) : Option (Shared × Option Flight) :=
  if k ∈ s.givenUp then some ({ s with locks := s.locks.release k }, none) else f.statement pg k s

inductive Outside
  | tick (clock : Int)
  /-- A call is given up, or its transaction fails. -/
  | giveUp (k : Nat)
  | createConnector (connector : Uuid)
  | deleteConnector (connector : Uuid)
  | createObject (object : ObjectId)
  | deleteObject (object : ObjectId)

def Shared.outside (s : Shared) : Outside → Option Shared
  | .tick clock => if s.clock ≤ clock then some { s with clock } else none
  | .giveUp k => some { s with givenUp := k :: s.givenUp }
  | .createConnector connector =>
    some { s with tables := { s.tables with connectors := connector :: s.tables.connectors } }
  | .deleteConnector connector =>
    -- it waits for those who have locked one of its requests
    if s.tables.requests.entries.all fun e => e.2.connectorId ≠ connector || s.locks e.1 = none then
      some { s with tables := s.tables.deleteConnector connector }
    else none
  | .createObject object =>
    some { s with tables := { s.tables with objects := object :: s.tables.objects } }
  | .deleteObject object =>
    if s.tables.requests.entries.all fun e => e.2.object ≠ some object || s.locks e.1 = none then
      some { s with tables := s.tables.deleteObject object }
    else none

def system (pg : Postgres) : Interleave.System Shared Flight Outside where
  starts := Flight.isNew
  next := Flight.next pg
  outside := Shared.outside

end Server.ConnectorRequests
