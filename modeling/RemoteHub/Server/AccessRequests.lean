import RemoteHub.Lib.Interleave
import RemoteHub.Server.Load
import RemoteHub.Server.Problem
import RemoteHub.Server.Sessions

/-!
# Just-in-time access requests (`crates/server/src/api/requests.rs`)

A user asks for a role on an object for a while (`create`), somebody else who manages it approves or
denies (`decide`), and the requester may take the request back before (`cancel`). An approval makes a
grant that ends by itself. The requests are here statement by statement at READ COMMITTED: `SELECT ..
FOR UPDATE` locks its row until the transaction ends, what a transaction writes is there with its
commit, and `now()` is the instant at which it began. Calls can be given up at any step.

The catalog that a call loads is read before its transaction and can be any (`RemoteHub.Server.Load`);
it comes with the call. `Tables.asked` and `Tables.endings` say who asked for what and how each request
was ended; the database keeps less of it.

Times are in microseconds.
-/

namespace Server.AccessRequests

open Model Except
open Sessions (minute)

/-! ## Tables -/

/-- What the calls read of a `Session`; `identityId` in its text form, `admin` for `is_admin`. -/
structure Session where
  userId : Uuid
  username : String
  sid : Option String
  identityId : Option String
  groups : List String
  memberships : List String
  admin : Bool

namespace Session

variable (session : Session)

/-- The principal grants name this user by. -/
def principal : Option String := session.sid.or (session.identityId.map ("local:" ++ ·))

def sids : List String := session.groups ++ session.memberships ++ session.principal.toList

def subject : Subject where
  sids := session.sids.toFinset
  admin := session.admin

end Session

/-- `folder_id`, `device_id` and `credential_id`. -/
structure Columns where
  folderId : Option Uuid
  deviceId : Option Uuid
  credentialId : Option Uuid
  deriving DecidableEq

def columns : ObjectId → Columns
  | .folder id => ⟨some id, none, none⟩
  | .device id => ⟨none, some id, none⟩
  | .credential id => ⟨none, none, some id⟩
  | .collection _ | .profile _ => ⟨none, none, none⟩

/-- `catalog::object_id`. -/
def Columns.objectId (c : Columns) : Option ObjectId :=
  grantObject c.folderId c.deviceId c.credentialId none

inductive Status
  | pending | approved | denied | cancelled
  deriving DecidableEq, Repr

/-- A row of `access_requests`, under its `id`, with the CHECKs of the table. -/
structure RequestRow extends Columns where
  requesterId : Uuid
  requesterSid : String
  requesterName : String
  role : Role
  minutes : Int
  reason : String
  status : Status := .pending
  decidedBy : Option Uuid := none
  deciderName : Option String := none
  decidedAt : Option Int := none
  expiresAt : Option Int := none
  roleCheck : role = .connect ∨ role = .reveal
  minutesCheck : 15 ≤ minutes ∧ minutes ≤ 1440
  objectCheck : toColumns.objectId.isSome = true

/-- A row of `grants`, under its `id`. -/
structure GrantRow extends Columns where
  collectionId : Option Uuid := none
  principalKind : String
  principalSid : String
  principalName : String
  role : Role
  createdBy : Uuid
  expiresAt : Option Int := none
  requestId : Option Uuid := none
  deriving DecidableEq

def GrantRow.object (g : GrantRow) : Option ObjectId :=
  grantObject g.folderId g.deviceId g.credentialId g.collectionId

/-- What `create` inserts, after its checks. -/
structure Asked where
  id : Uuid
  session : Session
  sid : String
  target : ObjectId
  role : Role
  minutes : Int
  reason : String
  own : session.principal = some sid

inductive Decision
  | approve | deny
  deriving DecidableEq, Repr

def Decision.status : Decision → Status
  | .approve => .approved
  | .deny => .denied

/-- A call of `approve` or `deny` with the catalog it loaded; `grant` is the id that a grant would
get. -/
structure Decide where
  id : Uuid
  session : Session
  catalog : Catalog
  decision : Decision
  grant : Uuid

/-- How a request was ended. -/
inductive Ending
  | decided (d : Decide)
  | cancelled (session : Session) (id : Uuid)

def Ending.request : Ending → Uuid
  | .decided d => d.id
  | .cancelled _ id => id

structure Tables where
  /-- The rows that a foreign key may name. -/
  objects : List ObjectId := []
  requests : Table RequestRow := ∅
  grants : Table GrantRow := ∅
  asked : List Asked := []
  endings : List Ending := []

/-! ## Checks of the calls -/

/-- The object of a request as the API names it. -/
def object (kind : String) (id : Uuid) : Answer ObjectId :=
  if kind = "folder" then .ok (.folder id)
  else if kind = "device" then .ok (.device id)
  else if kind = "credential" then .ok (.credential id)
  else if kind = "collection" then .ok (.collection id)
  else .error (invalid "kind")

structure NewRequest where
  kind : String
  objectId : Uuid
  role : String
  minutes : Int
  reason : String

def isCollection : ObjectId → Bool
  | .collection _ => true
  | _ => false

/-- The checks of `create`; `id` is the one that the row will get. -/
def NewRequest.check (session : Session) (catalog : Catalog) (id : Uuid) (input : NewRequest) :
    Answer Asked := do
  let target ← object input.kind input.objectId
  -- a collection's entries are asked for one by one
  refuse (isCollection target) (invalid "kind")
  match own : session.principal with
  | none => .error (.of .forbidden)
  | some sid => do
    refuse (catalog.effectiveRole session.subject target = none) (.of .notFound)
    let role ← (Role.parse input.role).elim (.error (invalid "role")) .ok
    refuse (catalog.mayRequest session.subject role target = false) (invalid "role")
    refuse (input.minutes < 15 ∨ 1440 < input.minutes) (invalid "minutes")
    let reason := Text.trim input.reason
    refuse (reason = "" ∨ 500 < reason.length) (invalid "reason")
    return { id, session, sid, target, role, minutes := input.minutes, reason, own }

/-- What `create` compares: requester, role and object. -/
structure Key where
  requesterId : Uuid
  role : Role
  columns : Columns
  deriving DecidableEq

def Asked.key (a : Asked) : Key := ⟨a.session.userId, a.role, columns a.target⟩

def RequestRow.key (row : RequestRow) : Key := ⟨row.requesterId, row.role, row.toColumns⟩

/-- The checks of `decide` on the row it locked. -/
def Decide.check (d : Decide) (row : RequestRow) : Answer ObjectId := do
  let target ← row.objectId.elim (.error (.of .notFound)) .ok
  refuse (d.catalog.mayApprove d.session.subject target = false)
    (match d.catalog.effectiveRole d.session.subject target with
      | some _ => .of .forbidden
      | none => .of .notFound)
  -- four eyes: not even an administrator decides their own request
  refuse (row.requesterId = d.session.userId) (.of .ownRequest)
  refuse (row.status ≠ .pending) (.of .requestDecided)
  return target

/-- The checks of `cancel` on the row it locked. -/
def checkCancel (session : Session) (row : RequestRow) : Answer ObjectId := do
  refuse (row.requesterId ≠ session.userId) (.of .notFound)
  refuse (row.status ≠ .pending) (.of .requestDecided)
  row.objectId.elim (.error (.of .notFound)) .ok

/-! ## What the transactions write -/

/-- The row of `INSERT INTO access_requests`, if the CHECKs let it in. -/
def Asked.row (a : Asked) : Option RequestRow :=
  if h : (a.role = .connect ∨ a.role = .reveal) ∧ (15 ≤ a.minutes ∧ a.minutes ≤ 1440) ∧
      (columns a.target).objectId.isSome = true then
    some
      { columns a.target with
        requesterId := a.session.userId
        requesterSid := a.sid
        requesterName := a.session.username
        role := a.role
        minutes := a.minutes
        reason := a.reason
        roleCheck := h.1
        minutesCheck := h.2.1
        objectCheck := h.2.2 }
  else none

/-- `UPDATE access_requests` in `decide`. -/
def RequestRow.decide (row : RequestRow) (d : Decide) (now : Int) : RequestRow :=
  { row with
    status := d.decision.status
    decidedBy := some d.session.userId
    deciderName := some d.session.username
    decidedAt := some now
    expiresAt := if d.decision.status = .approved then some (now + row.minutes * minute) else none }

/-- `UPDATE access_requests` in `cancel`. -/
def RequestRow.cancel (row : RequestRow) (now : Int) : RequestRow :=
  { row with status := .cancelled, decidedAt := some now }

/-- `INSERT INTO grants` in `decide`: `request` is what it read, `updated` what it wrote. -/
def Decide.grantRow (d : Decide) (target : ObjectId) (request updated : RequestRow) : GrantRow :=
  { columns target with
    principalKind := "user"
    principalSid := request.requesterSid
    principalName := request.requesterName
    role := request.role
    createdBy := d.session.userId
    expiresAt := updated.expiresAt
    requestId := some d.id }

namespace Tables

variable (t : Tables)

/-- `SELECT EXISTS` in `create`. -/
def waiting (key : Key) : Bool :=
  t.requests.entries.any fun e => e.2.status = .pending && e.2.key = key

/-- `create` commits. The id is random, and none is drawn twice. -/
def create (a : Asked) : Option Tables :=
  if a.target ∉ t.objects ∨ a.id ∈ t.asked.map (·.id) then none
  else a.row.map fun row =>
    { t with requests := t.requests.insert a.id row, asked := t.asked ++ [a] }

/-- `decide` commits. -/
def decide (d : Decide) (target : ObjectId) (request : RequestRow) (now : Int) : Option Tables :=
  (t.requests.lookup d.id).bind fun row =>
    let t' := { t with
      requests := t.requests.insert d.id (row.decide d now)
      endings := t.endings ++ [.decided d] }
    match d.decision with
    | .deny => some t'
    | .approve =>
      if target ∉ t.objects ∨ d.grant ∈ t.grants then none
      else some { t' with
        grants := t.grants.insert d.grant (d.grantRow target request (row.decide d now)) }

/-- `cancel` commits. -/
def cancel (session : Session) (id : Uuid) (now : Int) : Tables :=
  { t with
    requests := t.requests.modify id (·.cancel now)
    endings := t.endings ++ [.cancelled session id] }

/-- `ON CONFLICT .. WHERE expires_at IS NULL`: the row that a grant without an end replaces. -/
def permanentGrant (row : GrantRow) : Option Uuid :=
  if row.expiresAt.isSome then none
  else (t.grants.entries.find? fun e => e.2.expiresAt.isNone && e.2.object = row.object &&
    e.2.principalSid = row.principalSid).map (·.1)

/-- `add_grant` commits. -/
def addGrant (id : Uuid) (row : GrantRow) : Tables :=
  match t.permanentGrant row with
  | some id' => { t with grants := t.grants.modify id' fun g =>
      { g with role := row.role, principalName := row.principalName } }
  | none => if id ∈ t.grants then t
    else { t with grants := t.grants.insert id { row with requestId := none } }

def deleteGrants (p : Uuid → GrantRow → Prop) [∀ id g, Decidable (p id g)] : Tables :=
  { t with
    grants := .collect (t.grants.entries.filterMap fun e =>
      if p e.1 e.2 then none else some (e.1, e.2)) }

def requestsOf (object : ObjectId) : List Uuid :=
  (t.requests.entries.filter fun e => e.2.objectId = some object).map (·.1)

/-- An object is deleted: `ON DELETE CASCADE` in both tables, and `ON DELETE SET NULL` in a grant
elsewhere that names one of its requests. -/
def deleteObject (object : ObjectId) : Tables :=
  let gone := t.requestsOf object
  let t' := t.deleteGrants fun _ g => g.object = some object
  { t' with
    objects := t.objects.filter (· ≠ object)
    requests := .collect (t.requests.entries.filterMap fun e =>
      if e.1 ∈ gone then none else some (e.1, e.2))
    grants := .collect (t'.grants.entries.map fun e =>
      (e.1, { e.2 with requestId := e.2.requestId.filter (· ∉ gone) })) }

end Tables

/-! ## Calls -/

structure Shared where
  clock : Int
  tables : Tables := {}
  /-- The rows of `access_requests`. -/
  locks : Interleave.Locks Uuid := fun _ => none
  givenUp : List Nat := []
  answers : List (Nat × Answer (Option Uuid)) := []

/-- How far a call is. -/
inductive Flight
  /-- `create`; the catalog is loaded. -/
  | create (session : Session) (catalog : Catalog) (id : Uuid) (input : NewRequest)
  /-- Its checks passed: `SELECT EXISTS` comes next. -/
  | checked (a : Asked)
  /-- Nothing like it was pending: `INSERT` and the commit come next. -/
  | inserting (a : Asked)
  /-- `approve` or `deny`; the catalog is loaded. -/
  | decide (d : Decide)
  /-- Its transaction began at `now`: `SELECT .. FOR UPDATE` comes next. -/
  | deciding (d : Decide) (now : Int)
  /-- The checks passed: the writes and the commit come next. -/
  | decided (d : Decide) (target : ObjectId) (request : RequestRow) (now : Int)
  | cancel (session : Session) (id : Uuid)
  | cancelling (session : Session) (id : Uuid) (now : Int)
  | cancelled (session : Session) (id : Uuid) (now : Int)

namespace Flight

def isNew : Flight → Bool
  | .create .. | .decide _ | .cancel .. => true
  | _ => false

end Flight

namespace Shared

variable (s : Shared)

/-- The call is over; its transaction has committed, or is rolled back. -/
def close (k : Nat) (answer : Answer (Option Uuid)) : Option (Shared × Option Flight) :=
  some ({ s with locks := s.locks.release k, answers := s.answers ++ [(k, answer)] }, none)

/-- The call goes on. -/
def goOn (f : Flight) : Option (Shared × Option Flight) := some (s, some f)

/-- The transaction commits, or fails. -/
def finish (k : Nat) (done : Option Tables) (answer : Option Uuid) :
    Option (Shared × Option Flight) :=
  match done with
  | some tables => { s with tables }.close k (.ok answer)
  | none => s.close k (.error (.of .internal))

/-- `SELECT .. FOR UPDATE` and the checks of the row. -/
def lockRow (k : Nat) (id : Uuid) (check : RequestRow → Answer ObjectId)
    (f : ObjectId → RequestRow → Flight) : Option (Shared × Option Flight) :=
  match s.tables.requests.lookup id with
  | none => s.close k (.error (.of .notFound))
  | some row =>
    (s.locks.acquire k id).bind fun locks =>
      match check row with
      | .error e => { s with locks }.close k (.error e)
      | .ok target => { s with locks }.goOn (f target row)

end Shared

/-- The next statement of call `k`; `none` while it waits. -/
def Flight.statement (k : Nat) (s : Shared) : Flight → Option (Shared × Option Flight)
  | .create session catalog id input =>
    match input.check session catalog id with
    | .error e => s.close k (.error e)
    | .ok a => s.goOn (.checked a)
  | .checked a =>
    if s.tables.waiting a.key then s.close k (.error (.of .requestPending))
    else s.goOn (.inserting a)
  | .inserting a => s.finish k (s.tables.create a) (some a.id)
  | .decide d => s.goOn (.deciding d s.clock)
  | .deciding d now =>
    s.lockRow k d.id d.check fun target request => .decided d target request now
  | .decided d target request now => s.finish k (s.tables.decide d target request now) none
  | .cancel session id => s.goOn (.cancelling session id s.clock)
  | .cancelling session id now =>
    s.lockRow k id (checkCancel session) fun _ _ => .cancelled session id now
  | .cancelled session id now => s.finish k (some (s.tables.cancel session id now)) none

/-- The next step of call `k`; one that is given up gets no answer. -/
def Flight.next (k : Nat) (s : Shared) (f : Flight) : Option (Shared × Option Flight) :=
  if k ∈ s.givenUp then some ({ s with locks := s.locks.release k }, none) else f.statement k s

inductive Outside
  | tick (clock : Int)
  /-- A call is given up, or its transaction fails. -/
  | giveUp (k : Nat)
  | createObject (object : ObjectId)
  | deleteObject (object : ObjectId)
  | addGrant (id : Uuid) (row : GrantRow)
  | removeGrant (id : Uuid)
  /-- A user or a group is deleted. -/
  | removeGrants (sid : String)

def Shared.outside (s : Shared) : Outside → Option Shared
  | .tick clock => if s.clock ≤ clock then some { s with clock } else none
  | .giveUp k => some { s with givenUp := k :: s.givenUp }
  | .createObject object =>
    some { s with tables := { s.tables with objects := object :: s.tables.objects } }
  | .deleteObject object =>
    -- it waits for those who have locked one of its requests
    if (s.tables.requestsOf object).all (s.locks · = none) then
      some { s with tables := s.tables.deleteObject object }
    else none
  | .addGrant id row => some { s with tables := s.tables.addGrant id row }
  | .removeGrant id => some { s with tables := s.tables.deleteGrants fun id' _ => id' = id }
  | .removeGrants sid =>
    some { s with tables := s.tables.deleteGrants fun _ g => g.principalSid = sid }

def system : Interleave.System Shared Flight Outside where
  starts := Flight.isNew
  next := Flight.next
  outside := Shared.outside

end Server.AccessRequests
