import RemoteHub.Server.Profiles
import RemoteHub.Lib.Interleave

/-!
# Updates of devices and login profiles in flight

`update_device` (`crates/server/src/api/catalog.rs`) and `update`
(`crates/server/src/api/profiles.rs`), statement by statement. Both read the row, with the version
and the kind of its secret, before their transaction begins, and decide on the next version then.

The transaction of a device seals, deletes the other versions and updates the row, at READ
COMMITTED: the `DELETE` finds what is committed when it runs, and what it finds goes with the
commit. The waits for rows that another transaction has sealed or deleted are left out: there are
interleavings here that the database delays. The `UPDATE` of a profile comes first and locks its
row, so that its transaction is one step.
-/

namespace Server

open Model Except

/-! ## Changes -/

/-- An update of a device that is allowed so far. -/
structure DeviceRequest where
  subject : Subject
  id : Uuid
  device : ValidDevice

/-- What an update of a device has decided when its transaction begins. -/
structure DeviceChange where
  device : ValidDevice
  /-- The row it read. -/
  before : DeviceRow
  targetChanged : Bool
  secretVersion : Int
  keyInfo : KeyInfo

/-- The next version of the device's own secret. -/
def DeviceRequest.change (r : DeviceRequest) (catalog : Catalog) (before : DeviceRow)
    (targetChanged : Bool) : Answer DeviceChange := do
  let mayCarry :=
    !targetChanged || (require catalog r.subject .reveal (.device r.id)).isOk
  let keeps := decide (before.authMode = .device ∧ 0 < before.secretVersion ∧
    before.secretKind = r.device.secretKind) && mayCarry
  let secretVersion ← r.device.nextVersion before.secretVersion keeps
  let keyInfo := (r.device.secrets.map Secrets.keyInfo).getD
    (if 0 < secretVersion then before.keyInfo else {})
  return { device := r.device, before, targetChanged, secretVersion, keyInfo }

/-- An update of a login profile, its texts and secrets checked. -/
structure ProfileRequest where
  subject : Subject
  id : Uuid
  folderId : Option Uuid
  name : String
  username : String
  domain : String
  kind : SecretKind
  secrets : Option Secrets

def ProfileInput.request (ssh : SshKeys) (subject : Subject) (id : Uuid) (input : ProfileInput) :
    Answer ProfileRequest := do
  let name ← Server.name input.name "name"
  let username ← plain input.username "username"
  let domain ← plain input.domain "domain"
  let kind ← input.kind
  let secrets ← newSecrets ssh kind input.secrets.given
  return { subject, id, folderId := input.folderId, name, username, domain, kind, secrets }

/-- What an update of a login profile has decided when its transaction begins. -/
structure ProfileChange where
  before : ProfileRow
  secrets : Option Secrets
  /-- What the `UPDATE` writes. -/
  row : ProfileRow

def ProfileRequest.change (r : ProfileRequest) (before : ProfileRow) : Answer ProfileChange := do
  refuse (r.secrets = none ∧ r.kind ≠ before.secretKind) (missingSecret r.kind)
  return {
    before, secrets := r.secrets,
    row := {
      folderId := r.folderId, name := r.name, username := r.username, domain := r.domain,
      secretKind := r.kind,
      secretVersion := before.secretVersion + if r.secrets.isSome then 1 else 0,
      keyInfo := (r.secrets.map Secrets.keyInfo).getD before.keyInfo } }

/-! ## Transactions -/

namespace Db

variable (db : Db)

/-- The sealed fields that `DELETE FROM secret_fields WHERE owner_id = $1 AND version <> $2` finds. -/
def otherVersions (id : Uuid) (version : Int) : List (Uuid × Int × String) :=
  db.secretFields.keys.filter fun key => key.1 = id ∧ key.2.1 ≠ version

/-- Deletes the sealed fields that a `DELETE` found. -/
def dropKeys (keys : List (Uuid × Int × String)) : Db :=
  { db with secretFields := keys.foldl (fun fields key => fields.erase key) db.secretFields }

/-- The commit of `update_device`, with what its `DELETE` found. -/
def writeDevice (id : Uuid) (c : DeviceChange) (found : List (Uuid × Int × String)) :
    Answer Db := do
  let db ← (db.dropKeys found).sealNew id c.secretVersion c.device.secrets
  let row := c.device.apply c.secretVersion c.keyInfo c.targetChanged
  (db.devices.lookup id).elim (.ok ()) fun old => db.checkDevice id (row old)
  return { db with devices := db.devices.modify id row }

/-- The transaction of an update of a login profile. -/
def writeProfile (id : Uuid) (c : ProfileChange) : Answer Db := do
  onlyIf (id ∈ db.profiles) (db.checkProfile id c.row)
  let db ← { db with profiles := db.profiles.modify id fun _ => c.row }.sealNew id
    c.row.secretVersion c.secrets
  let db := if c.secrets.isSome then db.keepVersion id c.row.secretVersion else db
  refuse (c.row.secretKind = .sshKey ∧ db.misfits id ≠ [])
    (.problem (Problem.param { code := .invalidRequest } "field" "secret_kind" |>.param "devices"
      (", ".intercalate (db.misfits id))))
  refuse (db.outOfReach ≠ []) (.devices .profileOutOfReach db.outOfReach)
  return db

/-- Nothing has the id yet: `gen_random_uuid`. -/
def unused (id : Uuid) : Bool :=
  id ∉ db.devices ∧ id ∉ db.profiles ∧ ∀ key ∈ db.secretFields.keys, key.1 ≠ id

end Db

/-! ## Interleavings -/

namespace OwnSecrets

/-- How far a request is. -/
inductive Flight
  | device (subject : Subject) (id : Uuid) (input : DeviceInput)
  | deviceLoading (r : DeviceRequest) (l : Load.Loading)
  | deviceLoaded (r : DeviceRequest) (catalog : Catalog)
  | deviceRead (r : DeviceRequest) (catalog : Catalog) (before : DeviceRow)
      (reachedBefore : Option Uuid)
  /-- The connector it names is there. -/
  | deviceNamed (r : DeviceRequest) (catalog : Catalog) (before : DeviceRow)
      (reachedBefore : Option Uuid)
  | deviceAimed (r : DeviceRequest) (catalog : Catalog) (before : DeviceRow)
      (targetChanged : Bool)
  /-- The transaction has begun. -/
  | deviceBegun (id : Uuid) (c : DeviceChange)
  | deviceSealed (id : Uuid) (c : DeviceChange)
  /-- The `DELETE` has run; `seen` updates of the device were committed then. -/
  | deviceCleared (id : Uuid) (c : DeviceChange) (found : List (Uuid × Int × String)) (seen : Nat)
  | profile (subject : Subject) (id : Uuid) (input : ProfileInput)
  | profileLoading (r : ProfileRequest) (l : Load.Loading)
  | profileLoaded (r : ProfileRequest)
  | profileBegun (id : Uuid) (c : ProfileChange)

/-- What is committed, the clock and, in the order they were committed, the updates so far. -/
structure Shared where
  db : Db
  clock : Int := 0
  commits : List Uuid := []

namespace Flight

/-- A request that comes in. -/
def isNew : Flight → Bool
  | .device .. | .profile .. => true
  | _ => false

/-- The next statement. -/
def statement (ssh : SshKeys) (s : Shared) : Flight → Answer (Shared × Option Flight)
  | .device subject id input => do
    return (s, some (.deviceLoading ⟨subject, id, ← input.validate ssh⟩ {}))
  | .deviceLoading r l =>
    match l.todo with
    | t :: todo => .ok (s, some (.deviceLoading r { l.read s.db s.clock t with todo }))
    | [] => do
      require l.catalog r.subject .edit (.device r.id)
      onlyIf (l.catalog.parent (.device r.id) ≠ some r.device.folderId)
        (require l.catalog r.subject .edit (.folder r.device.folderId))
      return (s, some (.deviceLoaded r l.catalog))
  | .deviceLoaded r catalog => do
    let before ← Db.fetchOne s.db.devices r.id
    return (s, some (.deviceRead r catalog before (← Db.ends (s.db.reachedThrough before))))
  | .deviceRead r catalog before reachedBefore => do
    s.db.requireConnector r.device.connectorId
    return (s, some (.deviceNamed r catalog before reachedBefore))
  | .deviceNamed r catalog before reachedBefore => do
    let reachedAfter ← Db.ends
      (s.db.deviceConnector r.device.connectorMode r.device.connectorId r.device.folderId)
    let targetChanged := decide (before.protocol ≠ r.device.protocol ∨ before.host ≠ r.device.host ∨
      before.port ≠ r.device.port ∨ reachedBefore ≠ reachedAfter)
    return (s, some (.deviceAimed r catalog before targetChanged))
  | .deviceAimed r catalog before targetChanged => do
    s.db.usesProfile catalog r.subject r.device.folderId r.device.protocol
      (before.profileId ≠ r.device.profileId ∨ targetChanged) r.device.profileId
    return (s, some (.deviceBegun r.id (← r.change catalog before targetChanged)))
  | .deviceBegun id c => do
    let _ ← s.db.sealNew id c.secretVersion c.device.secrets
    return (s, some (.deviceSealed id c))
  | .deviceSealed id c =>
    .ok (s, some (.deviceCleared id c (s.db.otherVersions id c.secretVersion) (s.commits.count id)))
  | .deviceCleared id c found _ => do
    return ({ s with db := ← s.db.writeDevice id c found, commits := s.commits ++ [id] }, none)
  | .profile subject id input => do
    return (s, some (.profileLoading (← input.request ssh subject id) {}))
  | .profileLoading r l =>
    match l.todo with
    | t :: todo => .ok (s, some (.profileLoading r { l.read s.db s.clock t with todo }))
    | [] => do
      require l.catalog r.subject .edit (.profile r.id)
      onlyIf (l.catalog.parent (.profile r.id) ≠ r.folderId)
        (requirePlace l.catalog r.subject r.folderId)
      return (s, some (.profileLoaded r))
  | .profileLoaded r => do
    return (s, some (.profileBegun r.id (← r.change (← Db.fetchOne s.db.profiles r.id))))
  | .profileBegun id c => do
    return ({ s with db := ← s.db.writeProfile id c, commits := s.commits ++ [id] }, none)

/-- `none` when a query never ends; a request that fails is over and its transaction rolled
back. -/
def next (ssh : SshKeys) (s : Shared) (f : Flight) : Option (Shared × Option Flight) :=
  match f.statement ssh s with
  | .ok r => some r
  | .error (.problem _) => some (s, none)
  | .error .endless => none

end Flight

/-- A device or a login profile is created, time passes, or other tables change. -/
inductive Outside
  | createDevice (caller : Caller) (id : Uuid) (input : DeviceInput)
  | createProfile (caller : Caller) (id : Uuid) (input : ProfileInput)
  | tick (clock : Int)
  | elsewhere (folders : Table FolderRow) (collections : Table CollectionRow)
      (credentials : Table CredentialRow) (grants : Table GrantRow) (connectors : Finset Uuid)

def Shared.outside (ssh : SshKeys) (s : Shared) : Outside → Option Shared
  | .createDevice caller id input =>
    if s.db.unused id then
      some { s with db := s.db.settle (s.db.createDevice ssh caller id input) }
    else none
  | .createProfile caller id input =>
    if s.db.unused id then
      some { s with db := s.db.settle (s.db.createProfile ssh caller id input) }
    else none
  | .tick clock => some { s with clock }
  | .elsewhere folders collections credentials grants connectors =>
    some { s with db := { s.db with folders, collections, credentials, grants, connectors } }

def system (ssh : SshKeys) : Interleave.System Shared Flight Outside where
  starts := Flight.isNew
  next _ := Flight.next ssh
  outside := Shared.outside ssh

end OwnSecrets

end Server
