import RemoteHub.Server.Devices

/-!
# Login profiles (`crates/server/src/api/profiles.rs`)

A login many devices share. A profile lies in a device folder and has that folder's grants; one at
the top level is for administrators only. Devices in its folder and below may sign in with it.
-/

namespace Server

open Model Except

structure ProfileInput where
  folderId : Option Uuid
  name : String
  username : String := ""
  domain : String := ""
  secretKind : Option String := none
  secrets : SecretInput := {}

/-- Where a profile may be created or moved to. -/
def requirePlace (catalog : Catalog) (subject : Subject) (folder : Option Uuid) : Answer Unit :=
  match folder with
  | some folder => require catalog subject .edit (.folder folder)
  | none => refuse (!catalog.mayCreateTopLevel subject) (.of .forbidden)

def ProfileInput.kind (input : ProfileInput) : Answer SecretKind :=
  match input.secretKind with
  | none => .ok .password
  | some "password" => .ok .password
  | some "ssh_key" => .ok .sshKey
  | some _ => .error (invalid "secret_kind")

namespace Db

variable (db : Db)

def createProfile (ssh : SshKeys) (caller : Caller) (id : Uuid) (input : ProfileInput) :
    Answer Db := do
  let name ← name input.name "name"
  let username ← plain input.username "username"
  let domain ← plain input.domain "domain"
  let kind ← input.kind
  let secrets ← (← newSecrets ssh kind input.secrets.given).elim (.error (missingSecret kind)) .ok
  requirePlace (db.catalog caller.now) caller.subject input.folderId
  let row : ProfileRow := {
    folderId := input.folderId, name, username, domain, secretKind := kind, secretVersion := 1,
    keyInfo := secrets.keyInfo }
  refuse (id ∈ db.profiles) (.of .nameTaken)
  db.checkProfile id row
  { db with profiles := db.profiles.insert id row }.sealVersion id 1 secrets

/-- The devices that sign in with the profile and are not SSH's, by name. -/
def misfits (id : Uuid) : List String :=
  db.deviceNames fun d => d.profileId = some id && d.protocol ≠ .ssh

/-- The devices that sign in with the profile, by name. -/
def profileUsers (id : Uuid) : List String := db.deviceNames (·.profileId = some id)

def updateProfile (ssh : SshKeys) (caller : Caller) (id : Uuid) (input : ProfileInput) :
    Answer Db := do
  let name ← name input.name "name"
  let username ← plain input.username "username"
  let domain ← plain input.domain "domain"
  let kind ← input.kind
  let secrets ← newSecrets ssh kind input.secrets.given
  let catalog := db.catalog caller.now
  require catalog caller.subject .edit (.profile id)
  onlyIf (catalog.parent (.profile id) ≠ input.folderId)
    (requirePlace catalog caller.subject input.folderId)
  let before ← fetchOne db.profiles id
  -- another kind needs its own secret: a password is no key
  refuse (secrets = none ∧ kind ≠ before.secretKind) (missingSecret kind)
  let version := before.secretVersion + if secrets.isSome then 1 else 0
  let keyInfo := (secrets.map Secrets.keyInfo).getD before.keyInfo
  let row : ProfileRow := {
    folderId := input.folderId, name, username, domain, secretKind := kind,
    secretVersion := version, keyInfo }
  db.checkProfile id row
  let db ← { db with profiles := db.profiles.insert id row }.sealNew id version secrets
  -- a profile keeps only its current secret
  let db := if secrets.isSome then db.keepVersion id version else db
  refuse (kind = .sshKey ∧ db.misfits id ≠ [])
    (.problem (Problem.param { code := .invalidRequest } "field" "secret_kind" |>.param "devices"
      (", ".intercalate (db.misfits id))))
  refuse (db.outOfReach ≠ []) (.devices .profileOutOfReach db.outOfReach)
  return db

def deleteProfile (caller : Caller) (id : Uuid) : Answer Db := do
  require (db.catalog caller.now) caller.subject .edit (.profile id)
  refuse (db.profileUsers id ≠ []) (.devices .profileInUse (db.profileUsers id))
  let db := db.dropSecrets id
  return { db with profiles := db.profiles.erase id }

end Db

/-! ## Requests one after another -/

/-- A request on the tree of devices. -/
inductive Request
  | createFolder (id : Uuid) (input : NewFolder)
  | updateFolder (id : Uuid) (input : FolderChange)
  | deleteFolder (id : Uuid)
  | createDevice (id : Uuid) (input : DeviceInput)
  | updateDevice (id : Uuid) (input : DeviceInput)
  | moveDevice (id folder : Uuid)
  | deleteDevice (id : Uuid)
  | createProfile (id : Uuid) (input : ProfileInput)
  | updateProfile (id : Uuid) (input : ProfileInput)
  | deleteProfile (id : Uuid)

def Request.run (ssh : SshKeys) (db : Db) (caller : Caller) : Request → Answer Db
  | .createFolder id input => db.createFolder caller id input
  | .updateFolder id input => db.updateFolder caller id input
  | .deleteFolder id => db.deleteFolder caller id
  | .createDevice id input => db.createDevice ssh caller id input
  | .updateDevice id input => db.updateDevice ssh caller id input
  | .moveDevice id folder => db.moveDevice caller id folder
  | .deleteDevice id => db.deleteDevice caller id
  | .createProfile id input => db.createProfile ssh caller id input
  | .updateProfile id input => db.updateProfile ssh caller id input
  | .deleteProfile id => db.deleteProfile caller id

/-- A request, or what other parts of the API do: grants, connectors and the other tree. -/
inductive Event
  | request (caller : Caller) (r : Request)
  | elsewhere (grants : Table GrantRow) (connectors : Finset Uuid)
      (collections : Table CollectionRow) (credentials : Table CredentialRow)

/-- The state after an event; a request that fails is rolled back. -/
def Db.handle (ssh : SshKeys) (db : Db) : Event → Db
  | .request caller r =>
    match r.run ssh db caller with
    | .ok db' => db'
    | .error _ => db
  | .elsewhere grants connectors collections credentials =>
    { db with grants, connectors, collections, credentials }

end Server
