import RemoteHub.Server.Queries
import RemoteHub.Server.Secrets

/-!
# Folders and devices (`crates/server/src/api/catalog.rs`)

A request loads its catalog from the state it finds (`Db.catalog`) and gives the state it leaves. A
refused one leaves no state: its transaction is rolled back. The audit entries are left out; the ids
of new rows come with the request.
-/

namespace Server

open Model Except Text

/-- Who asks, and when. -/
structure Caller where
  subject : Subject
  now : Int

def keyboardLayouts : List String :=
  ["cs-cz-qwertz", "da-dk-qwerty", "de-ch-qwertz", "de-de-qwertz", "en-gb-qwerty", "en-us-qwerty",
    "es-es-qwerty", "es-latam-qwerty", "fr-be-azerty", "fr-ca-qwerty", "fr-ch-qwertz",
    "fr-fr-azerty", "hu-hu-qwertz", "it-it-qwerty", "ja-jp-qwerty", "no-no-qwerty", "pl-pl-qwerty",
    "pt-br-qwerty", "pt-pt-qwerty", "ro-ro-qwerty", "sv-se-qwerty", "tr-tr-qwerty", "failsafe"]

/-! ## Inputs -/

structure NewFolder where
  parentId : Option Uuid
  name : String
  connectorId : Option Uuid := none

/-- Absent (`none`): stays; `some none`: to the top level, the parent's connector. -/
structure FolderChange where
  name : Option String := none
  parentId : Option (Option Uuid) := none
  connectorId : Option (Option Uuid) := none

structure DeviceInput where
  folderId : Uuid
  name : String
  protocol : String
  host : String
  port : UInt16
  authMode : String
  profileId : Option Uuid := none
  description : String := ""
  keyboardLayout : Option String := none
  connectorMode : Option String := none
  connectorId : Option Uuid := none
  requiresConfirmation : Bool := false
  username : String := ""
  domain : String := ""
  secretKind : Option String := none
  secrets : SecretInput := {}

structure ValidDevice where
  folderId : Uuid
  name : String
  protocol : Protocol
  host : String
  port : Int
  authMode : AuthMode
  profileId : Option Uuid
  description : String
  keyboardLayout : Option String
  connectorMode : ConnectorMode
  connectorId : Option Uuid
  requiresConfirmation : Bool
  username : String
  domain : String
  secretKind : SecretKind
  secrets : Option Secrets

namespace DeviceInput

def validConnectorMode (mode : Option String) (connector : Option Uuid) : Answer ConnectorMode :=
  match mode, connector with
  | none, none => .ok .inherit
  | some "inherit", none => .ok .inherit
  | some "direct", none => .ok .direct
  | some "connector", some _ => .ok .connector
  | _, _ => .error (invalid "connector_id")

def validProtocol : String → Answer Protocol
  | "ssh" => .ok .ssh
  | "rdp" => .ok .rdp
  | "vnc" => .ok .vnc
  | "https" => .ok .https
  | _ => .error (invalid "protocol")

def validAuthMode (protocol : Protocol) : String → Answer AuthMode
  | "profile" => .ok .profile
  | "ask" => .ok .ask
  | "own" => .ok .own
  | "certificate" => if protocol = .ssh then .ok .certificate else .error (invalid "auth_mode")
  | "laps" =>
    if protocol = .ssh ∨ protocol = .rdp then .ok .laps else .error (invalid "auth_mode")
  | "device" => .ok .device
  | _ => .error (invalid "auth_mode")

def validSecretKind (protocol : Protocol) : Option String → Answer SecretKind
  | none => .ok .password
  | some "password" => .ok .password
  | some "ssh_key" => if protocol = .ssh then .ok .sshKey else .error (invalid "secret_kind")
  | some _ => .error (invalid "secret_kind")

def validKeyboardLayout (protocol : Protocol) (layout : Option String) : Answer (Option String) :=
  match layout.filter (· ≠ "") with
  | some layout =>
    if protocol = .rdp then
      if layout ∈ keyboardLayouts then .ok (some layout) else .error (invalid "keyboard_layout")
    else .ok none
  | none => .ok none

/-- `host` fits: no space, no control character, nothing that ends a host in a URL. -/
def hostFits (host : String) : Bool :=
  host ≠ "" && host.utf8ByteSize ≤ 253 &&
    !host.toList.any fun c => isWhitespace c || isControl c || c ∈ "/\\@?#".toList

def validate (ssh : SshKeys) (d : DeviceInput) : Answer ValidDevice := do
  let connectorMode ← validConnectorMode d.connectorMode d.connectorId
  let protocol ← validProtocol d.protocol
  let authMode ← validAuthMode protocol d.authMode
  let own := decide (authMode = .device)
  let secretKind ← validSecretKind protocol (d.secretKind.filter fun _ => own)
  let secrets ← if own then newSecrets ssh secretKind d.secrets.given else .ok none
  -- a login profile is exactly what "profile" means, and nothing else
  refuse (¬(authMode = .profile ↔ d.profileId.isSome)) (invalid "profile_id")
  let host := trim d.host
  refuse (!hostFits host) (invalid "host")
  refuse (d.port = 0) (invalid "port")
  refuse (2000 < d.description.length) (invalid "description")
  let keyboardLayout ← validKeyboardLayout protocol d.keyboardLayout
  let name ← Server.name d.name "name"
  let username ← if own then plain d.username "username" else .ok ""
  let domain ← if own then plain d.domain "domain" else .ok ""
  return { folderId := d.folderId, name, protocol, host, port := d.port.toNat, authMode,
           profileId := d.profileId, description := trim d.description, keyboardLayout,
           connectorMode, connectorId := d.connectorId,
           requiresConfirmation := d.requiresConfirmation, username, domain, secretKind, secrets }

end DeviceInput

/-! ## What the statements write -/

/-- `UPDATE folders SET ... WHERE id = $1`. -/
def FolderChange.apply (c : FolderChange) (name : Option String) (row : FolderRow) : FolderRow where
  name := name.getD row.name
  parentId := c.parentId.getD row.parentId
  connectorId := c.connectorId.getD row.connectorId

/-- `UPDATE devices SET ... WHERE id = $1` of `update_device`: pins go with `targetChanged`. -/
def ValidDevice.apply (device : ValidDevice) (secretVersion : Int) (keyInfo : KeyInfo)
    (targetChanged : Bool) (row : DeviceRow) : DeviceRow where
  folderId := device.folderId
  name := device.name
  protocol := device.protocol
  host := device.host
  port := device.port
  authMode := device.authMode
  profileId := device.profileId
  description := device.description
  keyboardLayout := device.keyboardLayout
  connectorMode := device.connectorMode
  connectorId := device.connectorId
  requiresConfirmation := device.requiresConfirmation
  username := device.username
  domain := device.domain
  secretVersion
  secretKind := device.secretKind
  keyInfo
  pins := if targetChanged then {} else row.pins

/-- The version of the device's own secret after a change: a new one, the one it keeps, none. -/
def ValidDevice.nextVersion (device : ValidDevice) (version : Int) (keeps : Bool) : Answer Int :=
  match device.secrets, device.authMode with
  | some _, _ => .ok (version + 1)
  | none, .device => if keeps then .ok version else .error (missingSecret device.secretKind)
  | none, _ => .ok 0

/-! ## Checks -/

/-- A device in `folder` may use only a login profile in that folder or one above it, or one at the
top level. -/
def inReach (catalog : Catalog) (profile folder : Uuid) : Answer Unit :=
  refuse (∃ home ∈ catalog.parent (.profile profile), ¬catalog.isWithin folder home)
    (.of .profileOutOfReach)

/-- A moved device takes its login profile along. -/
def takesProfile (catalog : Catalog) (subject : Subject) (folder : Uuid) (targetChanged : Bool) :
    Option Uuid → Answer Unit
  | none => .ok ()
  | some profile => do
    inReach catalog profile folder
    onlyIf targetChanged (require catalog subject .connect (.profile profile))

/-- Where a folder may be created: below a folder one manages, or at the top level for
administrators. -/
def requireParent (catalog : Catalog) (subject : Subject) : Option Uuid → Answer Unit
  | none => refuse (!catalog.mayCreateTopLevel subject) (.of .forbidden)
  | some parent => require catalog subject .manage (.folder parent)

/-- Where a folder may be moved to: not below itself. -/
def requireMove (catalog : Catalog) (subject : Subject) (id : Uuid) :
    Option (Option Uuid) → Answer Unit
  | none => .ok ()
  | some target => do
    requireParent catalog subject target
    refuse (∃ parent ∈ target, catalog.isWithin parent id) (invalid "parent_id")

namespace Db

variable (db : Db)

/-- Keys are SSH's: a device of another protocol cannot sign in with a profile that holds a key. -/
def profileFits (profile : Uuid) (protocol : Protocol) : Answer Unit :=
  refuse ((db.profiles.lookup profile).map (·.secretKind) = some .sshKey ∧ protocol ≠ .ssh)
    (invalid "profile_id")

/-- A connector the device or folder names must exist. -/
def requireConnector (connector : Option Uuid) : Answer Unit :=
  refuse (∃ c ∈ connector, c ∉ db.connectors) (invalid "connector_id")

/-- A login profile may only be linked, or sent to another target (`redirected`), by someone who may
use it; it lies within the device's reach and fits its protocol. -/
def usesProfile (catalog : Catalog) (subject : Subject) (folder : Uuid) (protocol : Protocol)
    (redirected : Prop) [Decidable redirected] : Option Uuid → Answer Unit
  | none => .ok ()
  | some profile => do
    onlyIf redirected (require catalog subject .connect (.profile profile))
    inReach catalog profile folder
    db.profileFits profile protocol

/-- `fetch_one` of a row by its id; also the row an `UPDATE` by id finds, which a right on its object
was required for before. -/
def fetchOne {ρ : Type} (table : Table ρ) (id : Uuid) : Answer ρ :=
  match table.lookup id with
  | some row => .ok row
  | none => .error (.of .internal)

/-- The state after a request; one that fails is rolled back. -/
def settle : Answer Db → Db
  | .ok db' => db'
  | .error _ => db

/-! ## Folders -/

def createFolder (caller : Caller) (id : Uuid) (input : NewFolder) : Answer Db := do
  let name ← name input.name "name"
  let catalog := db.catalog caller.now
  requireParent catalog caller.subject input.parentId
  db.requireConnector input.connectorId
  let row : FolderRow := { parentId := input.parentId, name, connectorId := input.connectorId }
  refuse (id ∈ db.folders) (.of .nameTaken)
  db.checkFolder id row
  return { db with folders := db.folders.insert id row }

/-- `FORGET_PINS`. -/
def forgetPins (ids : List Uuid) : Db :=
  { db with devices := ids.foldl (fun t id => t.modify id ({ · with pins := {} })) db.devices }

/-- The devices below a folder that are reached through another connector after a change. -/
def retargeted (before after : List Reached) : List Reached :=
  after.filter fun now =>
    before.any fun was => was.id = now.id && was.reachedThrough ≠ now.reachedThrough

def updateFolder (caller : Caller) (id : Uuid) (input : FolderChange) : Answer Db := do
  let catalog := db.catalog caller.now
  require catalog caller.subject .manage (.folder id)
  let name ← input.name.mapM (name · "name")
  requireMove catalog caller.subject id input.parentId
  db.requireConnector input.connectorId.join
  let before ← db.devicesBelow id
  let row ← fetchOne db.folders id
  db.checkFolder id (input.apply name row)
  let changed : Db := { db with folders := db.folders.insert id (input.apply name row) }
  -- another connector here, or above after a move, is another target for every device below
  let after ← changed.devicesBelow id
  let refused := (retargeted before after).filter fun device =>
    device.profileId.any fun profile =>
      !(require catalog caller.subject .connect (.profile profile)).isOk
  refuse (refused ≠ []) (.devices .retargetForbidden (refused.map (·.name)))
  refuse (changed.outOfReach ≠ []) (.devices .profileOutOfReach changed.outOfReach)
  return changed.forgetPins ((retargeted before after).map (·.id))

def deleteFolder (caller : Caller) (id : Uuid) : Answer Db := do
  require (db.catalog caller.now) caller.subject .manage (.folder id)
  refuse ((∃ e ∈ db.folders.entries, e.2.parentId = some id) ∨
    (∃ e ∈ db.devices.entries, e.2.folderId = id) ∨
    (∃ e ∈ db.profiles.entries, e.2.folderId = some id)) (.of .folderNotEmpty)
  return { db with
           folders := db.folders.erase id,
           grants := .collect (db.grants.entries.filterMap fun e =>
             if e.2.folderId = some id then none else some (e.1, e.2)) }

/-! ## Devices -/

def createDevice (ssh : SshKeys) (caller : Caller) (id : Uuid) (input : DeviceInput) :
    Answer Db := do
  let device ← input.validate ssh
  let catalog := db.catalog caller.now
  require catalog caller.subject .edit (.folder device.folderId)
  -- whoever points a login profile at a host may use that profile
  db.usesProfile catalog caller.subject device.folderId device.protocol True device.profileId
  db.requireConnector device.connectorId
  refuse (device.authMode = .device ∧ device.secrets = none) (missingSecret device.secretKind)
  let secretVersion := if device.secrets.isSome then 1 else 0
  let row : DeviceRow := {
    folderId := device.folderId, name := device.name, protocol := device.protocol,
    host := device.host, port := device.port, authMode := device.authMode,
    profileId := device.profileId, description := device.description,
    keyboardLayout := device.keyboardLayout, connectorMode := device.connectorMode,
    connectorId := device.connectorId, requiresConfirmation := device.requiresConfirmation,
    username := device.username, domain := device.domain, secretVersion,
    secretKind := device.secretKind, keyInfo := (device.secrets.map Secrets.keyInfo).getD {},
    pins := {} }
  refuse (id ∈ db.devices) (.of .nameTaken)
  db.checkDevice id row
  { db with devices := db.devices.insert id row }.sealNew id secretVersion device.secrets

def updateDevice (ssh : SshKeys) (caller : Caller) (id : Uuid) (input : DeviceInput) :
    Answer Db := do
  let device ← input.validate ssh
  let catalog := db.catalog caller.now
  require catalog caller.subject .edit (.device id)
  onlyIf (catalog.parent (.device id) ≠ some device.folderId)
    (require catalog caller.subject .edit (.folder device.folderId))
  let before ← fetchOne db.devices id
  let reachedBefore ← ends (db.reachedThrough before)
  db.requireConnector device.connectorId
  let reachedAfter ← ends
    (db.deviceConnector device.connectorMode device.connectorId device.folderId)
  let targetChanged := decide (before.protocol ≠ device.protocol ∨ before.host ≠ device.host ∨
    before.port ≠ device.port ∨ reachedBefore ≠ reachedAfter)
  db.usesProfile catalog caller.subject device.folderId device.protocol
    (before.profileId ≠ device.profileId ∨ targetChanged) device.profileId
  -- the device's own secret goes to another target only with someone who may read it
  let mayCarry :=
    !targetChanged || (require catalog caller.subject .reveal (.device id)).isOk
  let keeps := decide (before.authMode = .device ∧ 0 < before.secretVersion ∧
    before.secretKind = device.secretKind) && mayCarry
  let secretVersion ← device.nextVersion before.secretVersion keeps
  let keyInfo := (device.secrets.map Secrets.keyInfo).getD
    (if 0 < secretVersion then before.keyInfo else {})
  let db ← db.sealNew id secretVersion device.secrets
  let db := db.keepVersion id secretVersion
  let row := device.apply secretVersion keyInfo targetChanged before
  db.checkDevice id row
  return { db with devices := db.devices.insert id row }

/-- `move_device` when the device is not in the folder yet. -/
def moveDeviceTo (caller : Caller) (catalog : Catalog) (id folder : Uuid) : Answer Db := do
  let before ← fetchOne db.devices id
  let reachedBefore ← ends (db.reachedThrough before)
  let reachedAfter ← ends (db.deviceConnector before.connectorMode before.connectorId folder)
  let ownSecret := decide (before.authMode = .device ∧ 0 < before.secretVersion)
  let targetChanged := decide (reachedBefore ≠ reachedAfter)
  takesProfile catalog caller.subject folder targetChanged before.profileId
  onlyIf (targetChanged && ownSecret) (require catalog caller.subject .reveal (.device id))
  let row := { before with
    folderId := folder, pins := if targetChanged then {} else before.pins }
  db.checkDevice id row
  return { db with devices := db.devices.insert id row }

def moveDevice (caller : Caller) (id folder : Uuid) : Answer Db := do
  let catalog := db.catalog caller.now
  require catalog caller.subject .edit (.device id)
  require catalog caller.subject .edit (.folder folder)
  if catalog.parent (.device id) = some folder then .ok db
  else db.moveDeviceTo caller catalog id folder

def deleteDevice (caller : Caller) (id : Uuid) : Answer Db := do
  require (db.catalog caller.now) caller.subject .edit (.device id)
  let db := db.dropSecrets id
  return { db with
           devices := db.devices.erase id,
           grants := .collect (db.grants.entries.filterMap fun e =>
             if e.2.deviceId = some id then none else some (e.1, e.2)) }

end Db

end Server
