import RemoteHub.Model.Catalog

/-!
# The tables (`migrations/`)

The rows of the catalog's tables as the migrations leave them, without timestamps nothing reads.
A table is a map from the primary key to the rest of the row; a column whose CHECK lists its values
is an enumeration.
-/

namespace Server

open Model

/-- `devices.protocol`. -/
inductive Protocol
  | ssh | rdp | vnc | https
  deriving DecidableEq, Repr

/-- `devices.auth_mode`. -/
inductive AuthMode
  | profile | ask | own | certificate | laps | device
  deriving DecidableEq, Repr

/-- `devices.connector_mode`. -/
inductive ConnectorMode
  | inherit | direct | connector
  deriving DecidableEq, Repr

/-- `secret_kind` of devices and login profiles. -/
inductive SecretKind
  | password | sshKey
  deriving DecidableEq, Repr

structure FolderRow where
  parentId : Option Uuid
  name : String
  connectorId : Option Uuid
  deriving DecidableEq

structure CollectionRow where
  parentId : Option Uuid
  name : String
  deriving DecidableEq

/-- What is pinned at the first connection: `host_key`, `certificate_fingerprint` and when. -/
structure Pins where
  hostKey : Option String := none
  hostKeyPinnedAt : Option Int := none
  certificateFingerprint : Option String := none
  certificatePinnedAt : Option Int := none
  deriving DecidableEq

/-- What identifies a key, stored in plain text: `key_algorithm`, `key_fingerprint`,
`has_certificate`. -/
structure KeyInfo where
  algorithm : Option String := none
  fingerprint : Option String := none
  hasCertificate : Bool := false
  deriving DecidableEq

structure DeviceRow where
  folderId : Uuid
  name : String
  protocol : Protocol
  host : String
  port : Int
  authMode : AuthMode
  profileId : Option Uuid
  description : String
  keyboardLayout : Option String
  connectorMode : ConnectorMode
  connectorId : Option Uuid
  requiresConfirmation : Bool
  username : String
  domain : String
  secretVersion : Int
  secretKind : SecretKind
  keyInfo : KeyInfo
  pins : Pins
  deriving DecidableEq

/-- `login_profiles`. -/
structure ProfileRow where
  folderId : Option Uuid
  name : String
  username : String
  domain : String
  secretKind : SecretKind
  secretVersion : Int
  keyInfo : KeyInfo
  deriving DecidableEq

/-- A custom field as `credentials.fields` holds it: a protected one without its value. -/
structure Field where
  name : String
  isProtected : Bool
  value : Option String
  deriving DecidableEq

structure CredentialRow where
  collectionId : Uuid
  name : String
  username : String
  version : Int
  url : String
  notes : String
  icon : Int
  fields : List Field
  tags : List String
  expiresOn : Option String
  hasTotp : Bool
  deletedAt : Option Int
  deriving DecidableEq

/-- Exactly one of the four object columns is set (`grants_one_object`); `expiresAt` in Unix
seconds. -/
structure GrantRow where
  folderId : Option Uuid
  deviceId : Option Uuid
  credentialId : Option Uuid
  collectionId : Option Uuid
  principalKind : String
  principalSid : String
  principalName : String
  role : Role
  expiresAt : Option Int
  deriving DecidableEq

/-- A table: its rows by primary key. -/
abbrev Table (ρ : Type) := HashMap Uuid ρ

/-- `secret_fields` by owner, version and field: the plaintext the vault opens a field to (sealing
and opening in the same context is the identity). -/
abbrev SecretFields := HashMap (Uuid × Int × String) String

structure Db where
  folders : Table FolderRow := ∅
  collections : Table CollectionRow := ∅
  devices : Table DeviceRow := ∅
  credentials : Table CredentialRow := ∅
  profiles : Table ProfileRow := ∅
  grants : Table GrantRow := ∅
  connectors : Finset Uuid := ∅
  secretFields : SecretFields := ∅

end Server
