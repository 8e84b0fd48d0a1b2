import RemoteHub.Server.Devices
import RemoteHub.Server.Fields
import RemoteHub.Totp.Params
import RemoteHub.Lib.Run

/-!
# Shared credentials (`crates/server/src/api/catalog.rs`)

A credential's password, its one-time password and its protected fields are sealed with its version.
A change of one of them makes a new version, and what did not change is copied into it (`carry`)
from the version that the request read. It read it before its transaction began: `Updates`
interleaves requests. The `UPDATE` locks the credential's row until the commit, so a transaction is
one step there.
-/

namespace Server

open Model Except Text

/-! ## Inputs -/

/-- What other crates decide: SSH keys, base32, and which days there are. -/
structure Crates where
  ssh : SshKeys
  base32 : Totp.Base32
  /-- `Month::try_from` and `Date::from_calendar_date` of year, month and day. -/
  isDate : Nat → Nat → Nat → Bool

structure CredentialInput where
  collectionId : Uuid
  name : String
  username : String := ""
  url : String := ""
  notes : String := ""
  icon : Int := 0
  fields : List FieldInput := []
  tags : List String := []
  expiresOn : Option String := none
  totp : Option String := none
  secrets : SecretInput := {}

/-- What a credential has next to its secrets, checked. -/
structure Details where
  url : String
  notes : String
  icon : Int
  fields : Checked
  tags : List String
  expiresOn : Option String

/-- The sealed field of a credential's one-time password. -/
def totpField : String := "totp"

/-- The number with leading zeros. -/
def padded (width n : Nat) : String :=
  .ofList (List.replicate (width - (toString n).length) '0') ++ toString n

/-- A day as `YYYY-MM-DD`, if `text` is one that exists. -/
def calendarDay (crates : Crates) (text : String) : Option String := do
  let (year, rest) ← splitOnce '-' text
  let year ← (parseUnsigned (2 ^ 31 - 1) year).filter fun y => 1 ≤ y ∧ y ≤ 9999
  let (month, day) ← splitOnce '-' rest
  let month ← parseUnsigned 255 month
  let day ← parseUnsigned 255 day
  if crates.isDate year month day then
    some (padded 4 year ++ "-" ++ padded 2 month ++ "-" ++ padded 2 day)
  else none

/-- One round of the loop over the tags: each word once, whatever its case. -/
def addTag (tags : List String) (tag : String) : Answer (List String) := do
  let tag := trim tag
  refuse (tag = "" ∨ 50 < tag.length ∨ tag.toList.any isControl) (invalid "tags")
  return if tags.any (eqIgnoreAsciiCase · tag) then tags else tags ++ [tag]

namespace CredentialInput

def details (crates : Crates) (input : CredentialInput) : Answer Details := do
  let url := trim input.url
  refuse (2000 < url.length ∨ url.toList.any isControl) (invalid "url")
  let notes := trimEnd input.notes
  refuse (10000 < notes.length ∨ notes.toList.any fun c => isControl c && c ≠ '\n')
    (invalid "notes")
  refuse (¬(0 ≤ input.icon ∧ input.icon ≤ 68)) (invalid "icon")
  let tags ← input.tags.foldlM addTag []
  refuse (20 < tags.length) (invalid "tags")
  let expiresOn ← ((input.expiresOn.map trim).filter (· ≠ "")).mapM fun day =>
    (calendarDay crates day).elim (.error (invalid "expires_on")) .ok
  return { url, notes, icon := input.icon, fields := ← checkFields input.fields, tags, expiresOn }

/-- A one-time password as given: `none` to keep the sealed one, `some none` to remove it. -/
def totpInput (crates : Crates) (input : CredentialInput) : Answer (Option (Option String)) :=
  match input.totp with
  | none => .ok none
  | some text =>
    if trim text = "" then .ok (some none)
    else if (Totp.Params.parse crates.base32 text).isSome then .ok (some (some (trim text)))
    else .error (invalid "totp")

end CredentialInput

/-! ## Sealing -/

namespace Db

variable (db : Db)

/-- Copies sealed fields of the version `before` (the source's `from`) to the new version, for what
a change keeps. -/
def carry (id : Uuid) (before version : Int) (names : List String) : Answer Db :=
  names.foldlM (fun db name =>
    match db.secretFields.lookup (id, before, name) with
    | some value => store db id version name value
    | none => .ok db) db

/-- Seals the protected fields with a new value into `version`. -/
def sealFields (id : Uuid) (version : Int) (toSeal : List (String × String)) : Answer Db :=
  toSeal.foldlM (fun db field => store db id version (secretName field.1) field.2) db

/-- `if let Some(totp) = &totp { seal_totp(..) }`. -/
def sealTotp (id : Uuid) (version : Int) : Option String → Answer Db
  | some totp => db.store id version totpField totp
  | none => .ok db

def checkCredential (id : Uuid) (row : CredentialRow) : Answer Unit := do
  refuse (row.version ≤ 0) (.of .internal)
  refuse (∃ e ∈ db.credentials.entries, e.1 ≠ id ∧ e.2.collectionId = row.collectionId ∧
    e.2.name = row.name) (.of .nameTaken)
  refuse (row.collectionId ∉ db.collections) (.of .folderNotEmpty)

/-! ## Requests -/

def createCredential (crates : Crates) (caller : Caller) (id : Uuid) (input : CredentialInput) :
    Answer Db := do
  let name ← name input.name "name"
  let username ← plain input.username "username"
  let secrets ← (← newSecrets crates.ssh .password input.secrets).elim
    (.error (invalid "password")) .ok
  let details ← input.details crates
  let totp := (← input.totpInput crates).join
  -- a new credential has no protected value to keep
  refuse (details.fields.kept ≠ []) (invalid "fields")
  require (db.catalog caller.now) caller.subject .edit (.collection input.collectionId)
  let row : CredentialRow := {
    collectionId := input.collectionId, name, username, version := 1, url := details.url,
    notes := details.notes, icon := details.icon, fields := details.fields.stored,
    tags := details.tags, expiresOn := details.expiresOn, hasTotp := totp.isSome,
    deletedAt := none }
  refuse (id ∈ db.credentials) (.of .nameTaken)
  db.checkCredential id row
  let db ← { db with credentials := db.credentials.insert id row }.sealVersion id 1 secrets
  let db ← db.sealFields id 1 details.fields.toSeal
  db.sealTotp id 1 totp

end Db

/-- A checked change of a credential, with what the request read of it: `before` its version,
`stored` its fields, `hadTotp`. -/
structure CredentialChange where
  collectionId : Uuid
  name : String
  username : String
  details : Details
  secrets : Option Secrets
  totp : Option (Option String)
  before : Int
  stored : List Field
  hadTotp : Bool

namespace CredentialChange

variable (c : CredentialChange)

def fieldsChanged : Bool := c.details.fields.changesSecrets c.stored

def totpChanged : Bool := c.totp.any (·.isSome) || (c.hadTotp && c.totp = some none)

def changed : Bool := c.secrets.isSome || c.fieldsChanged || c.totpChanged

def hasTotp : Bool := c.totp.elim c.hadTotp (·.isSome)

/-- The sealed fields to copy. -/
def kept : List String :=
  c.details.fields.kept.map secretName ++ (if c.secrets.isNone then [passwordField] else []) ++
    (if c.totp.isNone ∧ c.hadTotp then [totpField] else [])

/-- `UPDATE credentials SET ... WHERE id = $1`. -/
def apply (row : CredentialRow) : CredentialRow :=
  { row with
    collectionId := c.collectionId, name := c.name, username := c.username, url := c.details.url,
    notes := c.details.notes, icon := c.details.icon, fields := c.details.fields.stored,
    tags := c.details.tags, expiresOn := c.details.expiresOn, hasTotp := c.hasTotp,
    version := row.version + if c.changed then 1 else 0 }

end CredentialChange

namespace Db

variable (db : Db)

/-- `update_credential` up to its transaction, on a catalog loaded before. -/
def readCredential (crates : Crates) (catalog : Catalog) (subject : Subject) (id : Uuid)
    (input : CredentialInput) : Answer CredentialChange := do
  let name ← name input.name "name"
  let username ← plain input.username "username"
  require catalog subject .edit (.credential id)
  onlyIf (catalog.parent (.credential id) ≠ some input.collectionId)
    (require catalog subject .edit (.collection input.collectionId))
  let row ← fetchOne db.credentials id
  let secrets ← newSecrets crates.ssh .password input.secrets
  let details ← input.details crates
  let totp ← input.totpInput crates
  refuse (!details.fields.keepsOnlyWhatWas row.fields) (invalid "fields")
  return { collectionId := input.collectionId, name, username, details, secrets, totp,
           before := row.version, stored := row.fields, hadTotp := row.hasTotp }

/-- `if changed { carry(..); seal_fields(..) }`. -/
def carryAndSeal (id : Uuid) (version : Int) (c : CredentialChange) : Answer Db :=
  if c.changed then do
    let db ← db.carry id c.before version c.kept
    db.sealFields id version c.details.fields.toSeal
  else .ok db

/-- The sealed fields of a change in its new version. -/
def sealChange (id : Uuid) (version : Int) (c : CredentialChange) : Answer Db := do
  let db ← db.carryAndSeal id version c
  let db ← db.sealNew id version c.secrets
  db.sealTotp id version c.totp.join

/-- The transaction of `update_credential`. -/
def writeCredential (id : Uuid) (c : CredentialChange) : Answer Db := do
  let row := c.apply (← fetchOne db.credentials id)
  db.checkCredential id row
  { db with credentials := db.credentials.insert id row }.sealChange id row.version c

/-- `update_credential` with nothing between what it reads and its transaction. -/
def updateCredential (crates : Crates) (caller : Caller) (id : Uuid) (input : CredentialInput) :
    Answer Db := do
  let change ← db.readCredential crates (db.catalog caller.now) caller.subject id input
  db.writeCredential id change

end Db

/-! ## Requests one after another -/

namespace Versions

/-- A credential is created or updated, or other tables change. -/
inductive Event
  | create (caller : Caller) (id : Uuid) (input : CredentialInput)
  | update (caller : Caller) (id : Uuid) (input : CredentialInput)
  | elsewhere (folders : Table FolderRow) (collections : Table CollectionRow)
      (devices : Table DeviceRow) (profiles : Table ProfileRow) (grants : Table GrantRow)
      (connectors : Finset Uuid)

/-- `gen_random_uuid` gives a new credential an id that owns nothing yet. -/
def step (crates : Crates) (db : Db) : Event → Option Db
  | .create caller id input =>
    if ∃ e ∈ db.secretFields.entries, e.1.1 = id then none
    else some (db.settle (db.createCredential crates caller id input))
  | .update caller id input => some (db.settle (db.updateCredential crates caller id input))
  | .elsewhere folders collections devices profiles grants connectors =>
    some { db with folders, collections, devices, profiles, grants, connectors }

end Versions

/-! ## Updates in flight -/

namespace Updates

inductive Flight
  | loading (subject : Subject) (id : Uuid) (input : CredentialInput) (l : Load.Loading)
  /-- All is checked, the transaction comes next. -/
  | ready (id : Uuid) (change : CredentialChange)

/-- What is committed, the clock, the requests in flight and, in the order they were committed, the
changes so far. -/
structure World where
  db : Db
  clock : Int := 0
  flights : HashMap Nat Flight := ∅
  committed : List (Uuid × CredentialChange) := []

/-- A request comes in, one goes on, time passes, or other tables change. -/
inductive Event
  | start (k : Nat) (subject : Subject) (id : Uuid) (input : CredentialInput)
  | next (k : Nat)
  | tick (clock : Int)
  | elsewhere (folders : Table FolderRow) (collections : Table CollectionRow)
      (devices : Table DeviceRow) (profiles : Table ProfileRow) (grants : Table GrantRow)
      (connectors : Finset Uuid)

namespace World

/-- The next statement of a request, or its transaction; one that fails is over. -/
def next (crates : Crates) (w : World) (k : Nat) : Flight → World
  | .loading subject id input l =>
    match l.todo with
    | r :: todo =>
      { w with
        flights := w.flights.insert k
          (.loading subject id input { l.read w.db w.clock r with todo }) }
    | [] =>
      match w.db.readCredential crates l.catalog subject id input with
      | .ok change => { w with flights := w.flights.insert k (.ready id change) }
      | .error _ => { w with flights := w.flights.erase k }
  | .ready id change =>
    match w.db.writeCredential id change with
    | .ok db =>
      { w with db, flights := w.flights.erase k, committed := w.committed ++ [(id, change)] }
    | .error _ => { w with flights := w.flights.erase k }

def step (crates : Crates) (w : World) : Event → Option World
  | .start k subject id input =>
    if k ∈ w.flights then none
    else some { w with flights := w.flights.insert k (.loading subject id input {}) }
  | .next k => (w.flights.lookup k).map (w.next crates k)
  | .tick clock => some { w with clock }
  | .elsewhere folders collections devices profiles grants connectors =>
    some { w with db := { w.db with folders, collections, devices, profiles, grants, connectors } }

end World

end Updates

end Server
