import RemoteHub.Server.Db
import RemoteHub.Lib.Run

/-!
# Loading the catalog (`crates/server/src/catalog.rs`)

`load` runs seven statements one after the other, outside any transaction: each sees what is
committed when it runs. `Db.catalog` is what `load` gives when nothing changes meanwhile; `World`
interleaves its statements with changes that other requests commit.
-/

namespace Server

open Model

/-- The object a grant row points to (exactly one column is set). -/
def grantObject : Option Uuid → Option Uuid → Option Uuid → Option Uuid → Option ObjectId
  | some id, none, none, none => some (.folder id)
  | none, some id, none, none => some (.device id)
  | none, none, some id, none => some (.credential id)
  | none, none, none, some id => some (.collection id)
  | _, _, _, _ => none

def GrantRow.object (g : GrantRow) : Option ObjectId :=
  grantObject g.folderId g.deviceId g.credentialId g.collectionId

/-- The grant of a row, as `load` reads it: the role goes through its text. -/
def GrantRow.grant (g : GrantRow) : Option Grant := do
  return { object := ← g.object, principal := g.principalSid, role := ← Role.parse g.role.asStr,
           runsUntil := g.expiresAt }

namespace Db

variable (db : Db)

/-! ## The statements -/

def folderLinks : List (Uuid × Option Uuid) := db.folders.entries.map fun e => (e.1, e.2.parentId)

def collectionLinks : List (Uuid × Option Uuid) :=
  db.collections.entries.map fun e => (e.1, e.2.parentId)

def deviceLinks : List (Uuid × Uuid) := db.devices.entries.map fun e => (e.1, e.2.folderId)

def credentialLinks : List (Uuid × Uuid) :=
  db.credentials.entries.map fun e => (e.1, e.2.collectionId)

def profileLinks : List (Uuid × Option Uuid) := db.profiles.entries.map fun e => (e.1, e.2.folderId)

def grantList : List Grant := db.grants.entries.filterMap fun e => e.2.grant

def objects : Objects where
  folders := db.folderLinks
  collections := db.collectionLinks
  devices := db.deviceLinks
  credentials := db.credentialLinks
  profiles := db.profileLinks

/-- The catalog of one state of the database. -/
def catalog (now : Int) : Catalog := .new db.objects db.grantList now

/-- The row an `add_grant` changes instead of inserting one: without an end, for the same principal
on the same object (`grants_permanent`). -/
def permanentGrant (row : GrantRow) : Option Uuid :=
  if row.expiresAt.isSome then none
  else (db.grants.entries.find? fun e => e.2.expiresAt.isNone && e.2.object = row.object &&
    e.2.principalSid = row.principalSid).map (·.1)

end Db

/-! ## Statement by statement -/

namespace Load

/-- The statements of `load`, in the order it runs them. -/
inductive Read
  | folders | collections | devices | credentials | profiles | now | grants
  deriving DecidableEq, Repr

/-- How far a `load` is. -/
structure Loading where
  todo : List Read := [.folders, .collections, .devices, .credentials, .profiles, .now, .grants]
  objects : Objects := {}
  now : Int := 0
  grants : List Grant := []

/-- Stores what a statement read. -/
def Loading.read (l : Loading) (db : Db) (clock : Int) : Read → Loading
  | .folders => { l with objects := { l.objects with folders := db.folderLinks } }
  | .collections => { l with objects := { l.objects with collections := db.collectionLinks } }
  | .devices => { l with objects := { l.objects with devices := db.deviceLinks } }
  | .credentials => { l with objects := { l.objects with credentials := db.credentialLinks } }
  | .profiles => { l with objects := { l.objects with profiles := db.profileLinks } }
  | .now => { l with now := clock }
  | .grants => { l with grants := db.grantList }

def Loading.catalog (l : Loading) : Catalog := .new l.objects l.grants l.now

/-- What other requests commit meanwhile. -/
inductive Change
  | moveFolder (id : Uuid) (parent : Option Uuid)
  | moveCollection (id : Uuid) (parent : Option Uuid)
  | moveDevice (id folder : Uuid)
  | moveCredential (id collection : Uuid)
  | moveProfile (id : Uuid) (folder : Option Uuid)
  | addGrant (id : Uuid) (row : GrantRow)
  | removeGrant (id : Uuid)

def Change.apply (db : Db) : Change → Db
  | .moveFolder id parent =>
    { db with folders := db.folders.modify id ({ · with parentId := parent }) }
  | .moveCollection id parent =>
    { db with collections := db.collections.modify id ({ · with parentId := parent }) }
  | .moveDevice id folder =>
    { db with devices := db.devices.modify id ({ · with folderId := folder }) }
  | .moveCredential id collection =>
    { db with credentials := db.credentials.modify id ({ · with collectionId := collection }) }
  | .moveProfile id folder =>
    { db with profiles := db.profiles.modify id ({ · with folderId := folder }) }
  | .addGrant id row =>
    match db.permanentGrant row with
    | some id' => { db with grants := db.grants.modify id' fun g =>
        { g with role := row.role, principalName := row.principalName } }
    | none => { db with grants := db.grants.insert id row }
  | .removeGrant id => { db with grants := db.grants.erase id }

/-- The database, its clock and one `load` in flight. -/
structure World where
  db : Db
  clock : Int
  loading : Loading := {}

/-- A change is committed, time passes, or the `load` runs its next statement. -/
inductive Event
  | change (c : Change)
  | tick (clock : Int)
  | read

/-- An event, while the `load` is still running. -/
def World.step (w : World) (e : Event) : Option World :=
  match w.loading.todo, e with
  | [], _ => none
  | _ :: _, .change c => some { w with db := c.apply w.db }
  | _ :: _, .tick clock => some { w with clock }
  | r :: todo, .read => some { w with loading := { w.loading.read w.db w.clock r with todo } }

end Load

end Server
