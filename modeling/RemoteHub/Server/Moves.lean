import RemoteHub.Server.Devices
import RemoteHub.Lib.Run

/-!
# Changes of folders and collections in flight

`update_folder` (`crates/server/src/api/catalog.rs`) and `update`
(`crates/server/src/api/collections.rs`), statement by statement, so that requests can interleave. A
request loads its catalog and makes its checks on it; then its transaction runs, at READ COMMITTED:
a statement sees what is committed when it runs and what its own transaction changed. A changed row
is locked until the transaction ends: another `UPDATE` of it waits, and then changes what was
committed meanwhile.

The waits that foreign keys and unique indexes add are left out, so there are interleavings here
that the database delays. `FORGET_PINS` and the audit entry go with the commit.
-/

namespace Server

open Model Except

/-! ## Collections -/

structure CollectionChange where
  name : Option String := none
  parentId : Option (Option Uuid) := none

/-- `UPDATE collections SET ... WHERE id = $1`. -/
def CollectionChange.apply (c : CollectionChange) (name : Option String) (row : CollectionRow) :
    CollectionRow where
  name := name.getD row.name
  parentId := c.parentId.getD row.parentId

/-- Where a collection may be moved to: not below itself. -/
def requireCollectionMove (catalog : Catalog) (subject : Subject) (id : Uuid) :
    Option (Option Uuid) → Answer Unit
  | none => .ok ()
  | some none => refuse (!catalog.mayCreateTopLevel subject) (.of .forbidden)
  | some (some parent) => do
    require catalog subject .manage (.collection parent)
    refuse (catalog.isWithinCollection parent id) (invalid "parent_id")

def Db.checkCollection (db : Db) (id : Uuid) (row : CollectionRow) : Answer Unit := do
  refuse (row.parentId = some id) (.of .internal)
  refuse (∃ e ∈ db.collections.entries, e.1 ≠ id ∧ e.2.parentId = row.parentId ∧
    e.2.name = row.name) (.of .nameTaken)
  refuse (∃ parent ∈ row.parentId, parent ≠ id ∧ parent ∉ db.collections) (.of .folderNotEmpty)

/-! ## Requests -/

inductive Move
  | folder (id : Uuid) (change : FolderChange)
  | collection (id : Uuid) (change : CollectionChange)

namespace Move

/-- The row the `UPDATE` changes. -/
def row : Move → ObjectId
  | .folder id _ => .folder id
  | .collection id _ => .collection id

/-- The checks before the transaction, and the name to write. -/
def check (db : Db) (catalog : Catalog) (subject : Subject) : Move → Answer (Option String)
  | .folder id change => do
    require catalog subject .manage (.folder id)
    let name ← change.name.mapM (name · "name")
    requireMove catalog subject id change.parentId
    db.requireConnector change.connectorId.join
    return name
  | .collection id change => do
    require catalog subject .manage (.collection id)
    let name ← change.name.mapM (name · "name")
    requireCollectionMove catalog subject id change.parentId
    return name

/-- The constraints on the row the `UPDATE` leaves. -/
def constraints (db : Db) (name : Option String) : Move → Answer Unit
  | .folder id change =>
    (db.folders.lookup id).elim (.ok ()) fun row => db.checkFolder id (change.apply name row)
  | .collection id change =>
    (db.collections.lookup id).elim (.ok ()) fun row => db.checkCollection id (change.apply name row)

/-- The tables with the `UPDATE`. -/
def apply (db : Db) (name : Option String) : Move → Db
  | .folder id change => { db with folders := db.folders.modify id (change.apply name) }
  | .collection id change => { db with collections := db.collections.modify id (change.apply name) }

end Move

/-- How far a request is. -/
inductive Flight
  | loading (subject : Subject) (move : Move) (l : Load.Loading)
  /-- The transaction has begun. -/
  | begun (subject : Subject) (move : Move) (catalog : Catalog) (name : Option String)
  | counted (subject : Subject) (id : Uuid) (change : FolderChange) (catalog : Catalog)
      (name : Option String) (before : List Db.Reached)
  | updated (subject : Subject) (id : Uuid) (change : FolderChange) (catalog : Catalog)
      (name : Option String) (before : List Db.Reached)
  | compared (id : Uuid) (change : FolderChange) (name : Option String) (retargeted : List Uuid)
  /-- All is done but the commit. -/
  | settled (move : Move) (name : Option String) (retargeted : List Uuid)

namespace Flight

/-- The row the next statement updates. -/
def updates : Flight → Option ObjectId
  | .begun _ (.collection id _) _ _ => some (.collection id)
  | .counted _ id _ _ _ _ => some (.folder id)
  | _ => none

/-- The row the transaction has locked. -/
def locks : Flight → Option ObjectId
  | .updated _ id _ _ _ _ | .compared id _ _ _ => some (.folder id)
  | .settled move _ _ => some move.row
  | _ => none

/-- The next statement: the state after it, and how far the request is then; nothing when it is
over. -/
def statement (db : Db) (clock : Int) : Flight → Answer (Db × Option Flight)
  | .loading subject move l =>
    match l.todo with
    | r :: todo => .ok (db, some (.loading subject move { l.read db clock r with todo }))
    | [] => do return (db, some (.begun subject move l.catalog (← move.check db l.catalog subject)))
  | .begun subject (.folder id change) catalog name => do
    return (db, some (.counted subject id change catalog name (← db.devicesBelow id)))
  | .begun _ (.collection id change) _ name => do
    (Move.collection id change).constraints db name
    return (db, some (.settled (.collection id change) name []))
  | .counted subject id change catalog name before => do
    (Move.folder id change).constraints db name
    return (db, some (.updated subject id change catalog name before))
  | .updated subject id change catalog name before => do
    let after ← ((Move.folder id change).apply db name).devicesBelow id
    let refused := (Db.retargeted before after).filter fun device =>
      device.profileId.any fun profile =>
        !(require catalog subject .connect (.profile profile)).isOk
    refuse (refused ≠ []) (.devices .retargetForbidden (refused.map (·.name)))
    return (db, some (.compared id change name ((Db.retargeted before after).map (·.id))))
  | .compared id change name retargeted => do
    let stranded := ((Move.folder id change).apply db name).outOfReach
    refuse (stranded ≠ []) (.devices .profileOutOfReach stranded)
    return (db, some (.settled (.folder id change) name retargeted))
  | .settled move name retargeted => .ok ((move.apply db name).forgetPins retargeted, none)

end Flight

/-! ## Interleavings -/

namespace Moves

/-- What is committed, the clock and the requests in flight. -/
structure World where
  db : Db
  clock : Int := 0
  flights : HashMap Nat Flight := ∅

/-- A request comes in, one runs its next statement, time passes, or the tables without parents
change. -/
inductive Event
  | start (k : Nat) (subject : Subject) (move : Move)
  | next (k : Nat)
  | tick (clock : Int)
  | elsewhere (devices : Table DeviceRow) (credentials : Table CredentialRow)
      (profiles : Table ProfileRow) (grants : Table GrantRow) (connectors : Finset Uuid)
      (secretFields : SecretFields)

namespace World

/-- Another transaction has the row that the request updates next. -/
def waits (w : World) (f : Flight) : Bool :=
  f.updates.any fun row => w.flights.entries.any fun e => e.2.locks = some row

/-- The next statement of a request: `none` when it waits or never ends; a request that fails is
over and its transaction rolled back. -/
def next (w : World) (k : Nat) (f : Flight) : Option World :=
  if w.waits f then none
  else match f.statement w.db w.clock with
    | .ok (db, some f') => some { w with db, flights := w.flights.insert k f' }
    | .ok (db, none) => some { w with db, flights := w.flights.erase k }
    | .error (.problem _) => some { w with flights := w.flights.erase k }
    | .error .endless => none

def step (w : World) : Event → Option World
  | .start k subject move =>
    if k ∈ w.flights then none
    else some { w with flights := w.flights.insert k (.loading subject move {}) }
  | .next k => (w.flights.lookup k).bind (w.next k)
  | .tick clock => some { w with clock }
  | .elsewhere devices credentials profiles grants connectors secretFields =>
    some { w with
           db := { w.db with devices, credentials, profiles, grants, connectors, secretFields } }

/-- The next statement of a request is a query that never ends. -/
def Stalls (w : World) (k : Nat) : Prop :=
  ∃ f, w.flights.lookup k = some f ∧ f.statement w.db w.clock = .error .endless

end World

end Moves

end Server
