import RemoteHub.Server.Load
import RemoteHub.Server.Problem

/-!
# Recursive queries and constraints (`migrations/`)

`folder_connector` and `devices_below` are recursive queries with `UNION ALL`: on a cyclic tree they
go round forever, `none` here. `folder_within` is one with `UNION`, which drops the rows it has: it
always ends. A folder has one row, so each round of `folder_connector` and `folder_within` has one
row at most; `devices_below` works level by level.

The constraints are those of the row as it is written: a CHECK first, then the unique indexes, then
the foreign keys. `database` makes `name_taken` of the second kind and `folder_not_empty` of the
third.
-/

namespace Server

open Model Except

namespace Db

variable (db : Db)

/-! ## Queries -/

/-- Rounds after which a query over the folders that has not ended never does. -/
def folderRounds : Nat := db.folders.keys.length + 1

/-- `folder_connector` from a folder on: its own, or the nearest one above it. -/
def folderConnectorFrom : Nat → Option Uuid → Option (Option Uuid)
  | _, none => some none
  | 0, some _ => none
  | n + 1, some folder =>
    match db.folders.lookup folder with
    | none => some none
    | some row =>
      match row.connectorId with
      | some connector => some (some connector)
      | none => folderConnectorFrom n row.parentId

def folderConnector (folder : Uuid) : Option (Option Uuid) :=
  db.folderConnectorFrom db.folderRounds (some folder)

/-- The connector a device is reached through; none: directly. -/
def deviceConnector (mode : ConnectorMode) (own : Option Uuid) (folder : Uuid) :
    Option (Option Uuid) :=
  match mode with
  | .connector => some own
  | .direct => some none
  | .inherit => db.folderConnector folder

def reachedThrough (d : DeviceRow) : Option (Option Uuid) :=
  db.deviceConnector d.connectorMode d.connectorId d.folderId

/-- The row above a folder's row. -/
def folderUp (folder : Uuid) : Option Uuid :=
  ((db.folders.lookup folder).bind (·.parentId)).filter (· ∈ db.folders)

/-- The rows of `folder_within`: the folder's and those above it. -/
def foldersUp (folder : Uuid) : Option (List Uuid) :=
  Chain.walk db.folderUp db.folderRounds [] ∅ (some folder |>.filter (· ∈ db.folders))

/-- Whether `folder` is `ancestor` or lies below it. -/
def folderWithin (folder ancestor : Uuid) : Bool := ancestor ∈ (db.foldersUp folder).getD []

/-- The folders directly below one of `frontier`. -/
def foldersIn (frontier : List Uuid) : List Uuid :=
  frontier.flatMap fun b =>
    (db.folders.entries.filter fun e => e.2.parentId = some b).map (·.1)

/-- `below` of `devices_below`, level by level. -/
def belowFrom : Nat → List Uuid → List Uuid → Option (List Uuid)
  | _, [], below => some below
  | 0, _ :: _, _ => none
  | n + 1, frontier, below => belowFrom n (db.foldersIn frontier) (below ++ frontier)

def foldersBelow (folder : Uuid) : Option (List Uuid) :=
  db.belowFrom db.folderRounds (if folder ∈ db.folders then [folder] else []) []

/-- A device in a folder's subtree, and the connector it is reached through. -/
structure Reached where
  id : Uuid
  name : String
  profileId : Option Uuid
  reachedThrough : Option Uuid
  deriving DecidableEq

/-- A query that ends. -/
def ends {α : Type} : Option α → Answer α
  | some a => .ok a
  | none => .error .endless

theorem ends_eq_ok {α : Type} {o : Option α} {a : α} : ends o = .ok a ↔ o = some a := by
  cases o <;> simp [ends]

/-- Every device in `folder` and the folders below it, with its connector. -/
def devicesBelow (folder : Uuid) : Answer (List Reached) := do
  let below ← ends (db.foldersBelow folder)
  (db.devices.entries.filter (·.2.folderId ∈ below)).mapM fun e => do
    return ⟨e.1, e.2.name, e.2.profileId, ← ends (db.reachedThrough e.2)⟩

/-- `SELECT name FROM devices WHERE ... ORDER BY lower(name)`. -/
def deviceNames (p : DeviceRow → Bool) : List String :=
  byLowerName ((db.devices.entries.filter fun e => p e.2).map (·.2.name))

/-- The devices whose login profile no longer lies in their folder or one above it, by name. -/
def outOfReach : List String :=
  db.deviceNames fun d => (d.profileId.bind db.profiles.lookup).any fun p =>
    p.folderId.any fun home => !db.folderWithin d.folderId home

/-! ## Constraints -/

def checkFolder (id : Uuid) (row : FolderRow) : Answer Unit := do
  refuse (row.parentId = some id) (.of .internal)
  refuse (∃ e ∈ db.folders.entries, e.1 ≠ id ∧ e.2.parentId = row.parentId ∧ e.2.name = row.name)
    (.of .nameTaken)
  refuse (∃ parent ∈ row.parentId, parent ≠ id ∧ parent ∉ db.folders) (.of .folderNotEmpty)
  refuse (∃ connector ∈ row.connectorId, connector ∉ db.connectors) (.of .folderNotEmpty)

def checkDevice (id : Uuid) (row : DeviceRow) : Answer Unit := do
  refuse (¬(row.authMode = .profile ↔ row.profileId.isSome)) (.of .internal)
  refuse (¬(row.connectorMode = .connector ↔ row.connectorId.isSome)) (.of .internal)
  refuse (∃ e ∈ db.devices.entries, e.1 ≠ id ∧ e.2.folderId = row.folderId ∧ e.2.name = row.name)
    (.of .nameTaken)
  refuse (row.folderId ∉ db.folders) (.of .folderNotEmpty)
  refuse (∃ connector ∈ row.connectorId, connector ∉ db.connectors) (.of .folderNotEmpty)
  refuse (∃ profile ∈ row.profileId, profile ∉ db.profiles) (.of .folderNotEmpty)

def checkProfile (id : Uuid) (row : ProfileRow) : Answer Unit := do
  refuse (row.secretVersion ≤ 0) (.of .internal)
  refuse (∃ e ∈ db.profiles.entries, e.1 ≠ id ∧ e.2.folderId = row.folderId ∧ e.2.name = row.name)
    (.of .nameTaken)
  refuse (∃ folder ∈ row.folderId, folder ∉ db.folders) (.of .folderNotEmpty)

end Db

end Server
