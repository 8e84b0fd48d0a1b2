import Mathlib.Data.List.Sort
import RemoteHub.Server.Devices

/-!
# The tree a user is shown (`crates/server/src/api/catalog.rs`)

`tree` gives everything the user may see, with their role on each object: folders and collections with a
role or on the way to something visible, devices and login profiles with a role. The rows are read after
the catalog; here both are of one state.
-/

namespace Server

open Model Except

structure TreeFolder where
  id : Uuid
  parentId : Option Uuid
  name : String
  /-- `none`: only shown as the way to something visible inside. -/
  role : Option Role
  /-- The site connector the folder names; none: its parent's. -/
  connectorId : Option Uuid
  deriving DecidableEq

structure TreeCollection where
  id : Uuid
  parentId : Option Uuid
  name : String
  role : Option Role
  deriving DecidableEq

structure TreeDevice where
  id : Uuid
  folderId : Uuid
  name : String
  /-- The connector it is reached through, however chosen. -/
  reachedThrough : Option Uuid
  role : Role
  deriving DecidableEq

structure TreeProfile where
  id : Uuid
  folderId : Option Uuid
  name : String
  role : Role
  deriving DecidableEq

structure Tree where
  folders : List TreeFolder
  devices : List TreeDevice
  profiles : List TreeProfile
  collections : List TreeCollection
  mayCreateTopLevel : Bool

/-- `SELECT ... FROM table ORDER BY lower(name)`: the rows with their ids. -/
def rowsByName {ρ : Type} (table : Table ρ) (name : ρ → String) : List (Uuid × ρ) :=
  (table.entries.map fun e => (e.1, e.2)).insertionSort fun a b =>
    (name a.2).toLower ≤ (name b.2).toLower

namespace Db

variable (db : Db)

def tree (caller : Caller) : Answer Tree := do
  let catalog := db.catalog caller.now
  let visible := catalog.visible caller.subject
  let devices ← (rowsByName db.devices (·.name)).mapM fun e => do
    return (e, ← ends (db.reachedThrough e.2))
  return {
    folders := (rowsByName db.folders (·.name)).filterMap fun (id, row) =>
      let role := visible.roles.lookup (.folder id)
      if role.isSome ∨ id ∈ visible.pathOnly then
        some { id, parentId := row.parentId, name := row.name, role, connectorId := row.connectorId }
      else none
    devices := devices.filterMap fun ((id, row), reachedThrough) =>
      (visible.roles.lookup (.device id)).map fun role =>
        { id, folderId := row.folderId, name := row.name, reachedThrough, role }
    profiles := (rowsByName db.profiles (·.name)).filterMap fun (id, row) =>
      (visible.roles.lookup (.profile id)).map fun role =>
        { id, folderId := row.folderId, name := row.name, role }
    collections := (rowsByName db.collections (·.name)).filterMap fun (id, row) =>
      let role := visible.roles.lookup (.collection id)
      if role.isSome ∨ id ∈ visible.collectionsPathOnly then
        some { id, parentId := row.parentId, name := row.name, role }
      else none
    mayCreateTopLevel := catalog.mayCreateTopLevel caller.subject }

end Db

end Server
