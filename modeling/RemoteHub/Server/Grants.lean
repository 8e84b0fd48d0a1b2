import RemoteHub.Server.Load
import RemoteHub.Server.Problem
import Mathlib.Data.List.Sort

/-!
# The grants on an object, as they are listed (`list_grants` in `crates/server/src/api/catalog.rs`)

The query looks for the ids of the object and of what is above it in any of the columns; each row
counts only for the object it names.
-/

namespace Server

open Model Except

/-- `object`. -/
def objectOf (kind : String) (id : Uuid) : Answer ObjectId :=
  match kind with
  | "folder" => .ok (.folder id)
  | "device" => .ok (.device id)
  | "credential" => .ok (.credential id)
  | "collection" => .ok (.collection id)
  | _ => .error (invalid "kind")

/-- `Grants`, each row with its id. -/
structure Grants where
  direct : List (Uuid × GrantRow)
  inherited : List (Uuid × GrantRow)
  deriving DecidableEq

/-- `above`: the containers above the target; the loop ends at one it has. -/
def containersAbove (catalog : Catalog) (target : ObjectId) : List ObjectId :=
  (Chain.walk catalog.container catalog.rounds [] ∅ (catalog.container target)).getD []

/-- `SELECT ... ORDER BY lower(principal_name)`: the rows that are not over and name one of the ids. -/
def Db.grantRows (db : Db) (above : List Uuid) (id : Uuid) (now : Int) : List (Uuid × GrantRow) :=
  ((db.grants.entries.map fun e => (e.1, e.2)).filter fun row =>
    (row.2.folderId.any (· ∈ above) || row.2.collectionId.any (· ∈ above) || row.2.folderId = some id ||
        row.2.deviceId = some id || row.2.credentialId = some id || row.2.collectionId = some id) &&
      row.2.expiresAt.all (now < ·)).insertionSort
    fun a b => a.2.principalName.toLower ≤ b.2.principalName.toLower

/-- `list_grants`, as of one state of the database. -/
def Db.listGrants (db : Db) (now : Int) (subject : Subject) (kind : String) (id : Uuid) : Answer Grants := do
  let target ← objectOf kind id
  let catalog := db.catalog now
  require catalog subject .manage target
  let above := containersAbove catalog target
  let rows := db.grantRows (above.map ObjectId.id) id now
  let sorted := rows.filterMap fun row => do
    let on ← row.2.object
    if on = target ∨ on ∈ above then some (decide (on = target), row) else none
  let parts := sorted.partition (·.1)
  return ⟨parts.1.map (·.2), parts.2.map (·.2)⟩

end Server
