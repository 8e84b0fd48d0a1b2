import RemoteHub.Server.Tree

/-!
# The tree in the web client (`web/src/lib/catalog/tree.ts`, `web/src/routes/+page.svelte`)

Helpers over the flat tree from the API. An id is `null` or the text of a uuid, which is never empty: a
test of its truth is one for `null`. `byId` of `walk` gives the same object for the same id, so two items
on a path are the same object where they are equal.
-/

namespace Web.Tree

open Model Server

/-- What is dragged in the device tree, or moved with *Move to …*. -/
inductive Dragged
  | device (id : Uuid)
  | folder (id : Uuid)
  deriving DecidableEq

/-- `allows`: whether `role` includes `needed`. -/
def allows (role : Option Role) (needed : Role) : Bool :=
  role.any fun role => Role.all.idxOf needed ≤ Role.all.idxOf role

section
variable {T : Type} [DecidableEq T] (id : T → Uuid) (parentId : T → Option Uuid) (items : List T)

/-- `new Map(items.map((item) => [item.id, item]))`. -/
def byId : HashMap Uuid T := .collect (items.map fun item => (id item, item))

/-- The path from the top down to an item: up from it until a parent is missing or comes back. -/
def walk (start : Option Uuid) : List T :=
  let path := Chain.walk (fun item => (parentId item).bind (byId id items).lookup) (items.length + 1) [] ∅
    (start.bind (byId id items).lookup)
  (path.getD []).reverse

end

/-- The folder path from the top down to (and including) a folder. -/
def pathTo (tree : Server.Tree) (folderId : Option Uuid) : List TreeFolder :=
  walk (·.id) (·.parentId) tree.folders folderId

/-- The collection path from the top down to (and including) a collection. -/
def collectionPath (tree : Server.Tree) (collectionId : Option Uuid) : List TreeCollection :=
  walk (·.id) (·.parentId) tree.collections collectionId

/-- The login profiles a device in `folderId` may use: those in that folder, in one above it, or at the
top level. -/
def profilesWithin (tree : Server.Tree) (folderId : Uuid) : List TreeProfile :=
  let above := (pathTo tree (some folderId)).map (·.id)
  tree.profiles.filter fun p => p.folderId.all (· ∈ above)

/-- The site connector a folder passes on to what is in it: its own, or the nearest one above it. -/
def folderConnector (tree : Server.Tree) (folderId : Option Uuid) : Option Uuid :=
  (pathTo tree folderId).reverse.findSome? (·.connectorId)

/-- Whether `item` may go into the folder `target`, or to the top level with `none`. -/
def takes (tree : Server.Tree) (item : Dragged) (target : Option Uuid) : Bool :=
  let into := tree.folders.find? (some ·.id = target)
  match item with
  | .device id =>
    match tree.devices.find? (·.id = id), into with
    | some device, some into =>
      decide (some device.folderId ≠ target) && allows (some device.role) .edit && allows into.role .edit
    | _, _ => false
  | .folder id =>
    match tree.folders.find? (·.id = id) with
    | none => false
    | some folder =>
      if !allows folder.role .manage || folder.parentId = target then false
      else if target = none then tree.mayCreateTopLevel
      else
        into.any (allows ·.role .manage) && !(pathTo tree target).any (·.id = id)

/-- `moveTo` of the page: what it asks the server for. The top level is the empty id for a device, which
is none. -/
def moveTo (db : Db) (caller : Caller) (item : Dragged) (target : Option Uuid) : Answer Db :=
  match item, target with
  | .device id, some folder => db.moveDevice caller id folder
  | .device _, none => .error (.of .invalidRequest)
  | .folder id, target => db.updateFolder caller id { parentId := some target }

end Web.Tree
