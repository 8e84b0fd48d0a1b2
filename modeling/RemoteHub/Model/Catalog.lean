import RemoteHub.Lib.Chain
import RemoteHub.Lib.HashMap
import Mathlib.Order.Basic

/-!
# The permission model (`crates/model/src/lib.rs`)

Objects live in two trees: folders contain folders, devices and login profiles; collections contain
collections and shared credentials. A grant gives a principal a role on one object and holds for
everything below it. `Catalog.new` loads the rows of the database, `Catalog.effectiveRole` decides
and `Catalog.visible` lists what a subject sees.

The rows may form a loop or name a container that has no row of its own: nothing here assumes a
tree. `Catalog.path` runs the source's loop with `Catalog.rounds` rounds, which always suffice
(`Model.Catalog.walk_rounds`).
-/

namespace Model

/-- `uuid::Uuid`. -/
abbrev Uuid := BitVec 128

/-- A condition on an optional id is decided at the id, not by trying all bit vectors. -/
instance (priority := 2000) {p : Uuid → Prop} [DecidablePred p] (o : Option Uuid) :
    Decidable (∃ id ∈ o, p id) :=
  Option.decidableExistsMem o

instance (priority := 2000) decidableMemUuid (id : Uuid) (ids : List Uuid) : Decidable (id ∈ ids) :=
  inferInstance

/-- What a grant allows, from least to most. -/
inductive Role
  | list | connect | reveal | edit | manage
  deriving DecidableEq, Repr

namespace Role

/-- The order of declaration (`derive(PartialOrd, Ord)`). -/
instance : LinearOrder Role :=
  LinearOrder.lift' Role.ctorIdx fun a b h => by cases a <;> cases b <;> first | rfl | cases h

def all : List Role := [.list, .connect, .reveal, .edit, .manage]

def asStr : Role → String
  | .list => "list"
  | .connect => "connect"
  | .reveal => "reveal"
  | .edit => "edit"
  | .manage => "manage"

def parse (value : String) : Option Role := all.find? (·.asStr = value)

theorem le_manage (r : Role) : r ≤ .manage := by cases r <;> decide

end Role

/-- One id space for all kinds: two objects of different kinds may have the same `Uuid`. -/
inductive ObjectId
  | folder (id : Uuid)
  | device (id : Uuid)
  | credential (id : Uuid)
  | collection (id : Uuid)
  | profile (id : Uuid)
  deriving DecidableEq, Repr

/-- Who asks: all SIDs that identify them. -/
structure Subject where
  sids : Finset String
  admin : Bool

/-- A role for a principal on one object; `runsUntil` (the source's `until`) is the Unix time from
which it no longer counts, `none` for a permanent grant. -/
structure Grant where
  object : ObjectId
  principal : String
  role : Role
  runsUntil : Option Int
  deriving DecidableEq, Repr

/-- The objects of a catalog, each with what contains it. -/
structure Objects where
  folders : List (Uuid × Option Uuid) := []
  collections : List (Uuid × Option Uuid) := []
  devices : List (Uuid × Uuid) := []
  credentials : List (Uuid × Uuid) := []
  profiles : List (Uuid × Option Uuid) := []
  deriving DecidableEq

/-- Both trees and all grants. -/
structure Catalog where
  folderParent : HashMap Uuid (Option Uuid)
  collectionParent : HashMap Uuid (Option Uuid)
  deviceFolder : HashMap Uuid Uuid
  credentialCollection : HashMap Uuid Uuid
  profileFolder : HashMap Uuid (Option Uuid)
  grants : HashMap ObjectId (List (String × Role))

/-- What a subject sees: objects with a role, and containers shown only as the way to them. -/
structure Visibility where
  roles : HashMap ObjectId Role
  pathOnly : Finset Uuid
  collectionsPathOnly : Finset Uuid

/-- `until.is_some_and(|until| until <= now)`. -/
def Grant.expired (g : Grant) (now : Int) : Bool := g.runsUntil.any (· ≤ now)

namespace Catalog

/-- One round of the loop in `new`. -/
def addGrant (now : Int) (byObject : HashMap ObjectId (List (String × Role))) (g : Grant) :
    HashMap ObjectId (List (String × Role)) :=
  if g.expired now then byObject else byObject.pushAt g.object (g.principal, g.role)

def new (objects : Objects) (grants : List Grant) (now : Int) : Catalog where
  folderParent := .collect objects.folders
  collectionParent := .collect objects.collections
  deviceFolder := .collect objects.devices
  credentialCollection := .collect objects.credentials
  profileFolder := .collect objects.profiles
  grants := grants.foldl (addGrant now) ∅

def contains (c : Catalog) : ObjectId → Bool
  | .folder id => id ∈ c.folderParent
  | .collection id => id ∈ c.collectionParent
  | .device id => id ∈ c.deviceFolder
  | .credential id => id ∈ c.credentialCollection
  | .profile id => id ∈ c.profileFolder

/-- The folder or collection that contains an object. -/
def container (c : Catalog) : ObjectId → Option ObjectId
  | .folder id => (c.folderParent.lookup id).join.map .folder
  | .collection id => (c.collectionParent.lookup id).join.map .collection
  | .device id => (c.deviceFolder.lookup id).map .folder
  | .credential id => (c.credentialCollection.lookup id).map .collection
  | .profile id => (c.profileFolder.lookup id).join.map .folder

end Catalog

/-- `catalog::id`: the id, whatever the kind. -/
def ObjectId.id : ObjectId → Uuid
  | .folder id | .device id | .credential id | .collection id | .profile id => id

namespace Catalog

def parent (c : Catalog) (object : ObjectId) : Option Uuid := (c.container object).map ObjectId.id

/-- All objects, as `visible` chains the maps' keys. -/
def objects (c : Catalog) : List ObjectId :=
  c.folderParent.keys.map .folder ++ c.collectionParent.keys.map .collection ++
    c.deviceFolder.keys.map .device ++ c.credentialCollection.keys.map .credential ++
    c.profileFolder.keys.map .profile

/-- Rounds that suffice for the loop in `path`: only objects with a row have a container. -/
def rounds (c : Catalog) : Nat := c.objects.length + 1

/-- The object and every folder or collection above it, nearest first; stops at a loop. -/
def path (c : Catalog) (object : ObjectId) : List ObjectId :=
  (Chain.walk c.container c.rounds [object] ∅ (c.container object)).getD [object]

/-- Whether `folder` is `ancestor` or lies below it. -/
def isWithin (c : Catalog) (folder ancestor : Uuid) : Bool :=
  .folder ancestor ∈ c.path (.folder folder)

def isWithinCollection (c : Catalog) (collection ancestor : Uuid) : Bool :=
  .collection ancestor ∈ c.path (.collection collection)

/-- The highest role the subject holds on the object. -/
def effectiveRole (c : Catalog) (subject : Subject) (object : ObjectId) : Option Role :=
  if !c.contains object then none
  else if subject.admin then some .manage
  else
    (((c.path object).filterMap fun o => c.grants.lookup o).flatten.filter
      fun g => g.1 ∈ subject.sids).map (·.2) |>.max?

/-- The grants on the object and what is above it, nearest first. -/
def grantsAlong (c : Catalog) (object : ObjectId) : List (ObjectId × String × Role) :=
  (c.path object).flatMap fun on => ((c.grants.lookup on).getD []).map fun g => (on, g.1, g.2)

/-- The grants that give the subject a role on the object. -/
def reasons (c : Catalog) (subject : Subject) (object : ObjectId) :
    List (ObjectId × String × Role) :=
  (c.grantsAlong object).filter fun g => g.2.1 ∈ subject.sids

/-- Whether the subject holds at least `needed` on the object. -/
def authorize (c : Catalog) (subject : Subject) (needed : Role) (object : ObjectId) : Bool :=
  (c.effectiveRole subject object).any (needed ≤ ·)

def mayRequest (c : Catalog) (subject : Subject) (role : Role) (object : ObjectId) : Bool :=
  (role = .connect ∨ role = .reveal) && (c.effectiveRole subject object).any (· < role)

def mayApprove (c : Catalog) (subject : Subject) (object : ObjectId) : Bool :=
  c.authorize subject .manage object

/-- Creating outside every folder is for administrators. -/
def mayCreateTopLevel (_ : Catalog) (subject : Subject) : Bool := subject.admin

end Catalog

/-- The body of the inner loop of `visible`. -/
def Visibility.showAncestor (v : Visibility) (ancestor : ObjectId) : Visibility :=
  if ancestor ∈ v.roles then v
  else match ancestor with
    | .folder id => { v with pathOnly := insert id v.pathOnly }
    | .collection id => { v with collectionsPathOnly := insert id v.collectionsPathOnly }
    | .device _ | .credential _ | .profile _ => v

namespace Catalog

/-- `roles` in `visible`: every object with the subject's role on it. -/
def visibleRoles (c : Catalog) (subject : Subject) : HashMap ObjectId Role :=
  .collect (c.objects.filterMap fun o => (c.effectiveRole subject o).map (o, ·))

/-- Everything the subject may see, with their role, and the containers on the way. -/
def visible (c : Catalog) (subject : Subject) : Visibility :=
  (c.visibleRoles subject).keys.foldl
    (fun v object => ((c.path object).drop 1).foldl Visibility.showAncestor v)
    { roles := c.visibleRoles subject, pathOnly := ∅, collectionsPathOnly := ∅ }

end Catalog

end Model
