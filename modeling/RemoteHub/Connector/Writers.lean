import RemoteHub.Connector.Access
import RemoteHub.Lib.Interleave

/-!
# Several writers of the connector's files (`crates/connector/src/access.rs`)

The handlers of the web interface, the command line's own process and the running connector, which
closes what ran out (`Gate::follow`), call the functions of `RemoteHub.Connector.Access` at the same
time. Here they go step by step: a call loads the files one after the other, writes what it makes of
them beside a file (`access.json.new`, `inventory.json.new`: the same name for every writer) and renames
it. A rename finds what was written last under that name, and finds it whole. Any step can fail and
ends the call.

`Shared.shut` has the scopes that a call has closed, removed or added and that none has opened since;
`Shared.early` those that the expiry has closed while they were open.
-/

namespace Connector.Writers

open Model

structure Shared where
  clock : OffsetDateTime
  files : Files := {}
  /-- `access.json.new`. -/
  newAccess : Option AccessFile := none
  /-- `inventory.json.new`. -/
  newInventory : Option Inventory := none
  /-- What the running connector decides by. -/
  gate : Snapshot := {}
  failing : List Nat := []
  shut : List Scope := []
  early : List Scope := []

/-- What a call makes of the access file. -/
def accessOf (list : Inventory) (file : AccessFile) (now : OffsetDateTime) :
    Call → Except InventoryError AccessFile
  | .change scope access who => changed list file scope access who now
  | .approve request ends who => .ok (approved file request ends who now)
  | .removeDevice name => .ok { file with devices := file.devices.erase name }
  | .removeGroup name => .ok { file with groups := file.groups.erase name }
  | .addDevice _ | .addGroup _ => .ok file

/-- What a call makes of the list. -/
def inventoryOf (lower : String → String) (list : Inventory) : Call → Except InventoryError Inventory
  | .addDevice device => list.addDevice lower device
  | .addGroup name => validName name >>= list.addGroup lower
  | .removeDevice name => list.removeDevice name
  | .removeGroup name => list.removeGroup name
  | .change .. | .approve .. => .ok list

/-- Whether a call writes the access file. -/
def writesAccess : Call → Bool
  | .addDevice _ | .addGroup _ => false
  | _ => true

/-- Whether a call reads and writes the list. -/
def writesInventory : Call → Bool
  | .change .. | .approve .. => false
  | _ => true

/-- The scope of what a call adds or removes. -/
def membership : Call → Option Scope
  | .addDevice device => some (.device device.name)
  | .removeDevice name => some (.device name)
  | .addGroup name => (validName name).toOption.map .group
  | .removeGroup name => some (.group name)
  | .change .. | .approve .. => none

/-- A call under way. -/
structure Task where
  call : Call
  /-- `gate.reload()` comes after it. -/
  reloads : Bool
  /-- For the expiry: what it found ran out of the scope, and the scopes to close after it. -/
  expiry : Option (Stored × List (Scope × Stored)) := none

/-- How far a writer is. -/
inductive Flight
  | begins (t : Task)
  /-- The list is loaded. -/
  | listed (t : Task) (list : Inventory)
  /-- The access is loaded. -/
  | loaded (t : Task) (list : Inventory) (file : AccessFile)
  /-- `access.json.new` is written; the rename comes next. -/
  | accessWritten (t : Task) (list : Inventory) (loaded file : AccessFile)
  /-- The access is saved, or not to be written. -/
  | accessSaved (t : Task) (list : Inventory)
  /-- `inventory.json.new` is written; the rename comes next. -/
  | listWritten (t : Task) (loaded list : Inventory)
  | saved (t : Task)
  /-- `reload`, and the scopes that the expiry closes after it. -/
  | reload (expiry : Option (List (Scope × Stored)))
  | reloading (expiry : Option (List (Scope × Stored))) (access : AccessFile)
  /-- A turn of `follow`. -/
  | follow
  | following (access : AccessFile)
  | judging
  | expiring (scopes : List (Scope × Stored))

namespace Flight

def isNew : Flight → Bool
  | .begins t => t.expiry.isNone
  | .reload expiry => expiry.isNone
  | .follow => true
  | _ => false

end Flight

namespace Shared

variable (s : Shared)

/-- The call is over; the expiry goes on with the next scope. -/
def finish (t : Task) : Shared × Option Flight := (s, t.expiry.map fun e => .expiring e.2)

/-- What `shut` is after the access file of the call is in place. -/
def shutBy (call : Call) : List Scope :=
  match call with
  | .change scope .closed _ => scope :: s.shut
  | .change scope (.opened _) _ => s.shut.filter (· ≠ scope)
  | .approve request .. => s.shut.filter (· ≠ .request request.id)
  | _ => s.shut

/-- What `early` is after it. -/
def earlyBy (t : Task) : List Scope :=
  match t.expiry, t.call with
  | some _, .change scope .. =>
    if (s.files.access.get scope).access.isOpen s.clock then scope :: s.early else s.early
  | _, _ => s.early

/-- `rename` of `access.json.new`. -/
def renameAccess (t : Task) : Option Shared :=
  s.newAccess.map fun access =>
    { s with
      files := { s.files with access }
      newAccess := none
      shut := s.shutBy t.call
      early := s.earlyBy t }

/-- `rename` of `inventory.json.new`. -/
def renameInventory (t : Task) : Option Shared :=
  s.newInventory.map fun inventory =>
    { s with
      files := { s.files with inventory }
      newInventory := none
      shut := (membership t.call).toList ++ s.shut }

end Shared

/-- The next step of writer `k`. -/
def Flight.step (lower : String → String) (s : Shared) : Flight → Shared × Option Flight
  | .begins t =>
    match t.call with
    | .approve .. => (s, some (.loaded t {} s.files.access))
    | _ => (s, some (.listed t s.files.inventory))
  | .listed t list =>
    match inventoryOf lower list t.call with
    | .error _ => s.finish t
    | .ok _ =>
      if writesAccess t.call then (s, some (.loaded t list s.files.access))
      else (s, some (.accessSaved t list))
  | .loaded t list file =>
    match accessOf list file s.clock t.call with
    | .error _ => s.finish t
    | .ok access => ({ s with newAccess := some access }, some (.accessWritten t list file access))
  | .accessWritten t list _ _ =>
    match s.renameAccess t with
    | none => s.finish t
    | some s => (s, some (if writesInventory t.call then .accessSaved t list else .saved t))
  | .accessSaved t list =>
    match inventoryOf lower list t.call with
    | .error _ => s.finish t
    | .ok inventory =>
      ({ s with newInventory := some inventory }, some (.listWritten t list inventory))
  | .listWritten t _ _ =>
    match s.renameInventory t with
    | none => s.finish t
    | some s => (s, some (.saved t))
  | .saved t => if t.reloads then (s, some (.reload (t.expiry.map (·.2)))) else s.finish t
  | .reload expiry => (s, some (.reloading expiry s.files.access))
  | .reloading expiry access =>
    ({ s with gate := ⟨access, s.files.inventory⟩ }, expiry.map .expiring)
  | .follow => (s, some (.following s.files.access))
  | .following access => ({ s with gate := ⟨access, s.files.inventory⟩ }, some .judging)
  | .judging =>
    (s, some (.expiring ((s.gate.ranOut s.clock).map fun scope => (scope, s.gate.access.get scope))))
  | .expiring [] => (s, none)
  | .expiring ((scope, stored) :: rest) =>
    (s, some (.begins
      { call := .change scope .closed .expiry, reloads := true, expiry := some (stored, rest) }))

/-- A writer whose step fails. -/
def Flight.fail (s : Shared) : Flight → Shared × Option Flight
  | .begins t | .listed t _ | .loaded t _ _ | .accessWritten t _ _ _ | .accessSaved t _
  | .listWritten t _ _ | .saved t => s.finish t
  | .reload expiry | .reloading expiry _ => (s, expiry.map .expiring)
  | .follow | .following _ | .judging | .expiring _ => (s, none)

def Flight.next (lower : String → String) (k : Nat) (s : Shared) (f : Flight) :
    Option (Shared × Option Flight) :=
  if k ∈ s.failing then some (f.fail { s with failing := s.failing.erase k })
  else some (f.step lower s)

inductive Outside
  | tick (clock : OffsetDateTime)
  /-- The next step of writer `k` fails. -/
  | fail (k : Nat)

def Shared.outside (s : Shared) : Outside → Option Shared
  | .tick clock => if s.clock.nanos ≤ clock.nanos then some { s with clock } else none
  | .fail k => some { s with failing := k :: s.failing }

def system (lower : String → String) : Interleave.System Shared Flight Outside where
  starts := Flight.isNew
  next := Flight.next lower
  outside := Shared.outside

end Connector.Writers
