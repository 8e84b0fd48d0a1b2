import RemoteHub.Connector.Access
import RemoteHub.Server.ConnectorRequests

/-!
# A customer's answers on their way (`crates/connector/src/{requests,ui,agent}.rs`)

The connector of one customer and remotehub. Users of the connector approve and refuse what remotehub
listed last (`approve_request`, `refuse_request`); commands of the web interface, of the command line and of
the clock change `access.json` besides. A command reads the file and writes it back, and nothing keeps
another one from doing so in between. The connector posts its answers (`report`) and takes the list in the
reply; a post can be lost, or reach remotehub more than once, and its reply can be lost. A restart forgets
the requests and the answers, ends what the web interface was doing, and leaves the file.

remotehub does what `RemoteHub.Server.ConnectorRequests` says; other connectors report to it as well. The
list of devices that a command reads comes with it and can be any. The journal is not modelled.
-/

namespace Server.CustomerAnswers

open Model
open Connector (Access AccessFile Changer CustomerRequest Inventory OffsetDateTime Pending Requests
  Scope changed approved toVec)

/-- What does not change. -/
structure Settings where
  connector : Uuid
  postgres : ConnectorRequests.Postgres
  /-- `serde_json::from_slice`. -/
  read : Bytes → Except String Pending
  /-- `format(&Rfc3339)`. -/
  format : OffsetDateTime → Option String

structure Shared where
  /-- remotehub. -/
  server : ConnectorRequests.Shared
  /-- The connector's clock. -/
  now : OffsetDateTime
  /-- `access.json`. -/
  file : AccessFile := {}
  /-- How often the connector was restarted. -/
  restarts : Nat := 0
  memory : Requests := {}
  /-- The answers of every post. -/
  posts : List (List Connector.Answer) := []
  /-- The post whose reply the connector waits for. -/
  awaited : Option Nat := none
  /-- remotehub's replies, with the number of their post. -/
  replies : List (Nat × Pending) := []
  givenUp : List Nat := []

/-! ## The connector's commands -/

/-- A change of `access.json` besides approvals. -/
inductive Edit
  | change (scope : Scope) (access : Access) (who : Changer)
  | removeDevice (name : String)
  | removeGroup (name : String)

namespace Edit

/-- An approved request only closes. -/
def allowed : Edit → Bool
  | .change (.request _) access _ => access = .closed
  | _ => true

/-- The file that is written. -/
def apply (list : Inventory) (now : OffsetDateTime) (file : AccessFile) : Edit → Option AccessFile
  | .change scope access who => (changed list file scope access who now).toOption
  | .removeDevice name => some { file with devices := file.devices.erase name }
  | .removeGroup name => some { file with groups := file.groups.erase name }

end Edit

/-- When an approval given at `now` ends. -/
def ends (request : CustomerRequest) (now : OffsetDateTime) : OffsetDateTime :=
  Connector.seconds { now with nanos := now.nanos + request.minutes * 60000000000 }

/-- How far a click in the web interface is. -/
inductive Click
  | approve (user : String) (id : Uuid)
  /-- The request waits. -/
  | approving (user : String) (request : CustomerRequest)
  /-- The file is read: it is written next. -/
  | opening (user : String) (request : CustomerRequest) (now : OffsetDateTime) (file : AccessFile)
  /-- The grant is stored: the answer is recorded next. -/
  | opened (answer : Connector.Answer)
  | refuse (user : String) (id : Uuid)
  | refusing (user : String) (request : CustomerRequest)

/-- How far a process is. -/
inductive Flight
  /-- A call of remotehub: of its users, or the report of another connector. -/
  | call (f : ConnectorRequests.Flight)
  /-- The post with this number reaches remotehub. -/
  | arrives (post : Nat)
  | report (post : Nat) (f : ConnectorRequests.Flight)
  /-- A click in the web interface, since the connector was restarted so often. -/
  | click (restarts : Nat) (c : Click)
  | edit (list : Inventory) (e : Edit)
  /-- The file is read: this one is written next. -/
  | saving (file : AccessFile)

/-- A report of `connector`. -/
def reports (connector : Uuid) : ConnectorRequests.Flight → Bool
  | .report reporter _ => reporter = connector
  | _ => false

def Flight.isNew (connector : Uuid) : Flight → Bool
  | .call f => f.isNew && !reports connector f
  | .arrives _ | .click _ (.approve ..) | .click _ (.refuse ..) => true
  | .edit _ e => e.allowed
  | _ => false

namespace Shared

variable (s : Shared)

def close : Option (Shared × Option Flight) := some (s, none)

def goOn (f : Flight) : Option (Shared × Option Flight) := some (s, some f)

end Shared

/-- The next step of a click. -/
def Click.next (env : Settings) (s : Shared) : Click → Option (Shared × Option Flight)
  | .approve user id =>
    match s.memory.get id with
    | some request => s.goOn (.click s.restarts (.approving user request))
    | none => s.close
  | .approving user request => s.goOn (.click s.restarts (.opening user request s.now s.file))
  | .opening user request now file =>
    { s with file := approved file request (ends request now) (.web user) now }.goOn
      (.click s.restarts (.opened
        { id := request.id, approved := true, answerer := user, ends := env.format (ends request now) }))
  | .opened answer => { s with memory := s.memory.answer answer }.close
  | .refuse user id =>
    match s.memory.get id with
    | some request => s.goOn (.click s.restarts (.refusing user request))
    | none => s.close
  | .refusing user request =>
    { s with
      memory := s.memory.answer { id := request.id, approved := false, answerer := user, ends := none } }.close

/-- The next step of process `k`; a restart ends clicks, and a write that fails ends what writes. -/
def Flight.next (env : Settings) (k : Nat) (s : Shared) : Flight → Option (Shared × Option Flight)
  | .call f =>
    (f.next env.postgres k s.server).map fun r => ({ s with server := r.1 }, r.2.map .call)
  | .arrives post =>
    match s.posts[post]? with
    | some answers => s.goOn (.report post (.report env.connector answers))
    | none => s.close
  | .report post (.report connector []) =>
    let rows := env.postgres.scan k s.server.tables.requests
    { s with replies := (post, ConnectorRequests.pending rows connector s.server.clock) :: s.replies }.close
  | .report post f =>
    (f.next env.postgres k s.server).map fun r => ({ s with server := r.1 }, r.2.map (.report post))
  | .click restarts c => if restarts = s.restarts ∧ k ∉ s.givenUp then c.next env s else s.close
  | .edit list e =>
    match e.apply list s.now s.file with
    | some file => s.goOn (.saving file)
    | none => s.close
  | .saving file => if k ∈ s.givenUp then s.close else { s with file }.close

inductive Outside
  | server (e : ConnectorRequests.Outside)
  | tick (now : OffsetDateTime)
  /-- A write of a process is going to fail. -/
  | giveUp (k : Nat)
  | post
  /-- The connector gets the reply it waits for. -/
  | take (pending : Pending)
  | restart

def Shared.outside (env : Settings) (s : Shared) : Outside → Option Shared
  | .server e => (s.server.outside e).map fun server => { s with server }
  | .tick now => if s.now.nanos ≤ now.nanos then some { s with now } else none
  | .giveUp k => some { s with givenUp := k :: s.givenUp }
  | .post => some { s with posts := s.posts ++ [s.memory.answers], awaited := some s.posts.length }
  | .take pending =>
    if s.awaited.any fun post => (post, pending) ∈ s.replies then
      match Connector.parse env.read (toVec pending) with
      | .ok requests => some { s with memory := (s.memory.listed requests).2, awaited := none }
      | .error _ => some { s with awaited := none }
    else none
  | .restart => some { s with memory := {}, awaited := none, restarts := s.restarts + 1 }

def system (env : Settings) : Interleave.System Shared Flight Outside where
  starts := Flight.isNew env.connector
  next := Flight.next env
  outside := Shared.outside env

end Server.CustomerAnswers
