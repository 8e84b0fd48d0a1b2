import RemoteHub.Lib.Interleave
import RemoteHub.Model.Catalog

/-!
# The connectors that are online (`crates/server/src/connectors.rs`)

A registration marks its connector online until it is dropped. A call of `stream` or `check` leaves an
entry under a new id, asks the connector and waits for the answer under that id; `claim`, `fail` and
`checked` take the entry out. The engine's connection that a stream serves is counted while it is
carried.

Every lock is one step. A control socket's queue is that of its registration's generation, and a
`oneshot` channel is known by the id of the call that waits for it (`Shared.replies`). `random_id` gives
an id that it has not given before (`Shared.asked` has those it gave). Text and time of an answer are
passed on. `effective` to `returned` only record: the generation inserted last, the registrations that
were dropped, who registered them, who took an entry out, who answered what, and the calls that returned.
-/

namespace Server.Hub

open Model

inductive ConnectorError
  | offline
  | timeout
  | refused (reason : String)
  /-- The customer opened other devices, not this one. -/
  | notOpen
  deriving DecidableEq

/-- Who a stream is for. -/
structure Requester where
  user : String
  device : String
  deriving DecidableEq

inductive Control
  | opens (id : Uuid) (target : String) (whom : Option Requester)
  | check (id : Uuid) (target : String)
  deriving DecidableEq

def Control.id : Control → Uuid
  | .opens id _ _ | .check id _ => id

/-- What goes through a `oneshot` channel. -/
inductive Answer
  | socket
  | failed (error : ConnectorError)
  | checked (isOpen : Bool) (ends : Option String)
  deriving DecidableEq

/-- A `oneshot` channel whose sender is gone. -/
inductive Reply
  | sent (answer : Answer)
  | dropped
  deriving DecidableEq

/-- What a call returns. -/
def Reply.result : Reply → Except ConnectorError Answer
  | .sent (.failed error) => .error error
  | .sent answer => .ok answer
  | .dropped => .error .offline

inductive Kind
  | stream (whom : Option Requester)
  | check
  deriving DecidableEq

/-- A call of `stream` or `check`, with the id it draws. -/
structure Call where
  kind : Kind
  connector : Uuid
  target : String
  id : Uuid
  deriving DecidableEq

def Call.control (call : Call) : Control :=
  match call.kind with
  | .stream whom => .opens call.id call.target whom
  | .check => .check call.id call.target

structure Shared where
  online : HashMap Uuid Nat := ∅
  pending : HashMap Uuid Uuid := ∅
  generation : Nat := 0
  carrying : HashMap Uuid Nat := ∅
  carried : HashMap Uuid Nat := ∅
  checks : HashMap Uuid Uuid := ∅
  /-- What waits in the control sockets' queues, and the queues whose receiver is gone. -/
  queues : HashMap Nat (List Control) := ∅
  closed : List Nat := []
  replies : HashMap Uuid Reply := ∅
  /-- The calls whose time is over, and those that were dropped. -/
  late : List Nat := []
  cancelled : List Nat := []
  asked : HashMap Uuid Call := ∅
  effective : HashMap Uuid Nat := ∅
  dropped : List Nat := []
  owners : HashMap Nat (Nat × Uuid) := ∅
  claimers : HashMap Uuid Nat := ∅
  answers : List (Uuid × Uuid) := []
  returned : List Uuid := []

inductive Flight
  /-- `register`. -/
  | registers (connector : Uuid)
  | numbered (connector : Uuid) (generation : Nat)
  | registered (connector : Uuid) (generation : Nat)
  /-- The registration is dropped, the receiver is not. -/
  | closing (generation : Nat)
  /-- `stream` and `check`. -/
  | calls (call : Call)
  | found (call : Call) (generation : Nat)
  | inserted (call : Call) (generation : Nat)
  | waits (call : Call)
  | removing (call : Call) (result : Except ConnectorError Answer)
  /-- A stream that is carried, and counted from its first step on. -/
  | counts (connector : Uuid)
  | counted (connector : Uuid)
  | carrying (connector : Uuid)
  /-- A connector opens the socket of stream `id`, or fails to. -/
  | claims (connector id : Uuid)
  | fails (connector id : Uuid) (reason : String) (notOpen : Bool)
  | claimed (connector id : Uuid) (answer : Answer)
  /-- `checked`. -/
  | checked (connector id : Uuid) (isOpen : Bool) (ends : Option String)

namespace Flight

def isNew : Flight → Bool
  | .registers _ | .calls _ | .claims .. | .fails .. | .checked .. => true
  | _ => false

end Flight

namespace Shared

variable (s : Shared)

def isOnline (connector : Uuid) : Bool := (s.online.lookup connector).isSome

/-- How many connections the connector carries now. -/
def streams (connector : Uuid) : Nat := (s.carrying.lookup connector).getD 0

/-- The entry of a call. -/
def insert (call : Call) : Shared :=
  let s := { s with asked := s.asked.insert call.id call }
  match call.kind with
  | .stream _ => { s with pending := s.pending.insert call.id call.connector }
  | .check => { s with checks := s.checks.insert call.id call.connector }

def remove (call : Call) : Shared :=
  let s := { s with returned := call.id :: s.returned }
  match call.kind with
  | .stream _ => { s with pending := s.pending.erase call.id }
  | .check => { s with checks := s.checks.erase call.id }

/-- `reply.send`. -/
def send (connector id : Uuid) (answer : Answer) : Shared :=
  { s with
    replies := s.replies.insert id (.sent answer)
    answers := s.answers ++ [(id, connector)] }

/-- The waiting request for stream `id` is taken out, if `connector` was asked for it. -/
def claim (k : Nat) (connector id : Uuid) : Option Shared :=
  if s.pending.lookup id = some connector then
    some { s with pending := s.pending.erase id, claimers := s.claimers.insert id k }
  else none

/-- The connector's answer to check `id`. -/
def checkedBy (k : Nat) (connector id : Uuid) (isOpen : Bool) (ends : Option String) : Shared :=
  if s.checks.lookup id = some connector then
    { s with checks := s.checks.erase id, claimers := s.claimers.insert id k }.send connector id
      (.checked isOpen ends)
  else s

/-- `Carrying::drop`. -/
def uncount (connector : Uuid) : Shared :=
  match s.carrying.lookup connector with
  | none => s
  | some count =>
    let count := count - 1
    { s with
      carrying :=
        if count = 0 then s.carrying.erase connector else s.carrying.insert connector count }

/-- `Registration::drop`. -/
def drop (connector : Uuid) (generation : Nat) : Shared :=
  let s := { s with dropped := generation :: s.dropped }
  if s.online.lookup connector = some generation then
    { s with online := s.online.erase connector }
  else s

/-- Room in a control socket's queue. -/
def capacity : Nat := 64

end Shared

/-- Goes on to answer with what `claim` took out, if anything. -/
def Shared.answerBy (s : Shared) (k : Nat) (connector id : Uuid) (answer : Answer) :
    Shared × Option Flight :=
  match s.claim k connector id with
  | none => (s, none)
  | some s => (s, some (.claimed connector id answer))

/-- The next step of process `k`; `none` while it waits. -/
def Flight.step (k : Nat) (s : Shared) : Flight → Option (Shared × Option Flight)
  | .registers connector =>
    let generation := s.generation
    some
      ({ s with
          generation := generation + 1
          owners := s.owners.insert generation (k, connector) },
        some (.numbered connector generation))
  | .numbered connector generation => some
      ({ s with
          online := s.online.insert connector generation
          effective := s.effective.insert connector generation },
        some (.registered connector generation))
  | .registered connector generation => some (s.drop connector generation, some (.closing generation))
  | .closing generation => some ({ s with closed := generation :: s.closed }, none)
  | .calls call => some (s, (s.online.lookup call.connector).map fun g => .found call g)
  | .found call generation =>
    if call.id ∈ s.asked then none else some (s.insert call, some (.inserted call generation))
  | .inserted call generation =>
    let queue := (s.queues.lookup generation).getD []
    if generation ∈ s.closed then some (s, some (.removing call (.error .offline)))
    else if queue.length < Shared.capacity then
      some ({ s with queues := s.queues.insert generation (queue ++ [call.control]) },
        some (.waits call))
    else none
  | .waits call =>
    match s.replies.lookup call.id with
    | some reply => some (s, some (.removing call reply.result))
    | none =>
      if k ∈ s.late then
        some ({ s with late := s.late.erase k }, some (.removing call (.error .timeout)))
      else none
  | .removing call result =>
    match call.kind, result with
    -- the engine's connection is carried over the stream
    | .stream _, .ok _ => some (s.remove call, some (.counts call.connector))
    | _, _ => some (s.remove call, none)
  | .counts connector => some
      ({ s with carrying := s.carrying.insert connector (s.streams connector + 1) },
        some (.counted connector))
  | .counted connector => some
      ({ s with
          carried := s.carried.insert connector ((s.carried.lookup connector).getD 0 + 1) },
        some (.carrying connector))
  | .carrying connector => some (s.uncount connector, none)
  | .claims connector id => some (s.answerBy k connector id .socket)
  | .fails connector id reason notOpen =>
    some (s.answerBy k connector id (.failed (if notOpen then .notOpen else .refused reason)))
  | .claimed connector id answer => some (s.send connector id answer, none)
  | .checked connector id isOpen ends => some (s.checkedBy k connector id isOpen ends, none)

/-- A process that is dropped where it waits: a call leaves its entry, a stream whose socket is not
upgraded its channel. -/
def Flight.cancel (s : Shared) : Flight → Option (Shared × Option Flight)
  | .inserted _ _ | .waits _ => some (s, none)
  | .claimed _ id .socket => some ({ s with replies := s.replies.insert id .dropped }, none)
  | _ => none

def Flight.next (k : Nat) (s : Shared) (f : Flight) : Option (Shared × Option Flight) :=
  if k ∈ s.cancelled then f.cancel { s with cancelled := s.cancelled.erase k } else f.step k s

inductive Outside
  /-- The time of call `k` is over. -/
  | timeout (k : Nat)
  /-- Process `k` is dropped. -/
  | cancel (k : Nat)
  /-- The control socket takes a message out of its queue. -/
  | forward (generation : Nat)

def Shared.outside (s : Shared) : Outside → Option Shared
  | .timeout k => some { s with late := k :: s.late }
  | .cancel k => some { s with cancelled := k :: s.cancelled }
  | .forward generation =>
    (s.queues.lookup generation).map fun queue =>
      { s with queues := s.queues.insert generation queue.tail }

def system : Interleave.System Shared Flight Outside where
  starts := Flight.isNew
  next := Flight.next
  outside := Shared.outside

end Server.Hub
