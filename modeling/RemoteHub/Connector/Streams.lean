import RemoteHub.Connector.Agent
import RemoteHub.Lib.Interleave

/-!
# Connections and closings (`crates/connector/src/agent.rs`)

A stream task checks the access, connects, opens its socket to remotehub, registers and carries the
connection until an end comes. `supervise` waits until something is open and then runs `while_open`,
which goes through the connections after every change of the access and whenever something runs out;
when nothing is open it returns and ends all of them.

The stream tasks are the flights, `supervise` is `Shared.sweep`. `Shared.version` counts what the gate
has sent. `Shared.listed` has the snapshot and the time of the last list of connections that `while_open`
took, `Shared.swept` the last snapshot whose connections it has gone through, and `Shared.stale` the
connections that registered after it with an older snapshot.
-/

namespace Connector.Streams

open Model Net

/-- A `child_token`, a new one for each stream task. -/
structure Token where
  task : Nat
  number : Nat
  /-- The turn of `supervise` whose token it is a child of. -/
  generation : Nat
  deriving DecidableEq

/-- A connection the connector carries. -/
structure Running where
  since : OffsetDateTime
  reached : Reached
  ends : Token
  deriving DecidableEq

/-- What a turn of `while_open` has seen. -/
structure Turn where
  generation : Nat
  /-- The version of `snapshot`. -/
  seen : Nat
  snapshot : Snapshot

/-- How far `supervise` is. -/
inductive Sweep
  | untilOpen
  | whileOpen (generation : Nat)
  | took (turn : Turn)
  /-- Something is open at `now`. -/
  | judged (turn : Turn) (now : OffsetDateTime)
  | sweeping (turn : Turn) (now : OffsetDateTime) (rest : List Running)
  /-- Whether the access permits `running` is known. -/
  | checked (turn : Turn) (now : OffsetDateTime) (running : Running) (stays : Bool)
    (rest : List Running)
  | waits (turn : Turn) (now : OffsetDateTime)

def Sweep.generation : Sweep → Option Nat
  | .untilOpen => none
  | .whileOpen generation => some generation
  | .took turn | .judged turn _ | .sweeping turn _ _ | .checked turn _ _ _ _ | .waits turn _ =>
    some turn.generation

structure Shared where
  clock : OffsetDateTime
  /-- What the gate has sent last, and how often it has sent. -/
  snapshot : Snapshot
  version : Nat := 0
  connections : HashMap Uuid Running := ∅
  /-- The tokens cancelled on their own, and the turns of `supervise` that are over. -/
  cancelled : List Token := []
  ended : List Nat := []
  /-- How many tokens and turns there have been. -/
  tokens : Nat := 0
  generations : Nat := 0
  sweep : Sweep := .untilOpen
  failing : List Nat := []
  listed : Option (Nat × OffsetDateTime) := none
  swept : Option Nat := none
  stale : List Uuid := []

/-- `is_cancelled`. -/
def Shared.told (s : Shared) (token : Token) : Bool :=
  token ∈ s.cancelled || token.generation ∈ s.ended

/-- `Connections::list`, oldest first. -/
def Shared.list (s : Shared) : List Running :=
  (s.connections.entries.map (·.2)).insertionSort fun a b => a.since.nanos ≤ b.since.nanos

/-- The next step of `supervise`; `none` while it waits. -/
def Shared.supervise (names : Names) (s : Shared) : Option Shared :=
  match s.sweep with
  | .untilOpen =>
    if s.snapshot.anyOpen s.clock then
      some { s with sweep := .whileOpen s.generations, generations := s.generations + 1 }
    else none
  | .whileOpen generation => some { s with sweep := .took ⟨generation, s.version, s.snapshot⟩ }
  | .took turn =>
    if turn.snapshot.anyOpen s.clock then some { s with sweep := .judged turn s.clock }
    else some { s with sweep := .untilOpen, ended := turn.generation :: s.ended }
  | .judged turn now =>
    some { s with sweep := .sweeping turn now s.list, listed := some (turn.seen, now) }
  | .sweeping turn now [] =>
    some { s with sweep := .waits turn now, swept := some turn.seen }
  | .sweeping turn now (running :: rest) =>
    some { s with
      sweep := .checked turn now running
        (permitted names turn.snapshot running.reached s.clock) rest }
  | .checked turn now running stays rest =>
    some { s with
      sweep := .sweeping turn now rest
      cancelled := if stays then s.cancelled else running.ends :: s.cancelled }
  | .waits turn now =>
    -- a change, or the next end
    if s.version ≠ turn.seen ∨ ∃ ends ∈ turn.snapshot.nextEnd now, ends.nanos ≤ s.clock.nanos then
      some { s with sweep := .whileOpen turn.generation }
    else none

/-- A stream that has begun. -/
structure Started where
  id : Uuid
  token : Token
  /-- The access it is checked against. -/
  snapshot : Snapshot
  version : Nat
  host : String
  port : Nat
  /-- Which of the open addresses answers. -/
  answers : Nat

/-- A stream that is connected to its target. -/
structure Connected where
  id : Uuid
  token : Token
  snapshot : Snapshot
  version : Nat
  reached : Reached
  /-- Until when the check has found it open. -/
  ends : Option OffsetDateTime

/-- How far a stream task is. -/
inductive Flight
  | asked (id : Uuid) (target : String) (answers : Nat)
  | resolving (st : Started) (rest : List IpAddr) (opened : List (IpAddr × Option OffsetDateTime))
  | connecting (st : Started) (opened : List (IpAddr × Option OffsetDateTime))
  /-- The socket to remotehub is to be opened. -/
  | connected (c : Connected)
  | socketOpened (c : Connected)
  | carrying (c : Connected) (running : Running)

namespace Flight

def isNew : Flight → Bool
  | .asked .. => true
  | _ => false

end Flight

namespace Shared

variable (s : Shared)

/-- Registers the connection. -/
def register (c : Connected) : Shared × Option Flight :=
  let running : Running := { since := s.clock, reached := c.reached, ends := c.token }
  ({ s with
      connections := s.connections.insert c.id running
      stale := if s.swept.any (c.version < ·) then c.id :: s.stale else s.stale },
    some (.carrying c running))

end Shared

/-- The next step of stream task `k`. -/
def Flight.step (names : Names) (allow : List Network) (k : Nat) (s : Shared) :
    Flight → Option (Shared × Option Flight)
  | .asked id target answers =>
    -- there is a control socket only within a turn of `supervise`
    s.sweep.generation.map fun generation =>
      match hostPort target, (names.lookup target).map (allowed allow) with
      | some (host, port), some addresses =>
        let st : Started :=
          { id, host, port, answers
            token := ⟨k, s.tokens, generation⟩
            snapshot := s.snapshot
            version := s.version }
        ({ s with tokens := s.tokens + 1 }, some (.resolving st addresses []))
      | _, _ => (s, none)
  | .resolving st [] opened => some (s, some (.connecting st opened))
  | .resolving st (ip :: rest) opened =>
    let ends := openUntil names st.snapshot ⟨st.host, ip, st.port⟩ s.clock
    some (s, some (.resolving st rest (opened ++ ends.toList.map (ip, ·))))
  | .connecting st opened =>
    some (s, opened[st.answers]?.map fun (ip, ends) =>
      .connected
        { id := st.id
          token := st.token
          snapshot := st.snapshot
          version := st.version
          reached := ⟨st.host, ip, st.port⟩
          ends })
  | .connected c => some (s, some (.socketOpened c))
  | .socketOpened c => some (s.register c)
  | .carrying c _ => some ({ s with connections := s.connections.erase c.id }, none)

/-- A stream task whose step fails before it carries is over. -/
def Flight.next (names : Names) (allow : List Network) (k : Nat) (s : Shared) (f : Flight) :
    Option (Shared × Option Flight) :=
  match f with
  | .carrying .. => f.step names allow k s
  | _ =>
    if k ∈ s.failing then some ({ s with failing := s.failing.erase k }, none)
    else f.step names allow k s

inductive Outside
  | tick (clock : OffsetDateTime)
  /-- The gate sends what it has read. -/
  | send (snapshot : Snapshot)
  | supervise
  /-- The next step of stream task `k` fails. -/
  | fail (k : Nat)

def Shared.outside (names : Names) (s : Shared) : Outside → Option Shared
  | .tick clock => if s.clock.nanos ≤ clock.nanos then some { s with clock } else none
  | .send snapshot => some { s with snapshot, version := s.version + 1 }
  | .supervise => s.supervise names
  | .fail k => some { s with failing := k :: s.failing }

def system (names : Names) (allow : List Network) :
    Interleave.System Shared Flight Outside where
  starts := Flight.isNew
  next := Flight.next names allow
  outside := Shared.outside names

end Connector.Streams
