import RemoteHub.Model.Catalog
import RemoteHub.Lib.Bytes
import RemoteHub.Lib.Interleave

/-!
# Sessions and time (`crates/server/src/session.rs`)

A browser's session locks after the idle time, and a confirmation unlocks it; a session of the
browser extension ends then. Four statements know the idle time: `by_hash` reads a session, `touch`
keeps it alive at the end of a request, `Activity::input` does both for input into an open
connection and asks the database once a minute only, `purge` removes what is over.

Every statement happens at one instant of one clock, which is its `now()`. A confirmation
(`crates/server/src/api/confirm.rs`) is a transaction of several statements: its `now()` is the
instant at which it began, what it writes is there with its commit. Whether its answer is right is up
to the second factors.

Times are in microseconds.
-/

namespace Server.Sessions

open Model

def second : Int := 1000000

def minute : Int := 60 * second

/-! ## Settings (`crates/server/src/config.rs`) -/

/-- The session's times as the configuration accepts them. -/
structure SessionConfig where
  idleMinutes : Nat
  maxHours : Nat
  accepted : ¬(idleMinutes = 0 ∨ maxHours = 0 ∨ maxHours * 60 < idleMinutes)

namespace SessionConfig

variable (config : SessionConfig)

def idle : Int := config.idleMinutes * minute

def max : Int := config.maxHours * (60 * minute)

end SessionConfig

/-! ## Statements -/

/-- `sessions.client`. -/
inductive Client
  | web | extension
  deriving DecidableEq, Repr

/-- A row of `sessions`, under its `token_hash`. -/
structure SessionRow where
  userId : Uuid
  client : Client
  lastSeenAt : Int
  expiresAt : Int
  confirmedAt : Option Int := none
  confirmFailures : Int := 0
  deriving DecidableEq

/-- What a request knows of its session. -/
structure Session where
  tokenHash : Bytes
  userId : Uuid
  client : Client
  locked : Bool
  confirmed : Bool
  deriving DecidableEq

/-- `CONFIRMED_FOR`. -/
def confirmedFor : Int := 60 * second

namespace SessionRow

variable (idle now : Int) (row : SessionRow)

/-- Idle for the idle time. -/
def Locked : Prop := row.lastSeenAt ≤ now - idle

instance : Decidable (row.Locked idle now) := inferInstanceAs (Decidable (_ ≤ _))

/-- `coalesce(s.confirmed_at > now() - make_interval(secs => $3), false)`. -/
def confirmed : Bool := row.confirmedAt.any fun confirmedAt => now - confirmedFor < confirmedAt

/-- `touch`: at most one write a minute, and a locked session stays locked. -/
def touch : SessionRow :=
  if row.lastSeenAt < now - minute ∧ now - idle < row.lastSeenAt then
    { row with lastSeenAt := now }
  else row

/-- What `Activity::input` does to the row, if it does anything. -/
def input : Option SessionRow :=
  if now < row.expiresAt ∧ now - idle < row.lastSeenAt then
    some { row with lastSeenAt := if row.lastSeenAt < now - minute then now else row.lastSeenAt }
  else none

/-- `purge` removes the row. -/
def Over : Prop := row.expiresAt ≤ now ∨ row.client ≠ .web ∧ row.lastSeenAt ≤ now - idle

instance : Decidable (row.Over idle now) := inferInstanceAs (Decidable (_ ∨ _))

end SessionRow

/-- `MAX_FAILURES`. -/
def maxFailures : Int := 5

/-- What a confirmation leaves of its session: `began` is its `now()`. -/
def SessionRow.confirm (began : Int) (right : Bool) (row : SessionRow) : Option SessionRow :=
  if right then
    some { row with confirmedAt := some began, lastSeenAt := began, confirmFailures := 0 }
  else if maxFailures ≤ row.confirmFailures + 1 then none
  else some { row with confirmFailures := row.confirmFailures + 1 }

/-- Input into an open connection. -/
structure Activity where
  tokenHash : Bytes
  checked : Option Int := none
  isOpen : Bool := true
  deriving DecidableEq

/-- The last answer no longer holds: it does for a minute while the session is open, for two seconds
while it is not. -/
def Activity.Due (a : Activity) (now : Int) : Prop :=
  ∀ last ∈ a.checked, (if a.isOpen then 60 * second else 2 * second) ≤ now - last

instance (a : Activity) (now : Int) : Decidable (a.Due now) :=
  inferInstanceAs (Decidable (∀ _ ∈ _, _))

/-! ## The server -/

structure Shared where
  clock : Int
  sessions : HashMap Bytes SessionRow := ∅
  /-- Users with `blocked_at`. -/
  blocked : List Uuid := []
  /-- The hashes of the tokens given out. -/
  issued : List Bytes := []
  activities : HashMap Nat Activity := ∅
  /-- What the last query for an activity met, and when. -/
  met : HashMap Nat (Int × Option SessionRow) := ∅
  /-- When the session was last kept alive by a request or an input, or began. -/
  arrived : HashMap Bytes Int := ∅

namespace Shared

variable (idle : Int) (s : Shared)

/-- `by_hash`. -/
def byHash (hash : Bytes) : Option Session :=
  (s.sessions.lookup hash).bind fun row =>
    if row.userId ∉ s.blocked ∧ s.clock < row.expiresAt ∧
        (row.client = .web ∨ s.clock - idle < row.lastSeenAt) then
      some { tokenHash := hash, userId := row.userId, client := row.client,
             locked := row.Locked idle s.clock, confirmed := row.confirmed s.clock }
    else none

/-- `touch`, by a request. -/
def touch (hash : Bytes) : Shared :=
  { s with
    sessions := s.sessions.modify hash (·.touch idle s.clock)
    arrived := s.arrived.insert hash s.clock }

/-- The query of `Activity::input`: the session it is for, as it found it and as it leaves it. -/
def query (hash : Bytes) : Option SessionRow :=
  (s.sessions.lookup hash).bind (·.input idle s.clock)

/-- `Activity::input`. An error of the database leaves the last answer. -/
def input (k : Nat) (reachable : Bool) (a : Activity) : Shared :=
  let s := { s with arrived := s.arrived.insert a.tokenHash s.clock }
  if ¬a.Due s.clock then s
  else if ¬reachable then
    { s with activities := s.activities.insert k { a with checked := some s.clock } }
  else
    let s := { s with met := s.met.insert k (s.clock, s.sessions.lookup a.tokenHash) }
    match s.query idle a.tokenHash with
    | some row =>
      { s with
        sessions := s.sessions.insert a.tokenHash row
        activities := s.activities.insert k { a with checked := some s.clock, isOpen := true } }
    | none =>
      { s with
        activities := s.activities.insert k { a with checked := some s.clock, isOpen := false } }

/-- `purge`. -/
def purge : Shared :=
  { s with
    sessions := .collect (s.sessions.entries.filterMap fun e =>
      if e.2.Over idle s.clock then none else some (e.1, e.2)) }

/-- `DELETE FROM sessions WHERE user_id = $1`. -/
def endSessions (user : Uuid) : Shared :=
  { s with
    sessions := .collect (s.sessions.entries.filterMap fun e =>
      if e.2.userId = user then none else some (e.1, e.2)) }

/-- The commit of a confirmation. -/
def confirm (hash : Bytes) (began : Int) (right : Bool) : Shared :=
  match (s.sessions.lookup hash).bind (·.confirm began right) with
  | some row => { s with sessions := s.sessions.insert hash row }
  | none => { s with sessions := s.sessions.erase hash }

end Shared

/-- How far a request is. A confirmation is a request that goes on: `answer` says whether it is
right. -/
inductive Flight
  /-- `find`, which marks the session as used only with `keepAlive`. -/
  | find (hash : Bytes) (keepAlive : Bool) (answer : Option Bool)
  | touch (hash : Bytes) (answer : Option Bool)
  /-- The transaction of a confirmation begins. -/
  | start (hash : Bytes) (right : Bool)
  | commit (hash : Bytes) (right : Bool) (began : Int)

namespace Flight

def isNew : Flight → Bool
  | .find .. => true
  | _ => false

/-- A confirmation goes on, every other request is over. -/
def goOn (hash : Bytes) (answer : Option Bool) : Option Flight := answer.map (.start hash)

/-- Only a browser's session confirms (`AnySession`). -/
def next (idle : Int) (s : Shared) : Flight → Option (Shared × Option Flight)
  | .find hash keepAlive answer =>
    match s.byHash idle hash with
    | none => some (s, none)
    | some session =>
      let answer := if session.client = .web then answer else none
      if keepAlive ∧ ¬session.locked then some (s, some (.touch hash answer))
      else some (s, goOn hash answer)
  | .touch hash answer => some (s.touch idle hash, goOn hash answer)
  | .start hash right => some (s, some (.commit hash right s.clock))
  | .commit hash right began => some (s.confirm hash began right, none)

end Flight

/-- What else happens to sessions. -/
inductive Outside
  | tick (clock : Int)
  | create (hash : Bytes) (user : Uuid) (client : Client)
  | delete (hash : Bytes)
  | endSessions (user : Uuid)
  | block (user : Uuid)
  | unblock (user : Uuid)
  /-- A connection is opened, with the session of its request. -/
  | connect (k : Nat) (hash : Bytes)
  | input (k : Nat) (reachable : Bool)
  | purge

/-- Tokens are random: none is given out twice. -/
def Shared.outside (idle max : Int) (s : Shared) : Outside → Option Shared
  | .tick clock => if s.clock ≤ clock then some { s with clock } else none
  | .create hash user client =>
    if hash ∈ s.issued then none
    else
      some { s with
        sessions := s.sessions.insert hash
          { userId := user, client, lastSeenAt := s.clock, expiresAt := s.clock + max }
        issued := hash :: s.issued
        arrived := s.arrived.insert hash s.clock }
  | .delete hash => some { s with sessions := s.sessions.erase hash }
  | .endSessions user => some (s.endSessions user)
  | .block user => some { s with blocked := user :: s.blocked }
  | .unblock user => some { s with blocked := s.blocked.filter (· ≠ user) }
  | .connect k hash =>
    if k ∈ s.activities then none
    else some { s with activities := s.activities.insert k { tokenHash := hash } }
  | .input k reachable => (s.activities.lookup k).map (s.input idle k reachable)
  | .purge => some (s.purge idle)

def system (idle max : Int) : Interleave.System Shared Flight Outside where
  starts := Flight.isNew
  next _ := Flight.next idle
  outside := Shared.outside idle max

end Server.Sessions
