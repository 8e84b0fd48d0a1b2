import RemoteHub.Server.Sessions

/-!
# Confirmations at the same time (`confirm` in `crates/server/src/api/confirm.rs`)

A confirmation reads its session, checks its answer against the user's second factors in a
transaction and then writes the session's row: a right answer sets the count of wrong ones to zero,
the fifth wrong one deletes the row. The requests are here statement by statement at READ COMMITTED:
the row is locked from the `UPDATE` to the commit, others who write it wait, and what the transaction
wrote is there with its commit. It can be given up at any step. `right` says whether the answer will
be found right, whatever kind of factor it is for.

`Shared.log` has what was committed about each session in order.
-/

namespace Server.Confirmations

open Model Sessions

/-- What happened to a session. -/
inductive Commit
  /-- An attempt whose transaction began and was committed then. -/
  | attempt (right : Bool) (began committed : Int)
  /-- The session ended for another reason. -/
  | ended
  deriving DecidableEq

structure Shared where
  store : Sessions.Shared
  locks : Interleave.Locks Bytes := fun _ => none
  cancelled : List Nat := []
  log : List (Bytes × Commit) := []

/-- How far an attempt is. -/
inductive Flight
  /-- `AnySession` reads the session. -/
  | confirm (hash : Bytes) (right : Bool)
  /-- The transaction begins, and the answer is checked. -/
  | start (hash : Bytes) (right : Bool)
  /-- `UPDATE sessions` comes next. -/
  | checked (hash : Bytes) (right : Bool) (began : Int)
  /-- `before` is the row that the `UPDATE` found. -/
  | written (hash : Bytes) (right : Bool) (began : Int) (before : Option SessionRow)

namespace Flight

def isNew : Flight → Bool
  | .confirm .. => true
  | _ => false

end Flight

namespace Shared

variable (s : Shared)

/-- The request is over; its transaction has committed `s`, or failed. -/
def close (k : Nat) : Option (Shared × Option Flight) :=
  some ({ s with locks := s.locks.release k }, none)

/-- The commit of an attempt that found the row `before`. -/
def commit (hash : Bytes) (right : Bool) (began : Int) (before : Option SessionRow) : Shared :=
  let sessions :=
    match before with
    | none => s.store.sessions
    | some row =>
      match row.confirm began right with
      | some row' => s.store.sessions.insert hash row'
      | none => s.store.sessions.erase hash
  { s with
    store := { s.store with sessions }
    log := s.log ++ [(hash, .attempt right began s.store.clock)] }

end Shared

namespace Flight

/-- The next statement of request `k`; `none` while it waits. A wrong attempt that finds no row fails
(`fetch_one`), a right one has nothing to write. -/
def statement (idle : Int) (k : Nat) (s : Shared) : Flight → Option (Shared × Option Flight)
  | .confirm hash right =>
    match s.store.byHash idle hash with
    | some session =>
      if session.client = .web then some (s, some (.start hash right)) else s.close k
    | none => s.close k
  | .start hash right => some (s, some (.checked hash right s.store.clock))
  | .checked hash right began =>
    match s.store.sessions.lookup hash with
    | some row =>
      (s.locks.acquire k hash).map fun locks =>
        ({ s with locks }, some (.written hash right began (some row)))
    | none => if right then some (s, some (.written hash right began none)) else s.close k
  | .written hash right began before => (s.commit hash right began before).close k

def next (idle : Int) (k : Nat) (s : Shared) (f : Flight) : Option (Shared × Option Flight) :=
  if k ∈ s.cancelled then s.close k else f.statement idle k s

end Flight

/-- What else happens to sessions. -/
inductive Outside
  | tick (clock : Int)
  | create (hash : Bytes) (user : Uuid) (client : Client)
  /-- Any other end: signed out, run out, ended by an administrator. -/
  | delete (hash : Bytes)
  /-- A request or an input keeps the session alive. -/
  | touch (hash : Bytes)
  | block (user : Uuid)
  | unblock (user : Uuid)
  /-- A request is given up, or its transaction fails. -/
  | cancel (k : Nat)

/-- A statement that writes a locked row waits. -/
def Shared.outside (idle max : Int) (s : Shared) : Outside → Option Shared
  | .tick clock => (s.store.outside idle max (.tick clock)).map fun store => { s with store }
  | .create hash user client =>
    (s.store.outside idle max (.create hash user client)).map fun store => { s with store }
  | .delete hash =>
    if s.locks hash = none ∧ hash ∈ s.store.sessions then
      some { s with
        store := { s.store with sessions := s.store.sessions.erase hash }
        log := s.log ++ [(hash, .ended)] }
    else none
  | .touch hash =>
    if s.locks hash = none then some { s with store := s.store.touch idle hash } else none
  | .block user => (s.store.outside idle max (.block user)).map fun store => { s with store }
  | .unblock user => (s.store.outside idle max (.unblock user)).map fun store => { s with store }
  | .cancel k => some { s with cancelled := k :: s.cancelled }

def system (idle max : Int) : Interleave.System Shared Flight Outside where
  starts := Flight.isNew
  next := Flight.next idle
  outside := Shared.outside idle max

/-! ## The sequential machine -/

/-- What a session's row knows of its confirmations. -/
structure Count where
  failures : Int := 0
  confirmedAt : Option Int := none
  deriving DecidableEq

def Count.of (row : SessionRow) : Count := ⟨row.confirmFailures, row.confirmedAt⟩

/-- One attempt after the other: five wrong ones in a row end the session. -/
def Count.step : Option Count → Commit → Option Count
  | some _, .attempt true began _ => some { confirmedAt := some began }
  | some c, .attempt false _ _ =>
    if 5 ≤ c.failures + 1 then none else some { c with failures := c.failures + 1 }
  | some _, .ended | none, _ => none

/-- What was committed about one session. -/
def logOf (log : List (Bytes × Commit)) (hash : Bytes) : List Commit :=
  (log.filter (·.1 = hash)).map (·.2)

/-- The answers of the attempts. -/
def answers (log : List Commit) : List Bool :=
  log.filterMap fun
    | .attempt right .. => some right
    | .ended => none

/-- The last right attempt: when it began and when it was committed. -/
def lastRight (log : List Commit) : Option (Int × Int) :=
  log.reverse.findSome? fun
    | .attempt true began committed => some (began, committed)
    | _ => none

end Server.Confirmations
