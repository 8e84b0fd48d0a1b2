import RemoteHub.Lib.Text
import RemoteHub.Lib.Admission

/-!
# Signing in at the connector's web interface (`sign_in` in `crates/connector/src/ui.rs`)

`ATTEMPTS` wrong passwords in a row lock a name for `LOCKED_FOR`. Whether the name is locked is asked
first, then the attempt waits for its turn at the password check, of which two run at a time, and the
failure is counted when the check is over. The attempts are here step by step, and one can be given up
at any of them.

Times are in microseconds. A round is what the limit is for: the failures of a name from the first
one to the end of the lock. `Attempts.round` numbers them, which the code does not, and
`Shared.rejected` has the failures that were counted, each with its round.
-/

namespace Connector.SignIns

def second : Int := 1000000

/-- `ATTEMPTS`. -/
def attempts : Nat := 5

/-- `LOCKED_FOR`. -/
def lockedFor : Int := 5 * 60 * second

/-- `CHECKS`. -/
def checks : Nat := 2

structure Attempts where
  failures : Nat
  last : Int
  lockedUntil : Option Int
  round : Nat
  deriving DecidableEq

structure Shared where
  clock : Int
  names : HashMap String Attempts := ∅
  /-- The turns that are left, of `checking`. -/
  turns : Nat := checks
  rounds : Nat := 0
  rejected : List (String × Nat) := []
  cancelled : List Nat := []

namespace Shared

variable (s : Shared)

/-- `locked`: how long the name stays locked, if it is. -/
def locked (name : String) : Option Int :=
  ((s.names.lookup name).bind (·.lockedUntil)).bind fun ends =>
    if s.clock ≤ ends then some (ends - s.clock) else none

/-- The names that somebody tried a while ago at most, or that are locked. -/
def retain : HashMap String Attempts :=
  .collect (s.names.entries.filterMap fun e =>
    if s.clock - e.2.last < lockedFor ∨ e.2.lockedUntil.any (s.clock < ·) then some (e.1, e.2)
    else none)

/-- The entry that a failure is counted in; one after the lock begins a new round. -/
def entry (name : String) : Attempts :=
  match s.retain.lookup name with
  | none => ⟨0, s.clock, none, s.rounds⟩
  | some entry =>
    if entry.failures = 0 ∧ entry.lockedUntil.any (· < s.clock) then
      { entry with round := s.rounds }
    else entry

/-- `failed`. -/
def failed (name : String) : Shared :=
  let entry := s.entry name
  let entry := { entry with last := s.clock, failures := entry.failures + 1 }
  { s with
    names := s.retain.insert name
      (if attempts ≤ entry.failures then
        { entry with failures := 0, lockedUntil := some (s.clock + lockedFor) }
      else entry)
    rounds := if entry.round = s.rounds then s.rounds + 1 else s.rounds
    rejected := s.rejected ++ [(name, entry.round)] }

end Shared

/-- How far an attempt is; `right` says what the check will find. -/
inductive Flight
  /-- `locked` comes next. -/
  | signIn (name : String) (right : Bool)
  /-- It waits for its turn. -/
  | waiting (name : String) (right : Bool)
  /-- The password is being verified. -/
  | verifying (name : String) (right : Bool)
  /-- Its turn is over. -/
  | checked (name : String) (right : Bool)
  deriving DecidableEq

namespace Flight

def isNew : Flight → Bool
  | .signIn .. => true
  | _ => false

/-- The attempt has passed `locked` and is not over. -/
def holds : Flight → String → Bool
  | .signIn .., _ => false
  | .waiting name' _, name | .verifying name' _, name | .checked name' _, name => name = name'

/-- The next step of attempt `k`; `none` while it waits. -/
def next (k : Nat) (s : Shared) (f : Flight) : Option (Shared × Option Flight) :=
  if k ∈ s.cancelled then
    match f with
    | .verifying .. => some ({ s with turns := s.turns + 1 }, none)
    | _ => some (s, none)
  else
    match f with
    | .signIn name right =>
      let name := Text.trim name
      if (s.locked name).isSome then some (s, none) else some (s, some (.waiting name right))
    | .waiting name right =>
      if s.turns = 0 then none
      else some ({ s with turns := s.turns - 1 }, some (.verifying name right))
    | .verifying name right =>
      some ({ s with turns := s.turns + 1 }, some (.checked name right))
    | .checked name right =>
      if right then some ({ s with names := s.names.erase name }, none)
      else some (s.failed name, none)

end Flight

inductive Outside
  | tick (clock : Int)
  /-- The client hangs up, and the request is dropped. -/
  | cancel (k : Nat)

def Shared.outside (s : Shared) : Outside → Option Shared
  | .tick clock => if s.clock ≤ clock then some { s with clock } else none
  | .cancel k => some { s with cancelled := k :: s.cancelled }

def system : Interleave.System Shared Flight Outside where
  starts := Flight.isNew
  next := Flight.next
  outside := Shared.outside

end Connector.SignIns
