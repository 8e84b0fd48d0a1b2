import RemoteHub.Lib.Text
import RemoteHub.Lib.Admission
import Mathlib.Algebra.GroupWithZero.Nat
import Mathlib.Data.List.MinMax

/-!
# Slowing down guesses (`SignInLimiter` in `crates/server/src/auth.rs`)

The limiter counts the failures of a user name and of an address in a window that begins with the
first one. It is asked before a password goes to the directory (`sign_in`), to the hash of a
break-glass account (`sign_in_break_glass`) or to Kratos (`forward`), and before a code of the setup
goes to the database, and told of the failure when the answer is there. The attempts are here step by
step: between the question and the answer others come and go, and an attempt can be given up.

Times are in microseconds. `Window.number` tells the windows of one key apart, which the code does
not, and `Shared.rejected` has the failures that were counted, each with its window.
-/

namespace Server.SignInLimiter

def second : Int := 1000000

/-- `key_kind` of a `Limit`. -/
inductive Kind
  | user | address
  deriving DecidableEq

def Kind.text : Kind → String
  | .user => "user"
  | .address => "address"

/-- `max_failures`, of `PER_USER` and `PER_ADDRESS`. -/
def Kind.maxFailures : Kind → Nat
  | .user => 5
  | .address => 30

/-- `key`: kind and value, with a colon between them in the code. -/
structure Key where
  kind : Kind
  value : String
  deriving DecidableEq

structure Window where
  failures : Nat
  since : Int
  number : Nat
  deriving DecidableEq

/-- What the map is by: `format!("{}:{}", ...)`. -/
def Key.text (key : Key) : String := key.kind.text ++ ":" ++ key.value

/-- `lower` is `str::to_lowercase`, `window` the limiter's. -/
structure Config where
  lower : String → String
  window : Int

/-- `key`, with the limit's kind. -/
def Config.key (config : Config) (kind : Kind) (value : String) : Key :=
  ⟨kind, config.lower (Text.trim value)⟩

def Config.keys (config : Config) (keys : List (Kind × String)) : List Key :=
  keys.map fun key => config.key key.1 key.2

structure Shared where
  clock : Int
  windows : HashMap Key Window := ∅
  opened : Nat := 0
  rejected : List (Key × Nat) := []
  cancelled : List Nat := []

namespace Shared

variable (config : Config) (s : Shared)

/-- The key has used up its failures. -/
def Full (key : Key) (window : Window) : Prop :=
  s.clock - window.since < config.window ∧ key.kind.maxFailures ≤ window.failures

instance (key : Key) (window : Window) : Decidable (s.Full config key window) :=
  inferInstanceAs (Decidable (_ ∧ _))

/-- `check`: how long to wait, if any key has used up its failures. -/
def check (keys : List Key) : Option Int :=
  ((keys.filterMap fun key => (s.windows.lookup key).bind fun window =>
    if s.Full config key window then some (config.window - (s.clock - window.since)) else none).max?).map
      (max second)

/-- `retain` of the windows that are not over. -/
def retain : HashMap Key Window :=
  if 10000 < s.windows.keys.length then
    .collect (s.windows.entries.filterMap fun e =>
      if config.window ≤ s.clock - e.2.since then none else some (e.1, e.2))
  else s.windows

/-- One turn of the loop of `failed`; the failures are an `u32` and wrap. -/
def count (key : Key) : Shared :=
  match (s.windows.lookup key).filter fun window => s.clock - window.since < config.window with
  | some window =>
    { s with
      windows := s.windows.insert key { window with failures := (window.failures + 1) % 2 ^ 32 }
      rejected := s.rejected ++ [(key, window.number)] }
  | none =>
    { s with
      windows := s.windows.insert key ⟨1, s.clock, s.opened⟩
      opened := s.opened + 1
      rejected := s.rejected ++ [(key, s.opened)] }

/-- `failed`. -/
def failed (keys : List Key) : Shared :=
  keys.foldl (fun s key => s.count config key) { s with windows := s.retain config }

/-- `succeeded`. -/
def succeeded (user : String) : Shared :=
  { s with windows := s.windows.erase (config.key .user user) }

end Shared

/-! ## The limiter on its own -/

inductive Call
  | check (keys : List (Kind × String))
  | failed (keys : List (Kind × String))
  | succeeded (user : String)

/-- What a call at `clock` leaves behind. -/
def Shared.call (config : Config) (s : Shared) (clock : Int) : Call → Shared
  | .check _ => { s with clock }
  | .failed keys => { s with clock }.failed config (config.keys keys)
  | .succeeded user => { s with clock }.succeeded config user

/-- The limiter that was made at `start`, after calls, each with its time. -/
def after (config : Config) (start : Int) (calls : List (Int × Call)) : Shared :=
  calls.foldl (fun s call => s.call config call.1 call.2) { clock := start }

/-! ## Attempts -/

/-- What the second step of a sign-in says. -/
inductive Second
  /-- `failed`: a wrong code. -/
  | refused (failed : Bool)
  | passed
  deriving DecidableEq

/-- What the directory, the hash or Kratos will say. -/
inductive Verdict
  | rejected
  | unavailable
  | right (second : Second)
  deriving DecidableEq

/-- An attempt; Kratos and the setup count for the address only. -/
structure Attempt where
  user : Option String
  address : String
  verdict : Verdict
  deriving DecidableEq

def Attempt.keys (config : Config) (a : Attempt) : List Key :=
  (a.user.map (config.key .user)).toList ++ [config.key .address a.address]

/-- How far an attempt is. -/
inductive Flight
  /-- `check` comes next. -/
  | signIn (a : Attempt)
  /-- The password is being verified. -/
  | checked (a : Attempt)
  /-- It was right; the second step comes next. -/
  | identified (a : Attempt) (second : Second)
  deriving DecidableEq

namespace Flight

def isNew : Flight → Bool
  | .signIn _ => true
  | _ => false

/-- The attempt has passed `check` and is not over. -/
def holds (config : Config) : Flight → Key → Bool
  | .signIn _, _ => false
  | .checked a, key | .identified a _, key => key ∈ a.keys config

/-- The next step of attempt `k`. -/
def next (config : Config) (k : Nat) (s : Shared) (f : Flight) : Option (Shared × Option Flight) :=
  if k ∈ s.cancelled then some (s, none)
  else
    match f with
    | .signIn a =>
      match s.check config (a.keys config) with
      | some _ => some (s, none)
      | none => some (s, some (.checked a))
    | .checked a =>
      match a.verdict with
      | .rejected => some (s.failed config (a.keys config), none)
      | .unavailable => some (s, none)
      | .right second => some (s, some (.identified a second))
    | .identified a second =>
      match second with
      | .refused failed =>
        some (if failed then s.failed config (a.keys config) else s, none)
      | .passed => some ((a.user.map (s.succeeded config)).getD s, none)

end Flight

inductive Outside
  | tick (clock : Int)
  /-- The client hangs up, and the request is dropped. -/
  | cancel (k : Nat)

def Shared.outside (s : Shared) : Outside → Option Shared
  | .tick clock => if s.clock ≤ clock then some { s with clock } else none
  | .cancel k => some { s with cancelled := k :: s.cancelled }

def system (config : Config) : Interleave.System Shared Flight Outside where
  starts := Flight.isNew
  next := Flight.next config
  outside := Shared.outside

end Server.SignInLimiter
