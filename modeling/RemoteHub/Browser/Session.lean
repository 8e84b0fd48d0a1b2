import RemoteHub.Browser.Protocol
import RemoteHub.Lib.Interleave

/-!
# Browser sessions (`crates/browser/src/session.rs`)

The agent serves any number of connections at once, each a process of its own (`serve`, `run`): what becomes
of the files and processes of one is interleaved with the others at every `await`. What a session meets (the
line it reads, its random password, which of its operations fail) is its `Plan`; when Xvnc and Chromium create
files or end, and when remotehub hangs up, happens outside.

A process that is killed is gone at once. The words of the log are not modelled, nor is what happens in
Chromium's page (`fill.rs`, `cdp.rs`).
-/

namespace Browser.Session

/-! ## Settings -/

/-- The agent's configuration (`crates/browser/src/main.rs`): session `n` of at most 99 gets display `n`. -/
structure Settings where
  sessions : Nat
  accepted : 1 ≤ sessions ∧ sessions ≤ 99

/-- `settings.displays`. -/
def Settings.displays (settings : Settings) : List Nat := (List.range settings.sessions).map (· + 1)

/-! ## The machine -/

/-- A display's directory below `work`. -/
structure Dir where
  /-- The password in `passwd`. -/
  passwd : Option String := none
  /-- Chromium has a profile there. -/
  profile : Bool := false
  deriving DecidableEq

/-- A running Xvnc: it listens on port 5900 + its display and takes the password in the display's directory. -/
structure Xvnc where
  display : Nat
  geometry : Nat × Nat
  deriving DecidableEq

/-- A running proxy. -/
structure Proxy where
  port : UInt16
  authority : String
  via : Option String
  deriving DecidableEq

/-- A running Chromium. -/
structure Chromium where
  display : Nat
  /-- The display whose directory holds its profile and its home. -/
  dir : Nat
  proxyPort : UInt16
  spki : String
  url : String
  languages : List String
  timezone : Option String
  /-- There was no profile when it started. -/
  fresh : Bool
  deriving DecidableEq

structure Shared where
  /-- `Displays`. -/
  used : List Nat := []
  dirs : HashMap Nat Dir := ∅
  /-- The displays with a lock file or a socket of Xvnc. -/
  sockets : List Nat := []
  /-- The processes of the sessions. -/
  xvncs : HashMap Nat Xvnc := ∅
  proxies : HashMap Nat Proxy := ∅
  chromiums : HashMap Nat Chromium := ∅
  /-- The sessions whose connection remotehub closed. -/
  hungUp : List Nat := []
  /-- What was answered on the connections that are over. -/
  answers : List (List Reply) := []
  /-- Which session has taken a display. -/
  holder : HashMap Nat Nat := ∅
  /-- The displays whose directory could not be removed at a session's end. -/
  littered : List Nat := []

/-! ## Sessions -/

/-- What can fail in `run`. -/
inductive Operation
  | workDir
  | vncpasswd
  | xvnc
  /-- The socket does not show up within `DISPLAY_TIMEOUT`. -/
  | socket
  | proxy
  | chromium
  deriving DecidableEq

/-- The outcome of `fill::fill`. -/
inductive Outcome
  | filled
  | noForm
  | pageError
  | error
  deriving DecidableEq

def Outcome.reply : Outcome → Reply
  | filled => .filled
  | noForm => .notFilled "no_form"
  | pageError => .notFilled "page_error"
  | error => .notFilled "browser"

/-- What a session meets. -/
structure Plan where
  /-- `read_open`. -/
  line : Option Open
  /-- `vnc_password`. -/
  password : String
  /-- The directory can be removed at the start. -/
  clears : Bool := true
  fails : List Operation := []
  /-- The port the proxy listens on. -/
  port : UInt16
  /-- How the sign-in goes, if it comes to an end before the session does. -/
  outcome : Option Outcome := none
  /-- The directory can be removed at the end. -/
  cleans : Bool := true
  deriving DecidableEq

/-- How far a session is that has taken a display. -/
inductive Stage
  | taken
  | cleared
  | made
  | keyed
  | unlocked
  | waiting
  | shown
  | proxied
  | started
  | ready
  | idle
  /-- `run` returned. -/
  | ended (reason : Option String)
  /-- Everything `run` had started is gone. -/
  | dropped (reason : Option String)
  | replied
  | removed
  | unlinked
  deriving DecidableEq

/-- A session's own state. -/
structure Claim where
  plan : Plan
  request : Open
  display : Nat
  sent : List Reply := []
  deriving DecidableEq

inductive Flight
  /-- Before `read_open`. -/
  | reading (plan : Plan)
  | holding (stage : Stage) (c : Claim)
  deriving DecidableEq

def Flight.isNew : Flight → Bool
  | reading _ => true
  | holding .. => false

/-- `geometry`. -/
def geometry (request : Open) : Nat × Nat :=
  (min (max request.width.toNat 640) 4096, min (max request.height.toNat 480) 4096)

def Claim.vncPort (c : Claim) : UInt16 := .ofNat (5900 + c.display)

/-- `start_chromium`. -/
def Claim.chromium (c : Claim) (fresh : Bool) : Chromium where
  display := c.display
  dir := c.display
  proxyPort := c.plan.port
  spki := c.request.spki
  url := c.request.url
  languages := languages c.request.languages
  timezone := timezone c.request.timezone
  fresh := fresh

/-- The session is over for one of the reasons that end it. -/
def Shared.Ends (s : Shared) (k : Nat) : Prop := k ∈ s.hungUp ∨ k ∉ s.chromiums ∨ k ∉ s.xvncs

instance (s : Shared) (k : Nat) : Decidable (s.Ends k) := inferInstanceAs (Decidable (_ ∨ _ ∨ _))

/-- Goes on at a stage, or ends with a reason if the operation fails. -/
def orFail (c : Claim) (operation : Operation) (reason : String) (s : Shared) (next : Shared × Stage) :
    Shared × Option Flight :=
  if operation ∈ c.plan.fails then (s, some (.holding (.ended (some reason)) c))
  else (next.1, some (.holding next.2 c))

/-- The connection of session `k` is over, with these answers. -/
def Shared.close (s : Shared) (k : Nat) (replies : List Reply) : Shared :=
  { s with answers := replies :: s.answers, hungUp := s.hungUp.filter (· ≠ k) }

/-- The next step of session `k` with a display. -/
def Claim.next (k : Nat) (s : Shared) (c : Claim) : Stage → Option (Shared × Option Flight)
  | .taken =>
    some ({ s with dirs := if c.plan.clears then s.dirs.erase c.display else s.dirs },
      some (.holding .cleared c))
  | .cleared =>
    some (orFail c .workDir "work_dir" s
      ({ s with dirs := s.dirs.insert c.display ((s.dirs.lookup c.display).getD {}) }, .made))
  | .made =>
    some (orFail c .vncpasswd "vncpasswd" s
      ({ s with dirs := s.dirs.modify c.display ({ · with passwd := some c.plan.password }) }, .keyed))
  | .keyed =>
    some ({ s with sockets := s.sockets.filter (· ≠ c.display) }, some (.holding .unlocked c))
  | .unlocked =>
    some (orFail c .xvnc "xvnc" s
      ({ s with xvncs := s.xvncs.insert k ⟨c.display, geometry c.request⟩ }, .waiting))
  | .waiting =>
    if c.display ∈ s.sockets then some (s, some (.holding .shown c))
    else if .socket ∈ c.plan.fails then some (s, some (.holding (.ended (some "xvnc")) c))
    else none
  | .shown =>
    if ∀ e ∈ s.proxies.entries, e.2.port ≠ c.plan.port then
      some (orFail c .proxy "proxy" s
        ({ s with proxies := s.proxies.insert k ⟨c.plan.port, c.request.authority, c.request.via⟩ },
          .proxied))
    else none
  | .proxied =>
    let fresh := !((s.dirs.lookup c.display).any (·.profile))
    some (orFail c .chromium "chromium" s
      ({ s with chromiums := s.chromiums.insert k (c.chromium fresh) }, .started))
  | .started =>
    let c := { c with sent := c.sent ++ [.ready c.vncPort c.plan.password] }
    some (s, some (.holding (if c.request.login.isSome then .ready else .idle) c))
  | .ready =>
    match c.plan.outcome with
    | some outcome => some (s, some (.holding .idle { c with sent := c.sent ++ [outcome.reply] }))
    | none => if s.Ends k then some (s, some (.holding (.ended none) c)) else none
  | .idle => if s.Ends k then some (s, some (.holding (.ended none) c)) else none
  | .ended reason =>
    some ({ s with xvncs := s.xvncs.erase k, proxies := s.proxies.erase k,
                   chromiums := s.chromiums.erase k }, some (.holding (.dropped reason) c))
  | .dropped reason =>
    some (s, some (.holding .replied { c with sent := c.sent ++ reason.toList.map .failed }))
  | .replied =>
    if c.plan.cleans then
      some ({ s with dirs := s.dirs.erase c.display }, some (.holding .removed c))
    else some ({ s with littered := c.display :: s.littered }, some (.holding .removed c))
  | .removed =>
    some ({ s with sockets := s.sockets.filter (· ≠ c.display) }, some (.holding .unlinked c))
  | .unlinked =>
    some ({ s.close k c.sent with
      used := s.used.filter (· ≠ c.display), holder := s.holder.erase c.display }, none)

/-- The next step of session `k`. -/
def Flight.next (settings : Settings) (k : Nat) (s : Shared) : Flight → Option (Shared × Option Flight)
  | .reading plan =>
    match plan.line.filter fun request => request.validHost && request.spki ≠ "" with
    | none => some (s.close k [.failed "invalid_request"], none)
    | some request =>
      match settings.displays.find? (· ∉ s.used) with
      | none => some (s.close k [.failed "busy"], none)
      | some n =>
        some ({ s with used := s.used ++ [n], holder := s.holder.insert n k },
          some (.holding .taken { plan, request, display := n }))
  | .holding stage c => c.next k s stage

/-- What happens outside the sessions. -/
inductive Outside
  | hangUp (k : Nat)
  | xvncListens (k : Nat)
  | xvncEnds (k : Nat)
  | chromiumWrites (k : Nat)
  | chromiumEnds (k : Nat)

def Shared.outside (s : Shared) : Outside → Option Shared
  | .hangUp k => some { s with hungUp := k :: s.hungUp }
  | .xvncListens k => (s.xvncs.lookup k).map fun x => { s with sockets := x.display :: s.sockets }
  | .xvncEnds k => some { s with xvncs := s.xvncs.erase k }
  | .chromiumWrites k =>
    (s.chromiums.lookup k).map fun x => { s with dirs := s.dirs.modify x.dir ({ · with profile := true }) }
  | .chromiumEnds k => some { s with chromiums := s.chromiums.erase k }

def system (settings : Settings) : Interleave.System Shared Flight Outside where
  starts := Flight.isNew
  next := Flight.next settings
  outside := Shared.outside

end Browser.Session
