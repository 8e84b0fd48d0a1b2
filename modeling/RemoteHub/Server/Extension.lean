import RemoteHub.Lib.Text
import RemoteHub.Server.Sessions

/-!
# Codes of the browser extension and the end of sessions

A signed-in browser asks for a code (`create_code` in `crates/server/src/api/extension.rs`), and the
extension trades it for a session of its own (`token`). An administrator ends the sessions of a user,
blocks or deletes the user (`end`, `block` and `delete` in `crates/server/src/api/users.rs`); `end` here
also stands for `recovery` and for the directory's answers, which delete the sessions alike. The
requests are here statement by statement at READ COMMITTED: a code that a transaction deletes is
locked until it ends, and what it writes is there with its commit; `now()` is the instant at which it
began. Requests can be given up at any step.

Where a session or a code comes from is the number of a sign-in (`Shared.origins`, `CodeRow.origin`),
which the database does not keep. `Shared.ended` says how many sign-ins there had been when the sessions
of a user were ended, `Shared.traded` which codes were traded, when and until when they held.
-/

namespace Server.Extension

open Model Sessions

structure Config where
  idle : Int
  max : Int
  /-- `allows_extension`. -/
  extensionIds : List String
  /-- `URL_SAFE_NO_PAD.encode(Sha256::digest(..))`. -/
  challengeOf : String → String

/-- `CODE_SECONDS`. -/
def codeLifetime : Int := 60 * second

/-- A row of `extension_codes`, under its `code_hash`. -/
structure CodeRow where
  userId : Uuid
  challenge : String
  expiresAt : Int
  origin : Nat
  deriving DecidableEq

structure Trade where
  code : Bytes
  now : Int
  expiresAt : Int
  deriving DecidableEq

structure Shared where
  store : Sessions.Shared
  codes : HashMap Bytes CodeRow := ∅
  /-- Users with `kind = 'deleted'`. -/
  deleted : List Uuid := []
  /-- The rows of `extension_codes`. -/
  locks : Interleave.Locks Bytes := fun _ => none
  cancelled : List Nat := []
  /-- The hashes of the codes given out. -/
  issued : List Bytes := []
  signIns : Nat := 0
  origins : HashMap Bytes Nat := ∅
  ended : List (Uuid × Nat) := []
  traded : List Trade := []

/-! ## Checks of the requests -/

structure NewCode where
  extensionId : String
  challenge : String
  name : String

/-- SHA-256 in base64url without padding. -/
def isChallenge (value : String) : Bool :=
  value.toList.length = 43 && value.toList.all fun c => c.isAlphanum || c = '-' || c = '_'

/-- `browser_name`. -/
def isBrowserName (value : String) : Bool :=
  let value := (Text.trim value).toList
  !(value.isEmpty || decide (100 < value.length) || value.any Text.isControl)

/-- A verifier as RFC 7636 allows it. -/
def isVerifier (value : String) : Bool :=
  43 ≤ value.toList.length && value.toList.length ≤ 128 &&
    value.toList.all fun c => c.isAlphanum || c = '-' || c = '.' || c = '_' || c = '~'

def NewCode.accepted (config : Config) (input : NewCode) : Bool :=
  input.extensionId ∈ config.extensionIds && isChallenge input.challenge && isBrowserName input.name

/-! ## Requests -/

/-- How far a request is. `hash` is that of the token of its session or of the one it will create,
`code` that of the code. -/
inductive Flight
  /-- A user was authenticated: `blocked` comes next. -/
  | signIn (user : Uuid) (hash : Bytes)
  | signing (user : Uuid) (hash : Bytes)
  /-- `create_code`, in a browser's session. -/
  | createCode (hash : Bytes) (input : NewCode) (code : Bytes)
  | issuing (user : Uuid) (origin : Nat) (challenge : String) (code : Bytes)
  /-- `token`. -/
  | token (code : Bytes) (verifier : String) (hash : Bytes)
  /-- Its transaction began at `now`: `DELETE FROM extension_codes` comes next. -/
  | exchange (code : Bytes) (verifier : String) (hash : Bytes) (now : Int)
  /-- It found the row. -/
  | deleted (code : Bytes) (row : CodeRow) (verifier : String) (hash : Bytes) (now : Int)
  /-- The session is in the transaction that is not committed yet. -/
  | allowed (code : Bytes) (row : CodeRow) (hash : Bytes) (now : Int)
  /-- `end`. -/
  | endSessions (user : Uuid)
  /-- `block`: the user first, then the sessions. -/
  | block (user : Uuid)
  /-- `delete`: the user first, then the sessions. -/
  | delete (user : Uuid)

namespace Flight

def isNew : Flight → Bool
  | .signIn .. | .createCode .. | .token .. | .endSessions .. | .block .. | .delete .. => true
  | _ => false

end Flight

namespace Shared

variable (s : Shared)

/-- The request is over; its transaction has committed `s`, or failed. -/
def close (k : Nat) : Option (Shared × Option Flight) :=
  some ({ s with locks := s.locks.release k }, none)

/-- The request goes on. -/
def goOn (f : Flight) : Option (Shared × Option Flight) := some (s, some f)

/-- The sign-in that a session comes from. -/
def originOf (hash : Bytes) : Nat := (s.origins.lookup hash).getD 0

/-- A new session; tokens are random, and none is given out twice. -/
def create (config : Config) (hash : Bytes) (user : Uuid) (client : Client) (origin : Nat) :
    Option Shared :=
  (s.store.outside config.idle config.max (.create hash user client)).map fun store =>
    { s with store, origins := s.origins.insert hash origin }

/-- The transaction commits what it did, or fails. -/
def finish (k : Nat) (done : Option Shared) : Option (Shared × Option Flight) :=
  (done.getD s).close k

end Shared

/-- The next statement of request `k`; `none` while it waits. -/
def Flight.statement (config : Config) (k : Nat) (s : Shared) :
    Flight → Option (Shared × Option Flight)
  | .signIn user hash => if user ∈ s.store.blocked then s.close k else s.goOn (.signing user hash)
  | .signing user hash =>
    s.finish k ((s.create config hash user .web s.signIns).map fun s =>
      { s with signIns := s.signIns + 1 })
  | .createCode hash input code =>
    match s.store.byHash config.idle hash with
    | none => s.close k
    | some session =>
      if session.client ≠ .web ∨ session.locked ∨ ¬input.accepted config then s.close k
      else s.goOn (.issuing session.userId (s.originOf hash) input.challenge code)
  | .issuing userId origin challenge code =>
    if code ∈ s.issued then s.close k
    else
      { s with
        codes := s.codes.insert code
          { userId, challenge, expiresAt := s.store.clock + codeLifetime, origin }
        issued := code :: s.issued
      }.close k
  | .token code verifier hash =>
    if isVerifier verifier then s.goOn (.exchange code verifier hash s.store.clock) else s.close k
  | .exchange code verifier hash now =>
    match s.codes.lookup code with
    | none => s.close k
    | some row =>
      (s.locks.acquire k code).bind fun locks =>
        { s with locks }.goOn (.deleted code row verifier hash now)
  | .deleted code row verifier hash now =>
    if now < row.expiresAt ∧ config.challengeOf verifier = row.challenge ∧
        row.userId ∉ s.store.blocked then
      s.goOn (.allowed code row hash now)
    else
      -- the deletion stands: a code is tried once
      { s with codes := s.codes.erase code }.close k
  | .allowed code row hash now =>
    s.finish k ((s.create config hash row.userId .extension row.origin).map fun s =>
      { s with
        codes := s.codes.erase code
        traded := s.traded ++ [⟨code, now, row.expiresAt⟩] })
  | .endSessions user =>
    { s with
      store := s.store.endSessions user
      ended := s.ended ++ [(user, s.signIns)]
    }.close k
  | .block user =>
    { s with store := { s.store with blocked := user :: s.store.blocked } }.goOn (.endSessions user)
  | .delete user => { s with deleted := user :: s.deleted }.goOn (.endSessions user)

/-- The next step of request `k`. -/
def Flight.next (config : Config) (k : Nat) (s : Shared) (f : Flight) :
    Option (Shared × Option Flight) :=
  if k ∈ s.cancelled then s.close k else f.statement config k s

inductive Outside
  | tick (clock : Int)
  /-- A request is given up, or its transaction fails. -/
  | cancel (k : Nat)
  | unblock (user : Uuid)
  /-- A request keeps its session alive. -/
  | touch (hash : Bytes)
  /-- A confirmation that began at `began` is committed. -/
  | confirm (hash : Bytes) (began : Int) (right : Bool)
  /-- A session is signed out or ended by its user. -/
  | endSession (hash : Bytes)
  | purge

/-- `purge` leaves a code that somebody trades at the moment: it waits, and the code is gone or still
there afterwards. -/
def Shared.purge (config : Config) (s : Shared) : Shared :=
  { s with
    store := s.store.purge config.idle
    codes := .collect (s.codes.entries.filterMap fun e =>
      if e.2.expiresAt ≤ s.store.clock ∧ s.locks e.1 = none then none else some (e.1, e.2)) }

def Shared.outside (config : Config) (s : Shared) : Outside → Option Shared
  | .tick clock =>
    if s.store.clock ≤ clock then some { s with store := { s.store with clock } } else none
  | .cancel k => some { s with cancelled := k :: s.cancelled }
  | .unblock user =>
    some { s with store := { s.store with blocked := s.store.blocked.filter (· ≠ user) } }
  | .touch hash => some { s with store := s.store.touch config.idle hash }
  | .confirm hash began right => some { s with store := s.store.confirm hash began right }
  | .endSession hash =>
    some { s with store := { s.store with sessions := s.store.sessions.erase hash } }
  | .purge => some (s.purge config)

def system (config : Config) : Interleave.System Shared Flight Outside where
  starts := Flight.isNew
  next := Flight.next config
  outside := Shared.outside config

end Server.Extension
