import RemoteHub.Directory.LdapDirectory
import RemoteHub.Server.Sessions

/-!
# Sessions follow the directory (`crates/server/src/refresh.rs`)

A directory user signs in (`sign_in` in `crates/server/src/api/session.rs`) with the groups that the
directory gives; the extension trades a code for a session with those of the browser's session
(`create_code` and `token` in `crates/server/src/api/extension.rs`). `user` asks the directory again,
before every connection (`before_connecting`) and in rounds (`due`), and its answer replaces the groups of
all the user's sessions or ends them. The directory's settings may change meanwhile
(`crates/server/src/api/directory.rs`).

The requests are here statement by statement at READ COMMITTED: a statement finds the rows that are
there when it begins, which is its `now()`, and what it does to those still there is there with its
commit. A request can be given up at any step, which is also what a refused second factor or an error
of the database does to it. Rounds and requests do not wait for one another's locks, so there are more
interleavings here than the database has.

What a directory answers is up to the directory: `Shared.directories` says what each of them answers
at the moment, and `Shared.asked` keeps what they answered. `Row.answeredAt` is when the directory gave the
groups of a session, which the database does not keep; `Shared.followed` is when the latest round began
that left no question without an answer.
-/

namespace Server.Refresh

open Model Sessions
open Directory (Sid)
open Directory.LdapDirectory (AuthError)

/-- `settings.session`. -/
structure Config where
  idle : Int
  max : Int

/-- `EVERY`. -/
def every : Int := 5 * minute

/-- `CODE_SECONDS`. -/
def codeLifetime : Int := 60 * second

/-! ## Answers -/

/-- Why the directory ended a user's sessions. -/
inductive Reason
  | accountDisabled
  | accountExpired
  | invalidCredentials
  deriving DecidableEq

inductive Verdict
  | groups (groups : List String)
  /-- A directory that cannot be asked changes nothing. -/
  | unknown
  | refused (reason : Reason)

def texts (sids : List Sid) : List String := sids.map Sid.text

/-- What `user` makes of the directory's answer. -/
def verdict : Except AuthError (List Sid) → Verdict
  | .ok sids => .groups (texts sids)
  | .error (.unavailable _) => .unknown
  | .error (.directory _) => .unknown
  | .error .accountDisabled => .refused .accountDisabled
  | .error .accountExpired => .refused .accountExpired
  | .error _ => .refused .invalidCredentials

structure Asked where
  time : Int
  sid : Sid
  answer : Except AuthError (List Sid)

/-! ## Rows -/

/-- A row of `sessions`, under its `token_hash`. -/
structure Row extends SessionRow where
  groups : List String
  checkedAt : Int
  answeredAt : Int

/-- `UPDATE sessions SET groups = $2, checked_at = now()`. -/
def Row.refresh (groups : List String) (answeredAt now : Int) (row : Row) : Row :=
  { row with groups, checkedAt := now, answeredAt }

/-- A row of `extension_codes`, under its `code_hash`. -/
structure CodeRow where
  userId : Uuid
  groups : List String
  expiresAt : Int
  answeredAt : Int

/-- What is recorded of sessions that the directory ended. -/
structure Ended where
  user : Uuid
  sid : Sid
  reason : Reason
  sessionsEnded : Nat

/-- A connection that was let through. `asked`: the directory answered that the user may keep the
sessions. -/
structure Connection where
  user : Uuid
  groups : List String
  answeredAt : Int
  began : Int
  asked : Bool

structure Shared where
  clock : Int
  /-- `Current`. -/
  current : Option Nat := none
  directories : Nat → Sid → Except AuthError (List Sid)
  /-- The users with their `sid`, which directory users have. -/
  users : HashMap Uuid (Option Sid) := ∅
  /-- Users with `blocked_at`. -/
  blocked : List Uuid := []
  sessions : HashMap Bytes Row := ∅
  codes : HashMap Bytes CodeRow := ∅
  /-- The hashes of the tokens given out. -/
  issued : List Bytes := []
  cancelled : List Nat := []
  asked : List Asked := []
  ended : List Ended := []
  connections : List Connection := []
  followed : Int

namespace Shared

variable (config : Config) (s : Shared)

/-- `by_hash`. -/
def byHash (hash : Bytes) : Option Row :=
  (s.sessions.lookup hash).filter fun row =>
    decide (row.userId ∉ s.blocked ∧ s.clock < row.expiresAt ∧
      (row.client = .web ∨ s.clock - config.idle < row.lastSeenAt))

/-- The user with the SID. -/
def userOf (sid : Sid) : Option Uuid :=
  (s.users.entries.find? fun e => decide (e.2 = some sid)).map Sigma.fst

/-- `upsert_directory_user`: `id` is that of a new user. -/
def upsert (sid : Sid) (id : Uuid) : Option (Uuid × Shared) :=
  match s.userOf sid with
  | some user => some (user, s)
  | none => if id ∈ s.users then none else some (id, { s with users := s.users.insert id (some sid) })

/-- `create` and `create_extension`; tokens are random, and none is given out twice. -/
def create (hash : Bytes) (user : Uuid) (client : Client) (groups : List String)
    (answeredAt now : Int) : Option Shared :=
  if hash ∈ s.issued then none
  else
    some { s with
      sessions := s.sessions.insert hash
        { userId := user, client, lastSeenAt := now, expiresAt := now + config.max, groups,
          checkedAt := now, answeredAt }
      issued := hash :: s.issued }

/-- What the directory answers now. -/
def ask (directory : Nat) (sid : Sid) : Shared :=
  { s with asked := s.asked ++ [⟨s.clock, sid, s.directories directory sid⟩] }

/-- The sessions of the users for which `p` holds. -/
def sessionsOf (p : Uuid → Bool) : List Bytes := s.sessions.keysWhere fun row => p row.userId = true

/-- The session's request goes on to the device. -/
def connected (row : Row) (began : Int) (asked : Bool) : Shared :=
  { s with connections := s.connections ++ [⟨row.userId, row.groups, row.answeredAt, began, asked⟩] }

/-- The commit of what `user` does after a refusal. -/
def endedBy (user : Uuid) (sid : Sid) (reason : Reason) (found : List Bytes) : Shared :=
  { s with
    sessions := s.sessions.eraseAll found
    ended := s.ended ++ [⟨user, sid, reason, found.length⟩] }

def isDirectory (user : Uuid) : Bool := (s.users.lookup user).any Option.isSome

/-- The users whose sessions are to be checked. -/
def due : List (Uuid × Sid) :=
  (s.sessions.entries.filterMap fun e =>
    if s.clock < e.2.expiresAt ∧ e.2.checkedAt < s.clock - every then
      (s.users.lookup e.2.userId).join.map fun sid => (e.2.userId, sid)
    else none).dedup

end Shared

/-! ## Requests -/

/-- Who asks about a user. -/
inductive Caller
  /-- `before_connecting`, in the session. -/
  | connection (hash : Bytes) (began : Int)
  /-- `due`: the users not asked about yet, and whether there was an answer so far to each question. -/
  | round (began : Int) (complete : Bool) (rest : List (Uuid × Sid))

/-- How far a request is. `hash` is that of the token of its session or of the one it will create. -/
inductive Flight
  /-- `sign_in` with the right password of the account with the SID; `id` is for a new user. -/
  | signIn (sid : Sid) (hash : Bytes) (id : Uuid)
  | authenticating (directory : Nat) (sid : Sid) (hash : Bytes) (id : Uuid)
  | authenticated (sid : Sid) (groups : List String) (answeredAt : Int) (hash : Bytes) (id : Uuid)
  /-- Its transaction began at `now`. -/
  | signing (sid : Sid) (groups : List String) (answeredAt now : Int) (hash : Bytes) (id : Uuid)
  /-- `create_code`, in a browser's session. -/
  | createCode (hash code : Bytes)
  | issuing (user : Uuid) (groups : List String) (answeredAt readAt : Int) (code : Bytes)
  /-- `token`; `right`: the verifier is the one behind the challenge. -/
  | token (code hash : Bytes) (right : Bool)
  | exchange (code hash : Bytes) (right : Bool) (now : Int)
  | allowed (code : Bytes) (row : CodeRow) (hash : Bytes) (now : Int)
  | connect (hash : Bytes)
  | due
  | ask (user : Uuid) (sid : Sid) (caller : Caller)
  | asking (directory : Nat) (user : Uuid) (sid : Sid) (caller : Caller)
  | answered (user : Uuid) (groups : List String) (answeredAt : Int) (caller : Caller)
  /-- `UPDATE sessions` began at `now` and found these. -/
  | updating (user : Uuid) (groups : List String) (answeredAt now : Int) (found : List Bytes)
    (caller : Caller)
  | refused (user : Uuid) (sid : Sid) (reason : Reason) (caller : Caller)
  /-- `DELETE FROM sessions` found these. -/
  | deleting (user : Uuid) (sid : Sid) (reason : Reason) (found : List Bytes) (caller : Caller)
  | reload (hash : Bytes) (began : Int) (asked : Bool)
  /-- `save` and `remove` of the directory's settings, which may end the sessions of its users. -/
  | settings (ends : Bool) (directory : Option Nat)
  | ending (found : List Bytes) (directory : Option Nat)
  | setting (directory : Option Nat)

def Flight.isNew : Flight → Bool
  | .signIn .. | .createCode .. | .token .. | .connect .. | .due | .settings .. => true
  | _ => false

namespace Shared

variable (s : Shared)

/-- The request is over. -/
def close : Option (Shared × Option Flight) := some (s, none)

def goOn (f : Flight) : Option (Shared × Option Flight) := some (s, some f)

/-- A round goes on with the next user, or is over. -/
def nextUser (began : Int) (complete : Bool) : List (Uuid × Sid) → Option (Shared × Option Flight)
  | [] => { s with followed := if complete then max began s.followed else s.followed }.close
  | (user, sid) :: rest => s.goOn (.ask user sid (.round began complete rest))

/-- `user` answers that the user may keep the sessions; `asked`: because the directory says so. -/
def kept (asked : Bool) : Caller → Option (Shared × Option Flight)
  | .connection hash began => s.goOn (.reload hash began asked)
  | .round began complete rest => s.nextUser began (complete && asked) rest

/-- `user` answers that the user may not. -/
def lost : Caller → Option (Shared × Option Flight)
  | .connection _ _ => s.close
  | .round began complete rest => s.nextUser began complete rest

end Shared

/-- The next statement of a request. -/
def Flight.statement (config : Config) (s : Shared) : Flight → Option (Shared × Option Flight)
  | .signIn sid hash id =>
    match s.current with
    | none => s.close
    | some directory => s.goOn (.authenticating directory sid hash id)
  | .authenticating directory sid hash id =>
    match s.directories directory sid with
    | .ok sids => (s.ask directory sid).goOn (.authenticated sid (texts sids) s.clock hash id)
    | .error _ => (s.ask directory sid).close
  | .authenticated sid groups answeredAt hash id =>
    if (s.userOf sid).any (· ∈ s.blocked) then s.close
    else s.goOn (.signing sid groups answeredAt s.clock hash id)
  | .signing sid groups answeredAt now hash id =>
    (((s.upsert sid id).bind fun r =>
      r.2.create config hash r.1 .web groups answeredAt now).getD s).close
  | .createCode hash code =>
    match s.byHash config hash with
    | none => s.close
    | some row =>
      if row.client ≠ .web ∨ row.Locked config.idle s.clock then s.close
      else s.goOn (.issuing row.userId row.groups row.answeredAt s.clock code)
  | .issuing userId groups answeredAt _ code =>
    { s with
      codes := s.codes.insert code { userId, groups, expiresAt := s.clock + codeLifetime, answeredAt }
    }.close
  | .token code hash right => s.goOn (.exchange code hash right s.clock)
  | .exchange code hash right now =>
    match s.codes.lookup code with
    | none => s.close
    | some row =>
      if now < row.expiresAt ∧ right ∧ row.userId ∉ s.blocked then s.goOn (.allowed code row hash now)
      else
        -- the deletion stands: a code is tried once
        { s with codes := s.codes.erase code }.close
  | .allowed code row hash now =>
    ((({ s with codes := s.codes.erase code } : Shared).create config hash row.userId .extension
      row.groups row.answeredAt now).getD s).close
  | .connect hash =>
    match s.byHash config hash with
    | none => s.close
    | some row =>
      if row.client ≠ .web ∨ row.Locked config.idle s.clock then s.close
      else
        match (s.users.lookup row.userId).join with
        | none => (s.connected row s.clock false).close
        | some sid => s.goOn (.ask row.userId sid (.connection hash s.clock))
  | .due => s.nextUser s.clock true s.due
  | .ask user sid caller =>
    match s.current, Sid.parse sid.text with
    | some directory, some parsed => s.goOn (.asking directory user parsed caller)
    | _, _ => s.kept false caller
  | .asking directory user sid caller =>
    match verdict (s.directories directory sid) with
    | .groups groups => (s.ask directory sid).goOn (.answered user groups s.clock caller)
    | .unknown => (s.ask directory sid).kept false caller
    | .refused reason => (s.ask directory sid).goOn (.refused user sid reason caller)
  | .answered user groups answeredAt caller =>
    s.goOn (.updating user groups answeredAt s.clock (s.sessionsOf (· = user)) caller)
  | .updating _ groups answeredAt now found caller =>
    { s with sessions := s.sessions.modifyAll found (Row.refresh groups answeredAt now) }.kept true caller
  | .refused user sid reason caller =>
    s.goOn (.deleting user sid reason (s.sessionsOf (· = user)) caller)
  | .deleting user sid reason found caller =>
    (s.endedBy user sid reason found).lost caller
  | .reload hash began asked =>
    match s.byHash config hash with
    | none => s.close
    | some row => (s.connected row began asked).close
  | .settings ends directory =>
    if ends then s.goOn (.ending (s.sessionsOf s.isDirectory) directory)
    else s.goOn (.setting directory)
  | .ending found directory =>
    { s with sessions := s.sessions.eraseAll found }.goOn (.setting directory)
  | .setting directory => { s with current := directory }.close

/-- The next step of request `k`. -/
def Flight.next (config : Config) (k : Nat) (s : Shared) (f : Flight) :
    Option (Shared × Option Flight) :=
  if k ∈ s.cancelled then s.close else f.statement config s

/-! ## What else happens -/

inductive Outside
  | tick (clock : Int)
  | cancel (k : Nat)
  /-- The directories change, or how they answer. -/
  | directories (answers : Nat → Sid → Except AuthError (List Sid))
  /-- A local or break-glass account signs in. -/
  | signInOther (user : Uuid) (hash : Bytes)
  | touch (hash : Bytes)
  /-- A confirmation that began at `began` is committed. -/
  | confirm (hash : Bytes) (began : Int) (right : Bool)
  /-- A session is signed out or ended by its user. -/
  | endSession (hash : Bytes)
  | endSessions (user : Uuid)
  | block (user : Uuid)
  | unblock (user : Uuid)
  | purge

/-- What a confirmation leaves of its session. -/
def Row.confirm (began : Int) (right : Bool) (row : Row) : Option Row :=
  (row.toSessionRow.confirm began right).map fun r => { row with toSessionRow := r }

def Row.touch (idle now : Int) (row : Row) : Row :=
  { row with toSessionRow := row.toSessionRow.touch idle now }

namespace Shared

variable (config : Config) (s : Shared)

def confirm (hash : Bytes) (began : Int) (right : Bool) : Shared :=
  match (s.sessions.lookup hash).bind (·.confirm began right) with
  | some row => { s with sessions := s.sessions.insert hash row }
  | none => { s with sessions := s.sessions.erase hash }

def purge : Shared :=
  { s with
    sessions := s.sessions.eraseAll (s.sessions.keysWhere fun row => row.Over config.idle s.clock)
    codes := s.codes.eraseAll (s.codes.keysWhere fun row => row.expiresAt ≤ s.clock) }

def outside : Outside → Option Shared
  | .tick clock => if s.clock ≤ clock then some { s with clock } else none
  | .cancel k => some { s with cancelled := k :: s.cancelled }
  | .directories directories => some { s with directories }
  | .signInOther user hash =>
    if s.isDirectory user then none
    else
      ({ s with users := s.users.insert user none } : Shared).create config hash user .web [] s.clock
        s.clock
  | .touch hash =>
    some { s with sessions := s.sessions.modify hash (Row.touch config.idle s.clock) }
  | .confirm hash began right => some (s.confirm hash began right)
  | .endSession hash => some { s with sessions := s.sessions.erase hash }
  | .endSessions user => some { s with sessions := s.sessions.eraseAll (s.sessionsOf (· = user)) }
  | .block user => some { s with blocked := user :: s.blocked }
  | .unblock user => some { s with blocked := s.blocked.filter (· ≠ user) }
  | .purge => some (s.purge config)

end Shared

def system (config : Config) : Interleave.System Shared Flight Outside where
  starts := Flight.isNew
  next := Flight.next config
  outside := Shared.outside config

end Server.Refresh
