import RemoteHub.Server.Codes

/-!
# Resetting a break-glass account (`crates/server/src/break_glass.rs`)

A reset replaces the password and the secret of the codes and ends the sessions of the account; a
sign-in (`sign_in_break_glass` in `crates/server/src/api/session.rs`) checks both against the row that
it read at its beginning, and creates its session afterwards. The requests are here statement by
statement at READ COMMITTED, as in `RemoteHub.Server.Codes`: the row of `local_accounts` that a
transaction writes is its own until it ends, and what it writes is there with its commit. A deletion
in a transaction finds what was committed before it. Requests can be given up at any step.

A session keeps the row that its sign-in read (`Session.read`), which the database does not, and
`Shared.resets` has the version that each committed reset left.
-/

namespace Server.BreakGlass

open Model Codes

/-- A row of `users`. -/
structure UserRow where
  /-- `kind = 'deleted'`. -/
  deleted : Bool := false
  /-- `blocked_at IS NOT NULL`. -/
  blocked : Bool := false

structure Session where
  user : Uuid
  /-- The row that the sign-in checked the password and the code against. -/
  read : AccountRow
  deriving DecidableEq

structure Shared where
  users : HashMap Uuid UserRow := ∅
  /-- `local_accounts`. -/
  accounts : HashMap Uuid AccountRow := ∅
  /-- `secret_fields`, field `totp`. -/
  secrets : HashMap (Uuid × Int) Bytes := ∅
  sessions : HashMap Bytes Session := ∅
  /-- The rows of `local_accounts`. -/
  locks : Interleave.Locks Uuid := fun _ => none
  cancelled : List Nat := []
  resets : List (Uuid × Int) := []

/-- How far a request is. -/
inductive Flight
  /-- `sign_in_break_glass` for the user of that name, with the hash of the token that it will draw;
  `authenticate` comes next. -/
  | signIn (user : Uuid) (password code : String) (now : Nat) (token : Bytes)
  /-- `code_matches` against the row that was read. -/
  | codeMatches (user : Uuid) (read : AccountRow) (code : String) (now : Nat) (token : Bytes)
  | matched (user : Uuid) (read : AccountRow) (step : Nat) (token : Bytes)
  /-- Authenticated; `blocked` comes next. -/
  | authenticated (user : Uuid) (read : AccountRow) (token : Bytes)
  /-- The session is in the transaction that is not committed yet. -/
  | created (user : Uuid) (read : AccountRow) (token : Bytes)
  /-- `create`, with what it will draw. -/
  | create (user : Uuid) (hash : String) (secret : Bytes)
  /-- `reset` of the user of that name, with what it will draw. -/
  | reset (user : Uuid) (hash : String) (secret : Bytes)
  | found (user : Uuid) (hash : String) (secret : Bytes)
  | renewed (user : Uuid) (hash : String) (secret : Bytes) (version : Int)
  | stored (user : Uuid) (hash : String) (secret : Bytes) (version : Int)
  /-- `DELETE FROM sessions` found `ended`. -/
  | swept (user : Uuid) (hash : String) (secret : Bytes) (version : Int) (ended : List Bytes)
  /-- `delete` of the user of that name. -/
  | delete (user : Uuid)
  | deleting (user : Uuid)
  /-- `DELETE FROM secret_fields` found `versions`. -/
  | unsealed (user : Uuid) (versions : List Int)
  | removed (user : Uuid) (versions : List Int)
  | deleted (user : Uuid) (versions : List Int) (ended : List Bytes)

namespace Flight

def isNew : Flight → Bool
  | .signIn .. | .create .. | .reset .. | .delete .. => true
  | _ => false

/-- The sign-in that the password let in, and whose. -/
def signsIn : Flight → Option Uuid
  | .codeMatches user .. | .matched user .. | .authenticated user .. | .created user .. => some user
  | _ => none

end Flight

namespace Shared

variable (s : Shared)

/-- The request is over; its transaction has committed `s`, or failed. -/
def close (k : Nat) : Option (Shared × Option Flight) :=
  some ({ s with locks := s.locks.release k }, none)

/-- The request goes on. -/
def goOn (f : Flight) : Option (Shared × Option Flight) := some (s, some f)

/-- The request goes on with what was found, and is over otherwise. -/
def goOnWith {α : Type} (k : Nat) (found : Option α) (next : α → Flight) :
    Option (Shared × Option Flight) :=
  found.elim (s.close k) fun a => s.goOn (next a)

/-- The request locks the account and goes on, as soon as nobody else has it. -/
def lock (k : Nat) (user : Uuid) (f : Flight) : Option (Shared × Option Flight) :=
  (s.locks.acquire k user).bind fun locks => { s with locks }.goOn f

/-- `find`, and the join of `authenticate`. -/
def find (user : Uuid) : Option AccountRow :=
  ((s.users.lookup user).filter fun row => !row.deleted).bind fun _ => s.accounts.lookup user

/-- What `DELETE FROM sessions WHERE user_id = $1` finds. -/
def sessionsOf (user : Uuid) : List Bytes :=
  (s.sessions.entries.filter fun e => e.2.user = user).map (·.1)

/-- The sessions without those that were deleted. -/
def without (ended : List Bytes) : HashMap Bytes Session :=
  ended.foldl (fun rows token => rows.erase token) s.sessions

/-- What `DELETE FROM secret_fields WHERE owner_id = $1` finds. -/
def versionsOf (user : Uuid) : List Int :=
  (s.secrets.keys.filter fun key => key.1 = user).map (·.2)

/-- `UPDATE local_accounts SET last_totp_step = $2`, of a row that is newer. -/
def use (user : Uuid) (step : Nat) : Shared :=
  { s with accounts := s.accounts.modify user fun row => { row with lastTotpStep := toI64 step } }

end Shared

/-- The next statement of request `k`; `none` while it waits. -/
def Flight.statement (c : Crypto) (k : Nat) (s : Shared) : Flight → Option (Shared × Option Flight)
  | .signIn user password code now token =>
    s.goOnWith k ((s.find user).filter fun row => c.passwordMatches password row.passwordHash)
      fun row => .codeMatches user row code now token
  | .codeMatches user read code now token =>
    s.goOnWith k ((s.secrets.lookup (user, read.totpVersion)).bind fun secret =>
      Totp.step c.hmac secret (Text.trim code) now) fun step => .matched user read step token
  | .matched user read step token =>
    match s.accounts.lookup user with
    | none => s.close k
    | some row =>
      if row.lastTotpStep < toI64 step then
        -- a statement of its own: it waits for the row, writes it and is committed
        (s.locks.acquire k user).bind fun _ =>
          (s.use user step).goOn (.authenticated user read token)
      else s.close k
  | .authenticated user read token =>
    match s.users.lookup user with
    | none => s.close k
    | some row => if row.blocked then s.close k else s.goOn (.created user read token)
  | .created user read token =>
    if token ∈ s.sessions then s.close k
    else { s with sessions := s.sessions.insert token { user, read } }.close k
  | .create user hash secret =>
    if user ∈ s.users ∨ user ∈ s.accounts ∨ (user, 1) ∈ s.secrets then s.close k
    else
      { s with
        users := s.users.insert user {}
        accounts := s.accounts.insert user
          { passwordHash := hash, totpVersion := 1, lastTotpStep := 0 }
        secrets := s.secrets.insert (user, 1) secret
      }.close k
  | .reset user hash secret => s.goOnWith k (s.find user) fun _ => .found user hash secret
  | .found user hash secret =>
    match s.accounts.lookup user with
    | none => s.close k
    | some row => s.lock k user (.renewed user hash secret (row.totpVersion + 1))
  | .renewed user hash secret version =>
    if (user, version) ∈ s.secrets then s.close k else s.goOn (.stored user hash secret version)
  | .stored user hash secret version =>
    s.goOn (.swept user hash secret version (s.sessionsOf user))
  | .swept user hash secret version ended =>
    { s with
      accounts := s.accounts.insert user
        { passwordHash := hash, totpVersion := version, lastTotpStep := 0 }
      secrets := s.secrets.insert (user, version) secret
      sessions := s.without ended
      resets := s.resets ++ [(user, version)]
    }.close k
  | .delete user => s.goOnWith k (s.find user) fun _ => .deleting user
  | .deleting user => s.goOn (.unsealed user (s.versionsOf user))
  | .unsealed user versions => s.lock k user (.removed user versions)
  | .removed user versions => s.goOn (.deleted user versions (s.sessionsOf user))
  | .deleted user versions ended =>
    { s with
      users := s.users.modify user fun row => { row with deleted := true }
      accounts := s.accounts.erase user
      secrets := versions.foldl (fun rows version => rows.erase (user, version)) s.secrets
      sessions := s.without ended
    }.close k

/-- The next step of request `k`. -/
def Flight.next (c : Crypto) (k : Nat) (s : Shared) (f : Flight) : Option (Shared × Option Flight) :=
  if k ∈ s.cancelled then s.close k else f.statement c k s

inductive Outside
  /-- A request is given up, or its transaction fails. -/
  | cancel (k : Nat)
  /-- A confirmation uses up a code (`verify_code`). -/
  | confirm (user : Uuid) (step : Nat)
  /-- An administrator blocks or unblocks the user. -/
  | block (user : Uuid) (blocked : Bool)
  /-- A session ends, be it that it runs out or that its user or an administrator ends it. -/
  | endSession (token : Bytes)

def Shared.outside (s : Shared) : Outside → Option Shared
  | .cancel k => some { s with cancelled := k :: s.cancelled }
  | .confirm user step =>
    if s.locks user = none then
      (s.accounts.lookup user).bind fun row =>
        if row.lastTotpStep < toI64 step then some (s.use user step) else none
    else none
  | .block user blocked =>
    some { s with users := s.users.modify user fun row => { row with blocked } }
  | .endSession token => some { s with sessions := s.sessions.erase token }

def system (c : Crypto) : Interleave.System Shared Flight Outside where
  starts := Flight.isNew
  next := Flight.next c
  outside := Shared.outside

end Server.BreakGlass
