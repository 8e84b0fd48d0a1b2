import RemoteHub.Model.Catalog
import RemoteHub.Totp.Params
import RemoteHub.Lib.Bytes
import RemoteHub.Lib.Interleave
import RemoteHub.Lib.Acceptance
import Mathlib.Algebra.Group.Int.Defs

/-!
# Time-based codes as a second factor

Three kinds of users confirm with the codes of an authenticator app, and each code works once:

* directory users (`crates/server/src/second_factor.rs`): `verify` and `enroll`, at sign-ins, at
  confirmations and on the account page (`api/second_factor.rs`);
* break-glass accounts (`crates/server/src/break_glass.rs`): `code_matches`, at sign-ins and at
  confirmations, and the commands that create, reset and delete the account;
* local accounts (`local_code` in `crates/server/src/api/confirm.rs`), at confirmations.

The requests are here statement by statement at READ COMMITTED. A row that a transaction locks or
writes is its own until it ends, and what it writes is there with its commit; it can be given up at
any step. A sealed secret stands for what it opens to.

`Shared.log` is what happened in order: when a factor was set up, and the steps of the codes that
were accepted.
-/

namespace Server

open Model

/-- What other crates bring along. -/
structure Crypto where
  hmac : Totp.Hmac
  base32 : Totp.Base32
  /-- `password_matches`: the password and the stored hash. -/
  passwordMatches : String → String → Bool

namespace Codes

/-- A row of `second_factors`. -/
structure FactorRow where
  totpVersion : Int
  lastTotpStep : Int
  deriving DecidableEq

/-- A row of `local_accounts`. -/
structure AccountRow where
  passwordHash : String
  totpVersion : Int
  lastTotpStep : Int
  deriving DecidableEq

/-- Whose codes. -/
inductive Path
  | directory | breakGlass | account
  deriving DecidableEq, Repr

/-- What a transaction locks: the row that keeps a user's last step, or a sealed secret. -/
inductive Lock
  | factor (path : Path) (user : Uuid)
  | secret (user : Uuid) (version : Int)
  deriving DecidableEq

abbrev Log := List (Acceptance.Entry (Path × Uuid) Nat)

structure Shared where
  /-- `secret_fields`, field `totp`. -/
  secrets : HashMap (Uuid × Int) Bytes := ∅
  /-- `second_factors`. -/
  factors : HashMap Uuid FactorRow := ∅
  /-- `local_accounts`. -/
  accounts : HashMap Uuid AccountRow := ∅
  /-- `confirmation_codes`. -/
  codes : HashMap Uuid Int := ∅
  locks : Interleave.Locks Lock := fun _ => none
  cancelled : List Nat := []
  log : Log := []

/-- `i64::try_from(step).unwrap_or(i64::MAX)`. -/
def toI64 (step : Nat) : Int := if step ≤ 2 ^ 63 - 1 then step else 2 ^ 63 - 1

/-- How far a request is. -/
inductive Flight
  /-- The second step of a directory sign-in, where `hasKeys` says whether the user has security
  keys. -/
  | signIn (user : Uuid) (code newSecret : Option String) (hasKeys : Bool) (now : Nat)
  /-- `second_factor::verify`; on the account page it removes the factor then. -/
  | verify (user : Uuid) (code : String) (now : Nat) (removes : Bool)
  | locked (user : Uuid) (version : Int) (code : String) (now : Nat) (removes : Bool)
  | checked (user : Uuid) (step : Nat) (removes : Bool)
  | used (user : Uuid) (step : Nat) (removes : Bool)
  /-- `second_factor::enroll`. -/
  | enroll (user : Uuid) (secret code : String) (now : Nat)
  | fits (user : Uuid) (secret : Bytes) (step : Nat)
  | numbered (user : Uuid) (secret : Bytes) (step : Nat) (version : Int)
  | stored (user : Uuid) (secret : Bytes) (step : Nat) (version : Int)
  | enrolled (user : Uuid) (secret : Bytes) (step : Nat) (version : Int)
  /-- An administrator's reset. -/
  | reset (user : Uuid)
  | resetting (user : Uuid)
  /-- `break_glass::authenticate`, for the user of that name. -/
  | authenticate (user : Uuid) (password code : String) (now : Nat)
  /-- `break_glass::verify_code`. -/
  | verifyCode (user : Uuid) (code : String) (now : Nat)
  /-- `code_matches`. -/
  | codeMatches (user : Uuid) (version : Int) (code : String) (now : Nat)
  | matched (user : Uuid) (step : Nat)
  | createAccount (user : Uuid) (hash : String) (secret : Bytes)
  | resetAccount (user : Uuid) (hash : String) (secret : Bytes)
  | renewed (user : Uuid) (hash : String) (secret : Bytes) (version : Int)
  | sealed (user : Uuid) (hash : String) (secret : Bytes) (version : Int)
  | deleteAccount (user : Uuid)
  | deleting (user : Uuid)
  /-- `local_code`, with the app that Kratos has. -/
  | localCode (user : Uuid) (app : Option Totp.Params) (code : String) (now : Nat)
  | localMatched (user : Uuid) (step : Nat)
  | taken (user : Uuid) (step : Nat)

namespace Flight

def isNew : Flight → Bool
  | .signIn .. | .verify .. | .enroll .. | .reset .. | .authenticate .. | .verifyCode ..
  | .createAccount .. | .resetAccount .. | .deleteAccount .. | .localCode .. => true
  | _ => false

end Flight

namespace Shared

variable (s : Shared)

/-- `SELECT coalesce(max(version), 0) + 1 FROM secret_fields`. -/
def nextVersion (user : Uuid) : Int :=
  (((s.secrets.keys.filter fun key => key.1 = user).map (·.2)).max?).getD 0 + 1

/-- The request is over; its transaction has committed `s`, or failed. -/
def close (k : Nat) : Option (Shared × Option Flight) :=
  some ({ s with locks := s.locks.release k }, none)

/-- A code of this step is accepted. -/
def accept (path : Path) (user : Uuid) (step : Nat) : Shared :=
  { s with log := s.log ++ [.accepted (path, user) step] }

/-- A factor is set up. -/
def start (path : Path) (user : Uuid) : Shared := { s with log := s.log ++ [.opened (path, user)] }

/-- The request goes on. -/
def goOn (f : Flight) : Option (Shared × Option Flight) := some (s, some f)

/-- The request goes on with what was found, and is over otherwise. -/
def goOnWith {α : Type} (k : Nat) (found : Option α) (next : α → Flight) :
    Option (Shared × Option Flight) :=
  found.elim (s.close k) fun a => s.goOn (next a)

/-- The request locks a row and goes on, as soon as nobody else has it. -/
def lock (k : Nat) (key : Lock) (f : Flight) : Option (Shared × Option Flight) :=
  (s.locks.acquire k key).bind fun locks => { s with locks }.goOn f

/-- `DELETE FROM secret_fields WHERE owner_id = $1`. -/
def dropSecrets (user : Uuid) : HashMap (Uuid × Int) Bytes :=
  (s.secrets.keys.filter fun key => key.1 = user).foldl (fun rows key => rows.erase key) s.secrets

end Shared

open Shared in
/-- The next statement of request `k`; `none` while it waits. -/
def Flight.statement (c : Crypto) (k : Nat) (s : Shared) : Flight → Option (Shared × Option Flight)
  | .signIn user code newSecret hasKeys now =>
    if user ∈ s.factors ∨ hasKeys then
      s.goOnWith k code fun code => .verify user code now false
    else
      match newSecret, code with
      | some secret, some code => s.goOn (.enroll user secret code now)
      | _, _ => s.close k
  | .verify user code now removes =>
    match s.factors.lookup user with
    | none => s.close k
    | some row =>
      s.lock k (.factor .directory user) (.locked user row.totpVersion code now removes)
  | .locked user version code now removes =>
    s.goOnWith k ((s.secrets.lookup (user, version)).bind fun secret =>
      Totp.step c.hmac secret (Text.trim code) now) fun step => .checked user step removes
  | .checked user step removes =>
    match s.factors.lookup user with
    | none => s.close k
    | some row =>
      if row.lastTotpStep < toI64 step then
        s.lock k (.factor .directory user) (.used user step removes)
      else s.close k
  | .used user step removes =>
    let row := fun (row : FactorRow) => { row with lastTotpStep := toI64 step }
    ({ s with
       factors := if removes then s.factors.erase user else s.factors.modify user row
     }.accept .directory user step).close k
  | .enroll user secret code now =>
    s.goOnWith k ((Totp.decode c.base32 secret).bind fun secret =>
      (Totp.step c.hmac secret (Text.trim code) now).map (secret, ·)) fun r => .fits user r.1 r.2
  | .fits user secret step => s.goOn (.numbered user secret step (s.nextVersion user))
  | .numbered user secret step version =>
    if (user, version) ∈ s.secrets then s.close k
    else s.lock k (.secret user version) (.stored user secret step version)
  | .stored user secret step version =>
    s.lock k (.factor .directory user) (.enrolled user secret step version)
  | .enrolled user secret step version =>
    (({ s with
        secrets := s.secrets.insert (user, version) secret
        factors := s.factors.insert user { totpVersion := version, lastTotpStep := toI64 step }
      }.start .directory user).accept .directory user step).close k
  | .reset user =>
    if user ∈ s.factors then s.lock k (.factor .directory user) (.resetting user) else s.close k
  | .resetting user => { s with factors := s.factors.erase user }.close k
  | .authenticate user password code now =>
    s.goOnWith k ((s.accounts.lookup user).filter fun row =>
      c.passwordMatches password row.passwordHash) fun row =>
        .codeMatches user row.totpVersion code now
  | .verifyCode user code now =>
    s.goOnWith k (s.accounts.lookup user) fun row => .codeMatches user row.totpVersion code now
  | .codeMatches user version code now =>
    s.goOnWith k ((s.secrets.lookup (user, version)).bind fun secret =>
      Totp.step c.hmac secret (Text.trim code) now) fun step => .matched user step
  | .matched user step =>
    match s.accounts.lookup user with
    | none => s.close k
    | some row =>
      if row.lastTotpStep < toI64 step then
        -- a statement of its own: it waits for the row, writes it and is committed
        (s.locks.acquire k (.factor .breakGlass user)).bind fun _ =>
          ({ s with
             accounts := s.accounts.insert user { row with lastTotpStep := toI64 step }
           }.accept .breakGlass user step).close k
      else s.close k
  | .createAccount user hash secret =>
    if user ∈ s.accounts ∨ (user, 1) ∈ s.secrets then s.close k
    else
      (s.locks.acquire k (.factor .breakGlass user)).bind fun _ =>
        ({ s with
           accounts := s.accounts.insert user
             { passwordHash := hash, totpVersion := 1, lastTotpStep := 0 }
           secrets := s.secrets.insert (user, 1) secret
         }.start .breakGlass user).close k
  | .resetAccount user hash secret =>
    match s.accounts.lookup user with
    | none => s.close k
    | some row =>
      s.lock k (.factor .breakGlass user) (.renewed user hash secret (row.totpVersion + 1))
  | .renewed user hash secret version =>
    if (user, version) ∈ s.secrets then s.close k
    else s.lock k (.secret user version) (.sealed user hash secret version)
  | .sealed user hash secret version =>
    ({ s with
       accounts := s.accounts.insert user
         { passwordHash := hash, totpVersion := version, lastTotpStep := 0 }
       secrets := s.secrets.insert (user, version) secret
     }.start .breakGlass user).close k
  | .deleteAccount user =>
    if user ∈ s.accounts then s.lock k (.factor .breakGlass user) (.deleting user) else s.close k
  | .deleting user =>
    { s with accounts := s.accounts.erase user, secrets := s.dropSecrets user }.close k
  | .localCode user app code now =>
    s.goOnWith k (app.bind fun app =>
      if (app.algorithm, app.digits, app.period) ≠ (.sha1, Totp.codeDigits, Totp.period) then none
      else Totp.step c.hmac app.secret (Text.trim code) now) fun step => .localMatched user step
  | .localMatched user step =>
    match s.codes.lookup user with
    | none => s.lock k (.factor .account user) (.taken user step)
    | some last =>
      if last < toI64 step then s.lock k (.factor .account user) (.taken user step) else s.close k
  | .taken user step =>
    ({ s with codes := s.codes.insert user (toI64 step) }.accept .account user step).close k

/-- The next step of request `k`. -/
def Flight.next (c : Crypto) (k : Nat) (s : Shared) (f : Flight) : Option (Shared × Option Flight) :=
  if k ∈ s.cancelled then s.close k else f.statement c k s

/-- A request is given up, or its transaction fails. -/
inductive Outside
  | cancel (k : Nat)

def Shared.outside (s : Shared) : Outside → Option Shared
  | .cancel k => some { s with cancelled := k :: s.cancelled }

def system (c : Crypto) : Interleave.System Shared Flight Outside where
  starts := Flight.isNew
  next := Flight.next c
  outside := Shared.outside

end Codes

end Server
