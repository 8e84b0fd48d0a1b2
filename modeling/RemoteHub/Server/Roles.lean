import RemoteHub.Server.Db
import RemoteHub.Server.Problem
import RemoteHub.Lib.Interleave

/-!
# Roles for remotehub itself (`crates/server/src/api/roles.rs`)

`role_assignments` and the requests that change it: giving and taking a role, deleting a group of
remotehub's own (`groups.rs`) or a local account (`users.rs`), and the setup wizard (`setup.rs`),
statement by statement at READ COMMITTED. Taking the administrator role and the setup lock the one
row of `instance` until their transaction ends.

A `DELETE` finds what is committed when it runs, and what it finds goes with the commit. The waits
for other rows are left out: there are interleavings here that the database delays.
-/

namespace Server

open Model Except

/-- `session::Role`. -/
inductive SystemRole
  | administrator | auditor | securityOfficer
  deriving DecidableEq, Repr

namespace SystemRole

def asStr : SystemRole → String
  | .administrator => "administrator"
  | .auditor => "auditor"
  | .securityOfficer => "security_officer"

def parse (name : String) : Option SystemRole :=
  [administrator, auditor, securityOfficer].find? fun role => role.asStr = name

end SystemRole

/-- Whom an assignment names: a directory user or group by SID, a local account by its Kratos
identity, or a group of remotehub's own. -/
inductive PrincipalId
  | directory (sid : String)
  | account (identity : Uuid)
  | group (id : Uuid)
  deriving DecidableEq, Repr

/-- `users.kind`. -/
inductive UserKind
  | directory | breakGlass | account | deleted
  deriving DecidableEq, Repr

structure UserRow where
  kind : UserKind
  identityId : Option Uuid
  /-- `last_sign_in_at IS NOT NULL`. -/
  signedIn : Bool
  deriving DecidableEq

structure Assignment where
  principalKind : String
  principalName : String
  deriving DecidableEq

/-- By the primary key, role and principal. -/
abbrev Assignments := HashMap (SystemRole × PrincipalId) Assignment

namespace Roles

/-- Who asks. -/
structure Session where
  userId : Uuid
  isAdmin : Bool

def requireAdmin (session : Session) : Answer Unit := refuse (!session.isAdmin) (.of .forbidden)

def role (name : String) : Answer SystemRole :=
  (SystemRole.parse name).elim (.error (.of .notFound)) .ok

/-- The tables as committed, and the process that has locked the row of `instance`. -/
structure Shared where
  assignments : Assignments := ∅
  users : Table UserRow := ∅
  /-- The names of remotehub's own groups. -/
  groups : Table String := ∅
  setupCompleted : Bool := false
  setupAdministrator : Option Uuid := none
  lock : Option Nat := none

namespace Shared

variable (s : Shared)

/-- `PrincipalId::check`. -/
def check (kind : String) : PrincipalId → Bool
  | .directory _ => kind = "user" ∨ kind = "group"
  | .account identity =>
    kind = "user" ∧ ∃ e ∈ s.users.entries, e.2.identityId = some identity ∧ e.2.kind = .account
  | .group id => kind = "group" ∧ id ∈ s.groups

/-- What `DELETE FROM role_assignments WHERE principal_sid = $1` finds. -/
def assignmentsOf (principal : PrincipalId) : List (SystemRole × PrincipalId) :=
  s.assignments.keys.filter fun key => key.2 = principal

/-- The commit of what a `DELETE` found. -/
def drop (found : List (SystemRole × PrincipalId)) : Shared :=
  { s with assignments := found.foldl (fun rows key => rows.erase key) s.assignments }

/-- The end of a transaction. -/
def release (k : Nat) : Shared := if s.lock = some k then { s with lock := none } else s

end Shared

/-- The setup wizard's request: whether its code is the open one, and what Kratos answers (the
identity of the invited account, unless it fails) and the user that is added for it. -/
structure Setup where
  codeFits : Bool
  invitation : Option Uuid
  userId : Uuid
  name : String

/-- How far a request is. -/
inductive Flight
  | assign (session : Session) (role : String) (principal : PrincipalId) (kind name : String)
  | assigning (role : SystemRole) (principal : PrincipalId) (row : Assignment)
  | revoke (session : Session) (role : String) (principal : PrincipalId)
  /-- The transaction has begun. -/
  | revoking (role : SystemRole) (principal : PrincipalId)
  /-- For administrators the row of `instance` is locked. -/
  | locked (role : SystemRole) (principal : PrincipalId)
  /-- The `DELETE` has found the assignment. -/
  | removed (role : SystemRole) (principal : PrincipalId)
  /-- Another administrator is left. -/
  | counted (role : SystemRole) (principal : PrincipalId)
  | deleteGroup (session : Session) (id : Uuid)
  | groupFound (id : Uuid)
  | groupCleared (id : Uuid) (found : List (SystemRole × PrincipalId))
  /-- `kratos` says whether Kratos deletes the identity. -/
  | deleteUser (session : Session) (id : Uuid) (kratos : Bool)
  | userFound (id : Uuid) (identity : Uuid)
  | userCleared (id : Uuid) (found : List (SystemRole × PrincipalId))
  | setup (r : Setup)
  /-- The row of `instance` is locked, and the account of an earlier code is known. -/
  | settingUp (r : Setup) (previous : Option (Uuid × Option Uuid))
  | setupCleared (r : Setup) (previous : Option (Uuid × Option Uuid))
      (found : List (SystemRole × PrincipalId))

/-- Takes the row of `instance`; `none` when it has to wait. -/
def Shared.acquire (s : Shared) (k : Nat) : Option Shared :=
  if s.lock = none then some { s with lock := some k } else none

/-- The user an earlier code made administrator: gone with the new code unless they signed in. -/
def Shared.earlier (s : Shared) : Answer (Option (Uuid × Option Uuid)) :=
  match s.setupAdministrator with
  | none => .ok none
  | some user =>
    match s.users.lookup user with
    | none => .error (.of .internal)
    | some row => do
      refuse row.signedIn (.of .setupDone)
      return some (user, row.identityId)

/-- The user is deleted; the row stays. -/
def Shared.deleteUser (s : Shared) (user : Uuid) : Shared :=
  { s with users := s.users.modify user fun row => { row with kind := .deleted, identityId := none } }

namespace Flight

def isNew : Flight → Bool
  | .assign .. | .revoke .. | .deleteGroup .. | .deleteUser .. | .setup .. => true
  | _ => false

/-- The next statement of process `k`, the lock apart. -/
def statement (s : Shared) : Flight → Answer (Shared × Option Flight)
  | .assign session role principal kind name => do
    requireAdmin session
    let role ← Roles.role role
    refuse (!s.check kind principal) (invalid "principal_sid")
    let principalName ← Server.name name "principal_name"
    return (s, some (.assigning role principal { principalKind := kind, principalName }))
  | .assigning role principal row =>
    .ok (if (role, principal) ∈ s.assignments then s
      else { s with assignments := s.assignments.insert (role, principal) row }, none)
  | .revoke session role principal => do
    requireAdmin session
    return (s, some (.revoking (← Roles.role role) principal))
  | .revoking role principal => .ok (s, some (.locked role principal))
  | .locked role principal => do
    refuse ((role, principal) ∉ s.assignments) (.of .notFound)
    return (s, some (.removed role principal))
  | .removed role principal => do
    onlyIf (role = .administrator) (refuse
      (s.assignments.keys.countP (fun key => key.1 = role ∧ key ≠ (role, principal)) = 0)
      (.of .lastAdministrator))
    return (s, some (.counted role principal))
  | .counted role principal => .ok (s.drop [(role, principal)], none)
  | .deleteGroup session id => do
    requireAdmin session
    refuse (id ∉ s.groups) (.of .notFound)
    return (s, some (.groupFound id))
  | .groupFound id => .ok (s, some (.groupCleared id (s.assignmentsOf (.group id))))
  | .groupCleared id found => .ok ({ s.drop found with groups := s.groups.erase id }, none)
  | .deleteUser session id kratos => do
    requireAdmin session
    match s.users.lookup id with
    | none => .error (.of .notFound)
    | some row => do
      refuse (row.kind = .deleted) (.of .notFound)
      match row.identityId with
      | none => .error (invalid "kind")
      | some identity => do
        refuse (id = session.userId) (.of .forbidden)
        refuse (!kratos) (.of .accountsUnavailable)
        return (s, some (.userFound id identity))
  | .userFound id identity => .ok (s, some (.userCleared id (s.assignmentsOf (.account identity))))
  | .userCleared id found => .ok ((s.drop found).deleteUser id, none)
  | .setup r => do
    refuse s.setupCompleted (.of .setupDone)
    refuse (!r.codeFits) (.of .setupCodeInvalid)
    return (s, some (.settingUp r (← s.earlier)))
  | .settingUp r previous =>
    .ok (s, some (.setupCleared r previous
      ((previous.bind (·.2)).elim [] fun identity => s.assignmentsOf (.account identity))))
  | .setupCleared r previous found =>
    match r.invitation with
    | none => .error (.of .accountsUnavailable)
    | some identity => do
      let s := previous.elim s fun user => (s.drop found).deleteUser user.1
      refuse ((.administrator, .account identity) ∈ s.assignments) (.of .internal)
      return ({ s with
                users := s.users.insert r.userId
                  { kind := .account, identityId := some identity, signedIn := false },
                assignments := s.assignments.insert (.administrator, .account identity)
                  { principalKind := "user", principalName := r.name },
                setupAdministrator := some r.userId }, none)

/-- The statement is `SELECT ... FROM instance FOR UPDATE`. -/
def locks : Flight → Bool
  | .revoking .administrator _ | .setup _ => true
  | _ => false

/-- The next statement of process `k`: `none` when it waits for the lock. A request that is over
ends its transaction, one that fails changes nothing else. -/
def next (k : Nat) (s : Shared) (f : Flight) : Option (Shared × Option Flight) :=
  (if f.locks then s.acquire k else some s).bind fun s =>
    match f.statement s with
    | .ok (s, some f) => some (s, some f)
    | .ok (s, none) => some (s.release k, none)
    | .error (.problem _) => some (s.release k, none)
    | .error .endless => none

end Flight

/-- Groups and accounts come and go otherwise: sign-ins, new groups, invitations, the end of the
setup. -/
inductive Outside
  | elsewhere (users : Table UserRow) (groups : Table String) (setupCompleted : Bool)

def Shared.outside (s : Shared) : Outside → Option Shared
  | .elsewhere users groups setupCompleted => some { s with users, groups, setupCompleted }

def system : Interleave.System Shared Flight Outside where
  starts := Flight.isNew
  next := Flight.next
  outside := Shared.outside

end Roles

end Server
