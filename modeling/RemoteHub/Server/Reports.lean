import RemoteHub.Server.Roles
import RemoteHub.Lib.Bytes
import RemoteHub.Lib.Run

/-!
# Who a user is: sessions, the access overview and the user report

The memberships and roles of a user are computed three times: for a session (`by_hash` in
`crates/server/src/session.rs`), for the Access page (`overview` in `crates/server/src/api/access.rs`) and
for the report about a user (`user` in `crates/server/src/api/reports.rs`). Principals are texts here, as
the tables have them: a SID, `local:<identity>` or `group:<id>`.

Whether a session is open or locked is not asked here. `Write` are the statements that change users and
sessions; members of groups and roles may change in any way.
-/

namespace Server.Reports

open Model

structure UserRow where
  kind : UserKind
  sid : Option String
  identityId : Option Uuid
  deriving DecidableEq

/-- `groups` are the directory groups of the sign-in or the last refresh. -/
structure SessionRow where
  userId : Uuid
  groups : List String
  createdAt : Int
  deriving DecidableEq

structure Tables where
  users : Table UserRow := ∅
  sessions : Table SessionRow := ∅
  /-- `extension_codes`: a user and the groups of their session. -/
  codes : List (Uuid × List String) := []
  /-- `group_members`: group and principal. -/
  members : List (Uuid × String) := []
  /-- `role_assignments`: role and principal. -/
  assignments : List (String × String) := []

/-- `format!("local:{id}")` and `'local:' || identity_id`. -/
def localSid (identity : Uuid) : String := "local:" ++ Text.uuidText identity

/-- `format!("group:{id}")` and `'group:' || group_id`. -/
def groupSid (id : Uuid) : String := "group:" ++ Text.uuidText id

/-! ## Sessions -/

structure Session where
  kind : UserKind
  sid : Option String
  identityId : Option Uuid
  groups : List String
  memberships : List String
  roles : List String

namespace Session

variable (s : Session)

def hasRole (role : SystemRole) : Bool := s.roles.any (· = role.asStr)

def isAdmin : Bool := s.kind = .breakGlass || s.hasRole .administrator

def principal : Option String := s.sid.or (s.identityId.map localSid)

def sids : List String := s.groups ++ s.memberships ++ s.principal.toList

def subject : Subject where
  sids := s.sids.toFinset
  admin := s.isAdmin

end Session

namespace Tables

variable (t : Tables)

/-- `principal_sid = u.sid OR principal_sid = 'local:' || u.identity_id`. -/
def isUser (row : UserRow) (principal : String) : Bool :=
  row.sid = some principal || row.identityId.map localSid = some principal

/-- `by_hash`, of a session with these groups. -/
def byHash (row : UserRow) (groups : List String) : Session :=
  let memberships := ((t.members.filter fun m => m.2 ∈ groups || isUser row m.2).map (groupSid ·.1)).dedup
  { kind := row.kind
    sid := row.sid
    identityId := row.identityId
    groups
    memberships
    roles := ((t.assignments.filter fun r => r.2 ∈ groups ++ memberships || isUser row r.2).map (·.1)).dedup }

/-- `ORDER BY created_at DESC LIMIT 1`. -/
def later (latest : Option SessionRow) (session : SessionRow) : Option SessionRow :=
  if latest.all (·.createdAt < session.createdAt) then some session else latest

/-- The groups of the latest session. -/
def latestGroups (user : Uuid) : Option (List String) :=
  (((t.sessions.entries.map (·.2)).filter (·.userId = user)).foldl later none).map (·.groups)

end Tables

/-! ## The access overview -/

inductive Source
  | directory | own
  deriving DecidableEq

structure UserGroup where
  sid : String
  source : Source
  /-- The directory group through which the user is in an own group. -/
  via : Option String
  deriving DecidableEq

structure UserRole where
  role : String
  via : String
  deriving DecidableEq

structure User where
  kind : UserKind
  principal : Option String
  groups : List UserGroup
  roles : List UserRole

namespace Tables

variable (t : Tables)

/-- `in_own`: the own groups that a principal is a member of. -/
def inOwn : HashMap String (List Uuid) :=
  t.members.foldl (fun (m : HashMap String (List Uuid)) row => m.pushAt row.2 row.1) ∅

/-- `roles_of`. -/
def rolesOf : HashMap String (List String) :=
  t.assignments.foldl (fun (m : HashMap String (List String)) row => m.pushAt row.2 row.1) ∅

/-- The loop over one holder's own groups. -/
def addOwn (via : Option String) (acc : Finset Uuid × List UserGroup) (group : Uuid) : Finset Uuid × List UserGroup :=
  if group ∈ acc.1 then acc else (insert group acc.1, acc.2 ++ [⟨groupSid group, .own, via⟩])

def ownGroups (holders : List (String × Option String)) : List UserGroup :=
  (holders.foldl (fun acc holder => ((t.inOwn.lookup holder.1).getD []).foldl (addOwn holder.2) acc)
    ((∅ : Finset Uuid), [])).2

/-- A user with this principal and these directory groups. -/
def shown (kind : UserKind) (principal : Option String) (directory : List String) : User :=
  let holders := principal.toList.map (·, none) ++ directory.map fun sid => (sid, some sid)
  let groups := directory.map (⟨·, .directory, none⟩) ++ t.ownGroups holders
  let sids := principal.toList ++ groups.map (·.sid)
  { kind
    principal
    groups
    roles := sids.flatMap fun sid => ((t.rolesOf.lookup sid).getD []).map (⟨·, sid⟩) }

def shownPrincipal (row : UserRow) : Option String :=
  match row.kind, row.sid, row.identityId with
  | .directory, some sid, _ => some sid
  | _, _, some identity => some (localSid identity)
  | _, _, _ => none

/-- A user of `overview`; deleted ones are left out. -/
def overview (id : Uuid) (row : UserRow) : Option User :=
  if row.kind = .deleted then none
  else some (t.shown row.kind (shownPrincipal row) ((t.latestGroups id).getD []))

/-! ## The report about a user -/

/-- `directory_groups`: what the directory answers, or the groups of the last sign-in. -/
def directoryGroups (id : Uuid) (answer : Option (List String)) : List String :=
  answer.getD ((t.latestGroups id).getD [])

/-- `them` in `user`. -/
def report (id : Uuid) (row : UserRow) (answer : Option (List String)) : Session :=
  let groups := if row.kind = .directory then t.directoryGroups id answer else []
  let them : Session := ⟨row.kind, row.sid, row.identityId, groups, [], []⟩
  let named := them.groups ++ them.principal.toList
  let them : Session := { them with
    memberships := ((t.members.filter fun m => m.2 ∈ named).map (groupSid ·.1)).dedup }
  { them with roles := ((t.assignments.filter fun r => r.2 ∈ them.sids).map (·.1)).dedup }

end Tables

/-! ## What changes users and sessions -/

/-- A statement; ids are those the database gives. -/
inductive Write
  /-- `upsert_directory_user`, and the session with the groups of the sign-in. -/
  | signInDirectory (id : Uuid) (sid : String) (session : Uuid) (groups : List String) (now : Int)
  /-- `add_invited`. -/
  | invite (id identity : Uuid)
  /-- `upsert_local_user`, and the session. -/
  | signInLocal (id identity session : Uuid) (now : Int)
  /-- A break-glass account. -/
  | createBreakGlass (id : Uuid)
  | signInBreakGlass (id session : Uuid) (now : Int)
  /-- `delete` in `users.rs`, and an earlier administrator of the setup: accounts with an identity, or
  deleted by now. -/
  | deleteLocal (id : Uuid)
  | deleteBreakGlass (id : Uuid)
  /-- A code for the extension, of a session. -/
  | issueCode (session : Uuid)
  /-- The extension's session, for a code. -/
  | connectExtension (code : Uuid × List String) (session : Uuid) (now : Int)
  /-- `refresh::user`, of a session with a SID. -/
  | refresh (session : Uuid) (groups : List String)
  | endSession (session : Uuid)
  | setMembers (members : List (Uuid × String))
  | setAssignments (assignments : List (String × String))

namespace Tables

variable (t : Tables)

/-- `INSERT ... ON CONFLICT DO UPDATE ... RETURNING id`, where the update changes only names. -/
def upsert (id : Uuid) (row : UserRow) (same : UserRow → Bool) : Option (Tables × Uuid) :=
  match t.users.entries.find? fun e => same e.2 with
  | some e => some (t, e.1)
  | none => if id ∈ t.users then none else some ({ t with users := t.users.insert id row }, id)

def startSession (session user : Uuid) (groups : List String) (now : Int) : Tables :=
  { t with sessions := t.sessions.insert session ⟨user, groups, now⟩ }

def write : Write → Option Tables
  | .signInDirectory id sid session groups now =>
    (t.upsert id ⟨.directory, some sid, none⟩ fun row => row.sid = some sid).map fun r =>
      r.1.startSession session r.2 groups now
  | .invite id identity =>
    (t.upsert id ⟨.account, none, some identity⟩ fun row => row.identityId = some identity).map (·.1)
  | .signInLocal id identity session now =>
    (t.upsert id ⟨.account, none, some identity⟩ fun row => row.identityId = some identity).map fun r =>
      r.1.startSession session r.2 [] now
  | .createBreakGlass id =>
    if id ∈ t.users then none else some { t with users := t.users.insert id ⟨.breakGlass, none, none⟩ }
  | .signInBreakGlass id session now =>
    if (t.users.lookup id).any (·.kind = .breakGlass) then some (t.startSession session id [] now) else none
  | .deleteLocal id =>
    if (t.users.lookup id).any fun row => row.identityId.isSome || row.kind = .deleted then
      some { t with users := t.users.modify id fun row => { row with kind := .deleted, identityId := none } }
    else none
  | .deleteBreakGlass id =>
    if (t.users.lookup id).any fun row => row.kind = .breakGlass || row.kind = .deleted then
      some { t with users := t.users.modify id fun row => { row with kind := .deleted } }
    else none
  | .issueCode session =>
    (t.sessions.lookup session).map fun row => { t with codes := (row.userId, row.groups) :: t.codes }
  | .connectExtension code session now =>
    if code ∈ t.codes then some (t.startSession session code.1 code.2 now) else none
  | .refresh session groups =>
    (t.sessions.lookup session).bind fun row =>
      if (t.users.lookup row.userId).any (·.sid.isSome) then
        some { t with sessions := .collect (t.sessions.entries.map fun e =>
          (e.1, if e.2.userId = row.userId then { e.2 with groups } else e.2)) }
      else none
  | .endSession session => some { t with sessions := t.sessions.erase session }
  | .setMembers members => some { t with members }
  | .setAssignments assignments => some { t with assignments }

end Tables

end Server.Reports
