import RemoteHub.Server.Vaults

/-!
# Recoveries of personal vaults (`crates/server/src/api/recovery.rs`)

An administrator asks for a recovery, a security officer who did not ask approves it, and for a day the
requester gets the sealed vault and completes the recovery. Here one request follows another; what the
owners do with their vaults and the administrators with the recovery keys in between is an event of its
own that can leave any rows.

`State.log` has the requests that changed a recovery, in their order. A recovery's id is new
(`gen_random_uuid`).
-/

namespace Server.Recovery

open Model Except Vaults

/-- What a request did to a recovery. -/
inductive What
  | requested | approved | cancelled | completed
  deriving DecidableEq, Repr

structure Entry where
  what : What
  recovery : Uuid
  /-- Whose vault it is. -/
  owner : Uuid
  session : Session
  at' : Int
  deriving DecidableEq

structure State where
  now : Int
  vaults : Tables := {}
  recoveries : Table RecoveryRow := ∅
  log : List Entry := []

inductive Request
  | create (id : Uuid) (user : Uuid) (kind reason : String)
  | approve (id : Uuid)
  | cancel (id : Uuid)
  | vault (id : Uuid)
  | attachment (id file : Uuid)
  /-- `unlock` is the id of the row that it adds. -/
  | complete (id : Uuid) (wrappedKey : Option Bytes) (unlock : Uuid)

inductive Response
  | created (id : Uuid)
  | noContent
  | sealedVault (unlock : UnlockRow) (key : KeyRow) (entries : List (Uuid × SealedRow))
  | sealedFile (file : SealedRow)

namespace State

variable (s : State) (session : Session)

/-- A change of a recovery. -/
def write (what : What) (id owner : Uuid) (recoveries : Table RecoveryRow) : State :=
  { s with recoveries, log := s.log ++ [⟨what, id, owner, session, s.now⟩] }

def recovery (id : Uuid) : Answer RecoveryRow :=
  (s.recoveries.lookup id).elim (.error (.of .notFound)) .ok

def create (id user : Uuid) (kind reason : String) : Answer (Response × State) := do
  session.requireAdmin
  let (kind, reason) ← checkedRecovery kind reason
  refuse (¬s.vaults.Covered user) (.of .vaultNotCovered)
  refuse (OpenFor s.recoveries user) (.of .recoveryOpen)
  let row : RecoveryRow :=
    { userId := user, kind, reason, createdAt := s.now
      requesterId := session.userId
      requesterName := session.username }
  return (.created id, s.write session .requested id user (s.recoveries.insert id row))

/-- The second person: a security officer who did not ask. -/
def approve (id : Uuid) : Answer (Response × State) := do
  refuse (session.hasRole .securityOfficer = false) (.of .forbidden)
  let found ← s.recovery id
  refuse (found.requesterId = session.userId) (.of .ownRequest)
  refuse (found.approvedAt ≠ none ∨ found.completedAt ≠ none) (.of .requestDecided)
  let row := { found with approverName := some session.username, approvedAt := some s.now }
  return (.noContent, s.write session .approved id found.userId (s.recoveries.insert id row))

/-- Takes back a recovery not carried out. -/
def cancel (id : Uuid) : Answer (Response × State) := do
  session.requireAdmin
  let found ← s.recovery id
  refuse (found.completedAt ≠ none) (.of .notFound)
  return (.noContent, s.write session .cancelled id found.userId (s.recoveries.erase id))

/-- A recovery the caller may carry out now: theirs, approved, within its day. -/
def ready (id : Uuid) : Answer RecoveryRow := do
  session.requireAdmin
  let found ← s.recovery id
  refuse (found.requesterId ≠ session.userId) (.of .forbidden)
  refuse (found.status s.now ≠ .approved) (.of .recoveryNotReady)
  return found

/-- The vault key wrapped for the organisation, and the sealed entries. -/
def vault (id : Uuid) : Answer (Response × State) := do
  let found ← s.ready session id
  let (unlock, key) ←
    (s.vaults.organisationUnlock found.userId).elim (.error (.of .vaultNotCovered)) .ok
  return (.sealedVault unlock key (s.vaults.entriesOf found.userId), s)

/-- A sealed file of the vault being recovered. -/
def attachment (id file : Uuid) : Answer (Response × State) := do
  let found ← s.ready session id
  let file ← ((s.vaults.attachments.lookup file).filter (·.userId = found.userId)).elim
    (.error (.of .notFound)) .ok
  return (.sealedFile file, s)

/-- The owner's recovery key is replaced. -/
def replaceKey (user : Uuid) (wrappedKey : Bytes) (unlock : Uuid) : Tables :=
  let others := s.vaults.unlocks.entries.filter fun e =>
    ¬(e.2.userId = user ∧ e.2.kind = .recovery)
  { s.vaults with
    unlocks := (HashMap.collect (others.map fun e => (e.1, e.2))).insert unlock
      (oneTimeRow user wrappedKey) }

/-- Ends a recovery. -/
def complete (id : Uuid) (wrappedKey : Option Bytes) (unlock : Uuid) :
    Answer (Response × State) := do
  let found ← s.ready session id
  refuse (found.completedAt ≠ none) (.of .recoveryNotReady)
  let row := { found with completedAt := some s.now }
  let done := s.write session .completed id found.userId (s.recoveries.insert id row)
  match found.kind with
  | .passphrase =>
    let wrappedKey ← oneTimeKey wrappedKey
    return (.noContent, { done with vaults := s.replaceKey found.userId wrappedKey unlock })
  | .handover => return (.noContent, done)

def handle : Request → Answer (Response × State)
  | .create id user kind reason => s.create session id user kind reason
  | .approve id => s.approve session id
  | .cancel id => s.cancel session id
  | .vault id => s.vault session id
  | .attachment id file => s.attachment session id file
  | .complete id wrappedKey unlock => s.complete session id wrappedKey unlock

end State

inductive Event
  | request (session : Session) (request : Request)
  | tick (now : Int)
  /-- What the owners have made of their vaults, and the recovery keys. -/
  | stored (vaults : Tables)

/-- The id of a new recovery is new. -/
def State.New (s : State) : Request → Prop
  | .create id .. => ∀ e ∈ s.log, e.recovery ≠ id
  | _ => True

instance (s : State) : (request : Request) → Decidable (s.New request)
  | .create id .. => inferInstanceAs (Decidable (∀ e ∈ s.log, e.recovery ≠ id))
  | .approve _ | .cancel _ | .vault _ | .attachment _ _ | .complete _ _ _ => .isTrue trivial

/-- A refused request leaves everything as it was. -/
def step (s : State) : Event → Option State
  | .request session request =>
    if s.New request then
      match s.handle session request with
      | .ok (_, s') => some s'
      | .error _ => some s
    else none
  | .tick now => if s.now ≤ now then some { s with now } else none
  | .stored vaults => some { s with vaults }

end Server.Recovery
