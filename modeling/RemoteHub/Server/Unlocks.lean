import RemoteHub.Lib.Interleave
import RemoteHub.Server.Recovery

/-!
# Vaults in flight (`crates/server/src/api/personal.rs`, `recovery.rs`)

What changes unlocks, entries, recovery keys and recoveries, statement by statement at READ COMMITTED.
What a transaction writes is there for the others when it commits. A `DELETE` and a `FOR UPDATE` find
the rows that are committed when they begin; they wait for the rows that another transaction has locked,
and go on with those that are still there (`found`, then the step that locks). `approve` and `cancel`
write one row in one statement, which is a step with its commit.

A unique index makes an `INSERT` wait for a transaction that has inserted or is about to delete the same
key. `LOCK TABLE recovery_keys` is in the modes of the code, `INSERT` and `DELETE` take ROW EXCLUSIVE.

The reader of UUIDs, the decoder of base64 and the check of a public key are parameters (`Crates`).
-/

namespace Server.Unlocks

open Model Except Vaults
open Interleave (Locks Modes)

structure Crates where
  /-- `Uuid::parse_str`. -/
  uuid : String → Option Uuid
  /-- `STANDARD.decode`. -/
  base64 : String → Option Bytes
  /-- `escrow::is_public_key`. -/
  isPublicKey : Bytes → Bool

/-! ## Checks -/

structure NewUnlock where
  kind : String
  params : Json
  wrappedKey : Bytes
  label : String := ""

/-- What `add_unlock` checks before its transaction. -/
def NewUnlock.check (input : NewUnlock) (user : Uuid) : Answer UnlockRow := do
  let kind ← (UnlockKind.parse input.kind).elim (.error (invalid "kind")) .ok
  refuse (input.params.isObject = false ∨ 2048 < (Text.utf8 (.ofList input.params.write)).length)
    (invalid "params")
  refuse (¬(16 ≤ input.wrappedKey.length ∧ input.wrappedKey.length ≤ 256)) (invalid "wrapped_key")
  let label := Text.trim input.label
  refuse (100 < label.length) (invalid "label")
  return { userId := user, kind, params := input.params, wrappedKey := input.wrappedKey, label }

/-- A string in the params. -/
def param (params : Json) (name : String) : Option String := (params.field name).bind Json.asStr

/-- A wrap for the organisation is only for the newest key. -/
def checkOrganisation (crates : Crates) (t : Tables) (params : Json) : Answer Unit := do
  let newest := t.organisationKey.map (·.1)
  let named := (param params "key_id").bind crates.uuid
  refuse (newest = none ∨ named ≠ newest) (invalid "params")
  let point := (param params "ephemeral").bind crates.base64
  refuse (point.map List.length ≠ some 65) (invalid "params")

/-- `input.nonce` and `input.ciphertext` of `save_entry`. -/
def checkEntry (nonce ciphertext : Bytes) : Answer Unit := do
  refuse (nonce.length ≠ 12) (invalid "nonce")
  refuse (¬(16 ≤ ciphertext.length ∧ ciphertext.length ≤ 65536)) (invalid "ciphertext")

/-- What `remove_unlock` checks of the rows that it has locked. -/
def checkRemoval (id : Uuid) (kinds : List (Uuid × UnlockKind)) : Answer Unit := do
  let kind ← ((kinds.find? (·.1 = id)).map (·.2)).elim (.error (.of .notFound)) .ok
  refuse (kind = .organisation) (.of .forbidden)
  refuse (kinds.countP (fun k => decide (k.2 ≠ .organisation)) = 1) (.of .lastUnlock)

/-! ## Transactions -/

/-- The mode of a lock of `recovery_keys`. -/
inductive Mode
  | rowExclusive | share | exclusive
  deriving DecidableEq, Repr

def Mode.conflicts : Mode → Mode → Bool
  | .rowExclusive, .rowExclusive | .share, .share => false
  | _, _ => true

/-- An unlock that replaces the one of its kind, if there can be but one. -/
structure Replacement where
  /-- Of the new row. -/
  id : Uuid
  row : UnlockRow
  /-- The recovery that ends with it, and when. -/
  completes : Option (Uuid × Int) := none

/-- What `reset` has found so far, or has locked. -/
structure Reset where
  user : Uuid
  entries : List Uuid := []
  attachments : List Uuid := []
  unlocks : List Uuid := []
  deriving DecidableEq

/-- How far a request is. -/
inductive Flight
  | addUnlock (session : Session) (id : Uuid) (input : NewUnlock)
  | adding (r : Replacement)
  /-- `LOCK TABLE recovery_keys IN SHARE MODE`. -/
  | sharing (r : Replacement)
  | replacing (r : Replacement)
  | found (r : Replacement) (ids : List Uuid)
  /-- The rows `ids` are deleted. -/
  | deleted (r : Replacement) (ids : List Uuid)
  | inserted (r : Replacement) (ids : List Uuid)
  | removeUnlock (session : Session) (id : Uuid)
  | removing (user id : Uuid) (ids : List Uuid)
  /-- The rows of `kinds` are locked, and the one of `id` is deleted. -/
  | removed (user id : Uuid) (kinds : List (Uuid × UnlockKind))
  | saveEntry (session : Session) (id : Uuid) (nonce ciphertext : Bytes)
  /-- A way to unlock was there; `seen` resets of the vault were committed then. -/
  | saving (id : Uuid) (row : SealedRow) (seen : Nat)
  | saved (id : Uuid) (row : SealedRow) (seen : Nat)
  | reset (session : Session)
  /-- `DELETE FROM personal_entries` has found what it deletes. -/
  | resetting (r : Reset)
  | resetEntries (r : Reset)
  | resetAttachments (r : Reset)
  | resetFound (r : Reset)
  | resetUnlocks (r : Reset)
  | createKey (session : Session) (id : Uuid) (publicKey : Bytes)
  | creatingKey (id : Uuid) (row : KeyRow)
  | createdKey (id : Uuid) (row : KeyRow)
  | deleteKey (session : Session) (id : Uuid)
  | deletingKey (id : Uuid)
  /-- `LOCK TABLE recovery_keys IN EXCLUSIVE MODE`. -/
  | keyLocked (id : Uuid)
  | keyRead (id newest : Uuid)
  | keyUnused (id : Uuid)
  | keyDeleted (id : Uuid)
  | create (session : Session) (id user : Uuid) (kind reason : String)
  | covered (id : Uuid) (row : RecoveryRow)
  | created (id : Uuid) (row : RecoveryRow)
  | approve (session : Session) (id : Uuid)
  | approving (session : Session) (id : Uuid)
  | cancel (session : Session) (id : Uuid)
  | complete (session : Session) (id : Uuid) (wrappedKey : Option Bytes) (unlock : Uuid)
  | ready (id : Uuid) (found : RecoveryRow) (wrappedKey : Option Bytes) (unlock : Uuid)
  /-- The transaction of `complete` began at `at'`. -/
  | completing (id : Uuid) (found : RecoveryRow) (wrappedKey : Option Bytes) (unlock : Uuid) (at' : Int)
  | handedOver (id : Uuid) (at' : Int)
  | vault (session : Session) (id : Uuid)
  /-- The recovery is ready. -/
  | opening (user : Uuid)
  /-- The unlock was found: the entries are read. -/
  | opened (user : Uuid) (unlock : UnlockRow) (key : KeyRow)

def Flight.isNew : Flight → Bool
  | .addUnlock .. | .removeUnlock .. | .saveEntry .. | .reset .. | .createKey .. | .deleteKey ..
  | .create .. | .approve .. | .cancel .. | .complete .. | .vault .. => true
  | _ => false

structure Shared where
  clock : Int
  tables : Tables := {}
  recoveries : Table RecoveryRow := ∅
  /-- Of the table `recovery_keys`. -/
  keyLocks : Modes Mode := []
  unlockLocks : Locks Uuid := fun _ => none
  /-- Of `personal_vault_unlocks_single`. -/
  kindLocks : Locks (Uuid × UnlockKind) := fun _ => none
  entryLocks : Locks Uuid := fun _ => none
  recoveryLocks : Locks Uuid := fun _ => none
  /-- Of `vault_recoveries_open`. -/
  openLocks : Locks Uuid := fun _ => none
  /-- Whose vault was reset, each time. -/
  resets : List Uuid := []
  givenUp : List Nat := []

/-- Whether an unlock is the user's, of the kind. -/
def UnlockRow.Is (user : Uuid) (kind : UnlockKind) (row : UnlockRow) : Prop :=
  row.userId = user ∧ row.kind = kind

instance (user : Uuid) (kind : UnlockKind) : DecidablePred (UnlockRow.Is user kind) := fun row =>
  inferInstanceAs (Decidable (row.userId = user ∧ row.kind = kind))

namespace Shared

variable (s : Shared) (k : Nat)

/-- As one request after another reads it. -/
def state : Recovery.State where
  now := s.clock
  vaults := s.tables
  recoveries := s.recoveries

/-- The request is over; its transaction has committed, or is rolled back. -/
def close : Option (Shared × Option Flight) :=
  some ({ s with
    keyLocks := s.keyLocks.release k
    unlockLocks := s.unlockLocks.release k
    kindLocks := s.kindLocks.release k
    entryLocks := s.entryLocks.release k
    recoveryLocks := s.recoveryLocks.release k
    openLocks := s.openLocks.release k }, none)

/-- The request goes on, or is refused. -/
def attempt (answer : Answer Flight) : Option (Shared × Option Flight) :=
  match answer with
  | .ok f => some (s, some f)
  | .error _ => s.close k

/-- Locks `recovery_keys`. -/
def lockKeys (mode : Mode) (f : Flight) : Option (Shared × Option Flight) :=
  (s.keyLocks.acquire Mode.conflicts k mode).map fun keyLocks => ({ s with keyLocks }, some f)

/-- Locks the unlocks that a statement has found, of those that are still there. -/
def lockUnlocks (ids : List Uuid) (f : Flight) : Option (Shared × Option Flight) :=
  (s.unlockLocks.acquireAll k ids).map fun unlockLocks => ({ s with unlockLocks }, some f)

def lockEntries (ids : List Uuid) (f : Flight) : Option (Shared × Option Flight) :=
  (s.entryLocks.acquireAll k ids).map fun entryLocks => ({ s with entryLocks }, some f)

/-- The unlocks of the user. -/
def unlocksOf (user : Uuid) : List Uuid := s.tables.unlocks.keysWhere (·.userId = user)

def entriesOf (user : Uuid) : List Uuid := s.tables.entries.keysWhere (·.userId = user)

/-- The unlocks for the organisation that name the key. -/
def usesOf (id : Uuid) : List Uuid :=
  s.tables.unlocks.keysWhere fun row =>
    row.kind = .organisation ∧ row.keyId = some (Text.uuidText id)

/-- The unlock that one of its kind replaces. -/
def replacedBy (row : UnlockRow) : List Uuid :=
  s.tables.unlocks.keysWhere (UnlockRow.Is row.userId row.kind)

/-- The rows that a new one may not be next to, when the rows `ids` are deleted. -/
def rivals (row : UnlockRow) (ids : List Uuid) : List Uuid :=
  if row.kind = .passkey then [] else (s.replacedBy row).filter (· ∉ ids)

/-- The key of a new row in the unique index. -/
def lockKind (row : UnlockRow) : Option (Locks (Uuid × UnlockKind)) :=
  if row.kind = .passkey then some s.kindLocks else s.kindLocks.acquire k (row.userId, row.kind)

/-- `INSERT INTO personal_vault_unlocks`, after the rows `ids` were deleted. -/
def insertUnlock (r : Replacement) (ids : List Uuid) : Option (Shared × Option Flight) :=
  if s.rivals r.row ids ≠ [] then
    -- a violation, unless the one who has locked the row deletes it
    if ∀ id ∈ s.rivals r.row ids, s.unlockLocks id = none then s.close k else none
  else if r.id ∈ s.tables.unlocks then none
  else (s.unlockLocks.acquire k r.id).bind fun unlockLocks =>
    (s.lockKind k r.row).map fun kindLocks =>
      ({ s with unlockLocks, kindLocks }, some (.inserted r ids))

/-- The locked unlocks of the user with their kinds. -/
def kindsOf (ids : List Uuid) : List (Uuid × UnlockKind) :=
  ids.filterMap fun id => (s.tables.unlocks.lookup id).map fun row => (id, row.kind)

/-- `INSERT .. ON CONFLICT (id) DO UPDATE` of an entry. -/
def upsertEntry (id : Uuid) (row : SealedRow) (seen : Nat) : Option (Shared × Option Flight) :=
  (s.entryLocks.acquire k id).bind fun entryLocks =>
    { s with entryLocks }.attempt k do
      refuse ((s.tables.entries.lookup id).any fun old : SealedRow => old.userId ≠ row.userId)
        (.of .notFound)
      return .saved id row seen

/-- The recoveries of the user that are not completed. -/
def openOf (user : Uuid) : List Uuid :=
  s.recoveries.keysWhere fun row => row.userId = user ∧ row.completedAt = none

/-- `INSERT INTO vault_recoveries`. -/
def insertRecovery (id : Uuid) (row : RecoveryRow) : Option (Shared × Option Flight) :=
  if s.openOf row.userId ≠ [] then
    if ∀ id ∈ s.openOf row.userId, s.recoveryLocks id = none then s.close k else none
  else if id ∈ s.recoveries then none
  else (s.recoveryLocks.acquire k id).bind fun recoveryLocks =>
    (s.openLocks.acquire k row.userId).map fun openLocks =>
      ({ s with recoveryLocks, openLocks }, some (.created id row))

/-- `UPDATE vault_recoveries SET completed_at = now()`. -/
def completeRow (id : Uuid) (found : RecoveryRow) (wrappedKey : Option Bytes) (unlock : Uuid)
    (at' : Int) : Option (Shared × Option Flight) :=
  if (s.recoveries.lookup id).all (·.completedAt ≠ none) then s.close k
  else (s.recoveryLocks.acquire k id).bind fun recoveryLocks =>
    { s with recoveryLocks }.attempt k do
      match found.kind with
      | .handover => return .handedOver id at'
      | .passphrase =>
        let wrappedKey ← oneTimeKey wrappedKey
        return .replacing ⟨unlock, oneTimeRow found.userId wrappedKey, some (id, at')⟩

/-! ## Commits -/

/-- The recovery is completed. -/
def completed (id : Uuid) (at' : Int) : Table RecoveryRow :=
  s.recoveries.modify id fun row => { row with completedAt := some at' }

def commitUnlock (r : Replacement) (ids : List Uuid) : Shared :=
  { s with
    tables := { s.tables with unlocks := (s.tables.unlocks.eraseAll ids).insert r.id r.row }
    recoveries := r.completes.elim s.recoveries fun done => s.completed done.1 done.2 }

def commitRemoval (id : Uuid) : Shared :=
  { s with tables := { s.tables with unlocks := s.tables.unlocks.eraseAll [id] } }

/-- An entry that was there keeps the time at which it was created. -/
def commitEntry (id : Uuid) (row : SealedRow) : Shared :=
  let createdAt := ((s.tables.entries.lookup id).map (·.createdAt)).getD row.createdAt
  { s with tables := { s.tables with entries := s.tables.entries.insert id { row with createdAt } } }

def commitReset (r : Reset) : Shared :=
  { s with
    tables :=
      { s.tables with
        entries := s.tables.entries.eraseAll r.entries
        attachments := s.tables.attachments.eraseAll r.attachments
        unlocks := s.tables.unlocks.eraseAll r.unlocks }
    resets := r.user :: s.resets }

def withKeys (keys : Table KeyRow) : Shared := { s with tables := { s.tables with keys } }

/-- `UPDATE vault_recoveries` in `approve`, with its commit. -/
def approveRow (session : Session) (id : Uuid) : Option (Shared × Option Flight) :=
  if (s.recoveries.lookup id).all fun row => row.approvedAt ≠ none ∨ row.completedAt ≠ none then
    s.close k
  else (s.recoveryLocks.acquire k id).bind fun _ =>
    { s with
      recoveries := s.recoveries.modify id fun row =>
        { row with approverName := some session.username, approvedAt := some s.clock } }.close k

/-- `DELETE FROM vault_recoveries` in `cancel`, with its commit. -/
def cancelRow (id : Uuid) : Option (Shared × Option Flight) :=
  if (s.recoveries.lookup id).all (·.completedAt ≠ none) then s.close k
  else (s.recoveryLocks.acquire k id).bind fun _ =>
    { s with recoveries := s.recoveries.erase id }.close k

end Shared

/-- The next statement of request `k`; `none` while it waits. -/
def Flight.statement (crates : Crates) (k : Nat) (s : Shared) :
    Flight → Option (Shared × Option Flight)
  | .addUnlock session id input => s.attempt k do
    return .adding { id, row := ← input.check session.userId }
  | .adding r =>
    if r.row.kind = .organisation then s.lockKeys k .share (.sharing r)
    else some (s, some (.replacing r))
  | .sharing r => s.attempt k do
    checkOrganisation crates s.tables r.row.params
    return .replacing r
  | .replacing r =>
    if r.row.kind = .passkey then some (s, some (.deleted r []))
    else some (s, some (.found r (s.replacedBy r.row)))
  | .found r ids =>
    let ids := ids.filter (· ∈ s.replacedBy r.row)
    s.lockUnlocks k ids (.deleted r ids)
  | .deleted r ids => s.insertUnlock k r ids
  | .inserted r ids => (s.commitUnlock r ids).close k
  | .removeUnlock session id => some (s, some (.removing session.userId id (s.unlocksOf session.userId)))
  | .removing user id ids =>
    let ids := ids.filter (· ∈ s.unlocksOf user)
    (s.unlockLocks.acquireAll k ids).bind fun unlockLocks =>
      { s with unlockLocks }.attempt k do
        checkRemoval id (s.kindsOf ids)
        return .removed user id (s.kindsOf ids)
  | .removed _ id _ => (s.commitRemoval id).close k
  | .saveEntry session id nonce ciphertext => s.attempt k do
    checkEntry nonce ciphertext
    refuse (s.unlocksOf session.userId = []) (invalid "vault")
    return .saving id ⟨session.userId, nonce, ciphertext, s.clock⟩ (s.resets.count session.userId)
  | .saving id row seen => s.upsertEntry k id row seen
  | .saved id row _ => (s.commitEntry id row).close k
  | .reset session =>
    some (s, some (.resetting { user := session.userId, entries := s.entriesOf session.userId }))
  | .resetting r =>
    let entries := r.entries.filter (· ∈ s.entriesOf r.user)
    s.lockEntries k entries (.resetEntries { r with entries })
  | .resetEntries r =>
    let attachments := s.tables.attachments.keysWhere (·.userId = r.user)
    some (s, some (.resetAttachments { r with attachments }))
  | .resetAttachments r => some (s, some (.resetFound { r with unlocks := s.unlocksOf r.user }))
  | .resetFound r =>
    let unlocks := r.unlocks.filter (· ∈ s.unlocksOf r.user)
    s.lockUnlocks k unlocks (.resetUnlocks { r with unlocks })
  | .resetUnlocks r => (s.commitReset r).close k
  | .createKey session id publicKey => s.attempt k do
    session.requireAdmin
    refuse (crates.isPublicKey publicKey = false) (invalid "public_key")
    return .creatingKey id ⟨publicKey, session.username, s.clock⟩
  | .creatingKey id row => s.lockKeys k .rowExclusive (.createdKey id row)
  | .createdKey id row =>
    if id ∈ s.tables.keys then none
    else (s.withKeys (s.tables.keys.insert id row)).close k
  | .deleteKey session id => s.attempt k do
    session.requireAdmin
    return .deletingKey id
  | .deletingKey id => s.lockKeys k .exclusive (.keyLocked id)
  | .keyLocked id => s.attempt k do
    let newest ← s.tables.organisationKey.elim (.error (.of .notFound)) .ok
    return .keyRead id newest.1
  | .keyRead id newest => s.attempt k do
    refuse (s.usesOf id ≠ [] ∨ newest = id) (.of .recoveryKeyInUse)
    return .keyUnused id
  | .keyUnused id => s.attempt k do
    refuse (id ∉ s.tables.keys) (.of .notFound)
    return .keyDeleted id
  | .keyDeleted id => (s.withKeys (s.tables.keys.erase id)).close k
  | .create session id user kind reason => s.attempt k do
    session.requireAdmin
    let (kind, reason) ← checkedRecovery kind reason
    refuse (¬s.tables.Covered user) (.of .vaultNotCovered)
    return .covered id
      { userId := user, kind, reason, createdAt := s.clock
        requesterId := session.userId
        requesterName := session.username }
  | .covered id row => s.insertRecovery k id row
  | .created id row => { s with recoveries := s.recoveries.insert id row }.close k
  | .approve session id => s.attempt k do
    refuse (session.hasRole .securityOfficer = false) (.of .forbidden)
    let row ← s.state.recovery id
    refuse (row.requesterId = session.userId) (.of .ownRequest)
    return .approving session id
  | .approving session id => s.approveRow k session id
  | .cancel session id =>
    match session.requireAdmin with
    | .error _ => s.close k
    | .ok _ => s.cancelRow k id
  | .complete session id wrappedKey unlock => s.attempt k do
    return .ready id (← s.state.ready session id) wrappedKey unlock
  | .ready id row wrappedKey unlock =>
    some (s, some (.completing id row wrappedKey unlock s.clock))
  | .completing id row wrappedKey unlock at' => s.completeRow k id row wrappedKey unlock at'
  | .handedOver id at' => { s with recoveries := s.completed id at' }.close k
  | .vault session id => s.attempt k do
    return .opening (← s.state.ready session id).userId
  | .opening user => s.attempt k do
    let (unlock, key) ← (s.tables.organisationUnlock user).elim (.error (.of .vaultNotCovered)) .ok
    return .opened user unlock key
  | .opened _ _ _ => s.close k

/-- The next step of request `k`; one that is given up is rolled back. -/
def Flight.next (crates : Crates) (k : Nat) (s : Shared) (f : Flight) :
    Option (Shared × Option Flight) :=
  if k ∈ s.givenUp then s.close k else f.statement crates k s

inductive Outside
  | tick (clock : Int)
  /-- A request is given up, or its transaction fails. -/
  | giveUp (k : Nat)
  /-- Sealed files are saved and deleted. -/
  | attach (attachments : Table SealedRow)

def Shared.outside (s : Shared) : Outside → Option Shared
  | .tick clock => if s.clock ≤ clock then some { s with clock } else none
  | .giveUp k => some { s with givenUp := k :: s.givenUp }
  | .attach attachments => some { s with tables := { s.tables with attachments } }

def system (crates : Crates) : Interleave.System Shared Flight Outside where
  starts := Flight.isNew
  next := Flight.next crates
  outside := Shared.outside

end Server.Unlocks
