import Mathlib.Data.List.Sort
import RemoteHub.Lib.Bytes
import RemoteHub.Lib.Json
import RemoteHub.Server.Db
import RemoteHub.Server.Problem
import RemoteHub.Server.Roles

/-!
# Personal vaults (`crates/server/src/api/personal.rs`, `recovery.rs`)

The tables of the personal vaults and of their recoveries, and what the queries read of them. The
server keeps sealed entries and files, and the vault's key wrapped once for each way to unlock it; one of
these can be the organisation's recovery key, which its params name.

Times are in microseconds, and a day has 24 hours.
-/

namespace Server.Vaults

open Model Except

/-- `personal_vault_unlocks.kind`. -/
inductive UnlockKind
  | passkey | passphrase | recovery | organisation
  deriving DecidableEq, Repr

namespace UnlockKind

def asStr : UnlockKind → String
  | .passkey => "passkey"
  | .passphrase => "passphrase"
  | .recovery => "recovery"
  | .organisation => "organisation"

def parse (kind : String) : Option UnlockKind :=
  [passkey, passphrase, recovery, organisation].find? fun k => k.asStr = kind

end UnlockKind

structure UnlockRow where
  userId : Uuid
  kind : UnlockKind
  params : Json
  wrappedKey : Bytes
  label : String

namespace UnlockRow

variable (row : UnlockRow)

/-- `params->>'key_id'`. -/
def keyId : Option String := row.params.text "key_id"

/-- Whether it is the wrap for the organisation, of this user. -/
def Wraps (user : Uuid) : Prop := row.userId = user ∧ row.kind = .organisation

instance (user : Uuid) : Decidable (row.Wraps user) :=
  inferInstanceAs (Decidable (row.userId = user ∧ row.kind = .organisation))

end UnlockRow

structure KeyRow where
  publicKey : Bytes
  createdByName : String
  createdAt : Int
  deriving DecidableEq

/-- A row of `personal_entries`, or of `personal_attachments`. -/
structure SealedRow where
  userId : Uuid
  nonce : Bytes
  ciphertext : Bytes
  createdAt : Int
  deriving DecidableEq

structure Tables where
  unlocks : Table UnlockRow := ∅
  keys : Table KeyRow := ∅
  entries : Table SealedRow := ∅
  attachments : Table SealedRow := ∅

/-- `ORDER BY created_at DESC, id LIMIT 1`. -/
def newest (keys : Table KeyRow) : Option (Uuid × KeyRow) :=
  ((keys.entries.map fun e => (e.1, e.2)).insertionSort fun a b =>
    b.2.createdAt < a.2.createdAt ∨ (a.2.createdAt = b.2.createdAt ∧ a.1 ≤ b.1)).head?

namespace Tables

variable (t : Tables) (user : Uuid)

/-- The newest recovery key, the one vaults are wrapped for. -/
def organisationKey : Option (Uuid × KeyRow) := newest t.keys

/-- Whether the vault has a wrap for the organisation. -/
def Covered : Prop := ∃ e ∈ t.unlocks.entries, e.2.Wraps user

instance : Decidable (t.Covered user) :=
  inferInstanceAs (Decidable (∃ e ∈ t.unlocks.entries, e.2.Wraps user))

/-- `JOIN recovery_keys k ON k.id::text = u.params->>'key_id'`. -/
def joined (row : UnlockRow) : Option KeyRow :=
  (t.keys.entries.find? fun e => some (Text.uuidText e.1) = row.keyId).map (·.2)

/-- The wrap for the organisation, with the key it is for. -/
def organisationUnlock : Option (UnlockRow × KeyRow) :=
  (t.unlocks.entries.filter fun e => e.2.Wraps user).findSome? fun e =>
    (t.joined e.2).map fun key => (e.2, key)

/-- The entries of the user, oldest first. -/
def entriesOf : List (Uuid × SealedRow) :=
  ((t.entries.entries.filter fun e => e.2.userId = user).map fun e => (e.1, e.2)).insertionSort
    fun a b => a.2.createdAt ≤ b.2.createdAt

end Tables

/-! ## Recoveries -/

/-- `vault_recoveries.kind`. -/
inductive RecoveryKind
  | passphrase | handover
  deriving DecidableEq, Repr

def RecoveryKind.parse : String → Option RecoveryKind
  | "passphrase" => some .passphrase
  | "handover" => some .handover
  | _ => none

structure RecoveryRow where
  userId : Uuid
  kind : RecoveryKind
  reason : String
  requesterId : Uuid
  requesterName : String
  approverName : Option String := none
  approvedAt : Option Int := none
  completedAt : Option Int := none
  createdAt : Int
  deriving DecidableEq

/-- `interval '1 day'`. -/
def day : Int := 86400000000

inductive RecoveryStatus
  | pending | approved | expired | completed
  deriving DecidableEq, Repr

/-- The status as the UI reads it; `approved` holds for a day. -/
def RecoveryRow.status (row : RecoveryRow) (now : Int) : RecoveryStatus :=
  match row.completedAt, row.approvedAt with
  | some _, _ => .completed
  | none, none => .pending
  | none, some at' => if now - day < at' then .approved else .expired

/-- The unique index `vault_recoveries_open`: whether a recovery of the vault is open. -/
def OpenFor (recoveries : Table RecoveryRow) (user : Uuid) : Prop :=
  ∃ e ∈ recoveries.entries, e.2.userId = user ∧ e.2.completedAt = none

instance (recoveries : Table RecoveryRow) (user : Uuid) : Decidable (OpenFor recoveries user) :=
  inferInstanceAs (Decidable (∃ e ∈ recoveries.entries, e.2.userId = user ∧ e.2.completedAt = none))

/-- Who asks, with the roles as read at this request. -/
structure Session where
  userId : Uuid
  username : String
  kind : UserKind
  roles : List SystemRole
  deriving DecidableEq

namespace Session

variable (session : Session)

def hasRole (role : SystemRole) : Bool := role ∈ session.roles

/-- Break-glass accounts, and whoever has the role. -/
def isAdmin : Bool := session.kind = .breakGlass || session.hasRole .administrator

def requireAdmin : Answer Unit := refuse (session.isAdmin = false) (.of .forbidden)

end Session

/-- What `create` checks of its body. -/
def checkedRecovery (kind reason : String) : Answer (RecoveryKind × String) := do
  let kind ← (RecoveryKind.parse kind).elim (.error (invalid "kind")) .ok
  let reason := Text.trim reason
  refuse (reason = "" ∨ 500 < reason.length) (invalid "reason")
  return (kind, reason)

/-- The owner's new recovery key, of 16 to 256 bytes, for a forgotten passphrase. -/
def oneTimeKey (wrappedKey : Option Bytes) : Answer Bytes :=
  (wrappedKey.filter fun key => 16 ≤ key.length ∧ key.length ≤ 256).elim
    (.error (invalid "wrapped_key")) .ok

/-- The row that `complete` inserts. -/
def oneTimeRow (user : Uuid) (wrappedKey : Bytes) : UnlockRow where
  userId := user
  kind := .recovery
  params := .object [("one_time", .bool true)]
  wrappedKey
  label := ""

end Server.Vaults
