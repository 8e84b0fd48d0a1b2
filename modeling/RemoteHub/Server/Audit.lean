import RemoteHub.Model.Catalog
import RemoteHub.Lib.Bytes
import RemoteHub.Lib.JsonText
import RemoteHub.Lib.Interleave
import Mathlib.Algebra.Group.Int.Defs
import Mathlib.Data.List.Induction

/-!
# The audit log (`migrations/20260924000003_audit_log.sql`, `crates/server/src/audit.rs`)

`Entry` is a row of `audit_log`; the type `J` of its details is a parameter, as are their text and
SHA-256 (`Postgres`). The trigger `audit_chain` numbers and chains the rows of an `INSERT`: `Flight`
is a transaction that writes entries at READ COMMITTED, where the advisory lock, the read of the last
entry and the write are steps of their own. A transaction can be cancelled at any step.

The rows are kept with the transaction that wrote them until it commits (`Shared.rows`). The log
that `verify` reads is what is committed.
-/

namespace Server.Audit

open Model

structure Entry (J : Type) where
  seq : Int
  /-- `at`, in microseconds since the epoch. -/
  time : Int
  actorId : Option Uuid
  actorName : String
  action : String
  objectType : Option String
  objectId : Option Uuid
  details : J
  address : Option String
  prevHash : Bytes
  hash : Bytes
  deriving DecidableEq

/-- What the database brings along. -/
structure Postgres (J : Type) where
  sha256 : Bytes → Bytes
  /-- `details::text`. -/
  detailsText : J → String
  /-- `SELECT id FROM instance`. -/
  instanceId : Uuid

variable {J : Type} (pg : Postgres J)

namespace Postgres

/-- The elements of `jsonb_build_array`, as their texts. -/
def elements (e : Entry J) : List (List Char) :=
  [e.seq.repr.toList,
    e.time.repr.toList,
    JsonText.orNull (e.actorId.map fun id => (Text.uuidText id).toList),
    JsonText.quote e.actorName.toList,
    JsonText.quote e.action.toList,
    JsonText.orNull (e.objectType.map String.toList),
    JsonText.orNull (e.objectId.map fun id => (Text.uuidText id).toList),
    (pg.detailsText e.details).toList,
    JsonText.orNull (e.address.map String.toList)]

/-- The text of a JSON array. -/
def arrayText (elements : List (List Char)) : List Char :=
  '[' :: [',', ' '].intercalate elements ++ [']']

/-- What `audit_digest` hashes. -/
def digestInput (e : Entry J) : Bytes :=
  e.prevHash ++ Text.utf8 (.ofList (arrayText (pg.elements e)))

def auditDigest (e : Entry J) : Bytes := pg.sha256 (pg.digestInput e)

def auditGenesis : Bytes := pg.sha256 (Text.utf8 ("remotehub-audit|" ++ Text.uuidText pg.instanceId))

end Postgres

/-! ## `verify` -/

/-- `lag(hash) OVER (ORDER BY seq)`, where these rows stand before. -/
def lag (before : List (Entry J)) : Option Bytes := before.getLast?.map (·.hash)

/-- `row_number() OVER (ORDER BY seq)`. -/
def rowNumber (before : List (Entry J)) : Int := before.length + 1

/-- The column `ok` of a row that stands after `before`. -/
def ok (before : List (Entry J)) (e : Entry J) : Bool :=
  e.hash = pg.auditDigest e ∧ e.prevHash = (lag before).getD pg.auditGenesis ∧
    e.seq = rowNumber before

/-- `checked`: number and `ok` of every row. -/
def checked (before : List (Entry J)) : List (Entry J) → List (Int × Bool)
  | [] => []
  | e :: rest => (e.seq, ok pg before e) :: checked (before ++ [e]) rest

structure Verification where
  entries : Nat
  firstBroken : Option Int
  deriving DecidableEq, Repr

/-- `ORDER BY seq`. -/
def ordered (rows : List (Entry J)) : List (Entry J) := rows.mergeSort fun a b => a.seq ≤ b.seq

def verify (rows : List (Entry J)) : Verification where
  entries := rows.length
  firstBroken := (((checked pg [] (ordered rows)).filter fun c => !c.2).map (·.1)).min?

/-! ## Transactions -/

/-- The rows, each with the transaction that wrote it while that runs; the transaction that has the
advisory lock; the transactions that are to be given up. -/
structure Shared (J : Type) where
  rows : List (Option Nat × Entry J) := []
  lock : Option Nat := none
  cancelled : List Nat := []

/-- The columns an `INSERT` gives. -/
structure New (J : Type) where
  time : Option Int
  actorId : Option Uuid
  actorName : String
  action : String
  objectType : Option String
  objectId : Option Uuid
  details : J
  address : Option String

/-- How far the trigger is. -/
inductive Phase (J : Type)
  /-- Between two rows. -/
  | ready
  /-- After `pg_advisory_xact_lock`. -/
  | locked (row : New J)
  /-- The last entry is read. -/
  | read (row : New J) (last : Option (Entry J))

/-- A transaction: its `now()`, the rows it still writes and whether it commits then. -/
structure Flight (J : Type) where
  now : Int
  todo : List (New J)
  commits : Bool
  phase : Phase J := .ready

namespace Shared

variable (s : Shared J)

def committed : List (Entry J) := (s.rows.filter fun row => row.1 = none).map (·.2)

/-- What a statement of transaction `k` sees. -/
def visible (k : Nat) : List (Entry J) :=
  (s.rows.filter fun row => row.1 = none ∨ row.1 = some k).map (·.2)

/-- `ORDER BY a.seq DESC LIMIT 1`. -/
def last (k : Nat) : Option (Entry J) :=
  (s.visible k).foldl (fun last row => if last.any (row.seq ≤ ·.seq) then last else some row) none

/-- The end of transaction `k`. -/
def release (k : Nat) (rows : List (Option Nat × Entry J)) : Shared J :=
  { s with rows, lock := if s.lock = some k then none else s.lock }

def commit (k : Nat) : Shared J :=
  s.release k (s.rows.map fun row => (if row.1 = some k then none else row.1, row.2))

def rollback (k : Nat) : Shared J := s.release k (s.rows.filter fun row => row.1 ≠ some k)

end Shared

/-- The largest `bigint`. -/
def maxBigint : Int := 2 ^ 63 - 1

/-- `audit_chain` after its `SELECT`; a number beyond `bigint` is an error. -/
def auditChain (now : Int) (row : New J) (last : Option (Entry J)) : Option (Entry J) :=
  let seq := (last.map (·.seq)).getD 0 + 1
  let entry : Entry J :=
    { seq
      time := row.time.getD now
      actorId := row.actorId
      actorName := row.actorName
      action := row.action
      objectType := row.objectType
      objectId := row.objectId
      details := row.details
      address := row.address
      prevHash := (last.map (·.hash)).getD pg.auditGenesis
      hash := [] }
  if seq ≤ maxBigint then some { entry with hash := pg.auditDigest entry } else none

/-- The row goes in; the primary key lets each number in once, and waits for a transaction that may
still take its row back. -/
def Shared.write (s : Shared J) (k : Nat) (e : Entry J) (f : Flight J) :
    Option (Shared J × Option (Flight J)) :=
  match s.rows.find? fun row => row.2.seq = e.seq with
  | none => some ({ s with rows := s.rows ++ [(some k, e)] }, some { f with phase := .ready })
  | some row =>
    if row.1 = none ∨ row.1 = some k then some (s.rollback k, none) else none

/-- The next step of transaction `k`; `none` while it waits. -/
def Flight.next (k : Nat) (s : Shared J) (f : Flight J) : Option (Shared J × Option (Flight J)) :=
  if k ∈ s.cancelled then some (s.rollback k, none)
  else
    match f.phase with
    | .ready =>
      match f.todo with
      | [] => some (if f.commits then s.commit k else s.rollback k, none)
      | row :: todo =>
        if s.lock = none ∨ s.lock = some k then
          some ({ s with lock := some k }, some { f with todo, phase := .locked row })
        else none
    | .locked row => some (s, some { f with phase := .read row (s.last k) })
    | .read row last =>
      match auditChain pg f.now row last with
      | none => some (s.rollback k, none)
      | some e => s.write k e f

def Flight.isNew (f : Flight J) : Bool :=
  match f.phase with
  | .ready => true
  | _ => false

/-- A transaction is cancelled. -/
inductive Outside
  | cancel (k : Nat)

def Shared.outside (s : Shared J) : Outside → Option (Shared J)
  | .cancel k => some { s with cancelled := k :: s.cancelled }

def system : Interleave.System (Shared J) (Flight J) Outside where
  starts := Flight.isNew
  next := Flight.next pg
  outside := Shared.outside

end Server.Audit
