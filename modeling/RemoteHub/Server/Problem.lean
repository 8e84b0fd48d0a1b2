import RemoteHub.Lib.Answer
import RemoteHub.Lib.Text
import RemoteHub.Model.Catalog

/-!
# Refused requests (`crates/server/src/api/problem.rs`)

A request is answered or refused with a `Problem`. A statement that never ends, a recursive query on
a cyclic tree, is a failure of its own (`endless`): the request neither succeeds nor is refused.

The checks of texts are those of `crates/server/src/api/catalog.rs`.
-/

namespace Server

open Model Except Text

inductive ErrorCode
  | notFound | invalidRequest | forbidden | nameTaken | folderNotEmpty | retargetForbidden
  | profileOutOfReach | profileInUse | lastAdministrator | setupDone | setupCodeInvalid
  | accountsUnavailable | requestPending | ownRequest | requestDecided | vaultNotCovered
  | recoveryOpen | recoveryNotReady | recoveryKeyInUse | lastUnlock | internal
  deriving DecidableEq, Repr

structure Problem where
  code : ErrorCode
  params : HashMap String String := ∅
  deriving DecidableEq

def Problem.param (p : Problem) (name value : String) : Problem :=
  { p with params := p.params.insert name value }

inductive Failure
  | problem (p : Problem)
  | endless
  deriving DecidableEq

abbrev Answer := Except Failure

/-- `Err(Problem::new(code))`. -/
def Failure.of (code : ErrorCode) : Failure := .problem { code }

/-- `Err(Problem::new(code).param("devices", ...))`: the devices' names. -/
def Failure.devices (code : ErrorCode) (names : List String) : Failure :=
  .problem (Problem.param { code } "devices" (", ".intercalate names))

/-- `invalid(field)`. -/
def invalid (field : String) : Failure :=
  .problem (Problem.param { code := .invalidRequest } "field" field)

/-! ## Texts -/

/-- A trimmed, non-empty name of at most 200 characters. -/
def name (value field : String) : Answer String := do
  let value := trim value
  refuse (value = "" ∨ 200 < value.length ∨ value.toList.any isControl) (invalid field)
  return value

/-- A trimmed text of at most 256 characters. -/
def plain (value field : String) : Answer String := do
  let value := trim value
  refuse (256 < value.length ∨ value.toList.any isControl) (invalid field)
  return value

/-- `ORDER BY lower(name)`, in the order of code points. -/
def byLowerName (names : List String) : List String :=
  names.mergeSort fun a b => decide (a.toLower ≤ b.toLower)

/-! ## Rights -/

/-- `not_found` for objects the subject cannot see at all, `forbidden` for objects they see but may
not act on in this way. -/
def require (catalog : Catalog) (subject : Subject) (needed : Role) (object : ObjectId) :
    Answer Unit :=
  match catalog.effectiveRole subject object with
  | some role => if needed ≤ role then .ok () else .error (.of .forbidden)
  | none => .error (.of .notFound)

theorem require_eq_ok {catalog : Catalog} {subject : Subject} {needed : Role} {object : ObjectId}
    {u : Unit} :
    require catalog subject needed object = .ok u ↔
      catalog.authorize subject needed object = true := by
  unfold require Catalog.authorize
  cases catalog.effectiveRole subject object with
  | none => simp
  | some role => by_cases h : needed ≤ role <;> simp [h]

end Server
