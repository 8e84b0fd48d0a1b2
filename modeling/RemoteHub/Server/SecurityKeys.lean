import RemoteHub.Model.Catalog
import RemoteHub.Server.Webauthn
import RemoteHub.Lib.Interleave
import RemoteHub.Lib.Acceptance
import Mathlib.Algebra.Group.Int.Defs

/-!
# Security keys as a second factor

`verify_key` (`crates/server/src/second_factor.rs`) checks the key of a directory user, at sign-ins
and confirmations; `local_key` (`crates/server/src/api/confirm.rs`) the key that Kratos has for a
local account, at confirmations. Each takes a challenge that was issued before, checks the answer to
it, and stores the counter that it was sent with. They are here statement by statement at READ
COMMITTED: what a transaction has locked or written is its own until it ends, what it writes is there
with its commit, and `now()` is when it began. It can be given up at any step.

The identifiers of challenges are random: none comes twice. `Shared.log` is the counters that were
accepted, in order; `issued` and `answered` are the challenges that were issued and that were
accepted.
-/

namespace Server.SecurityKeys

open Model Webauthn

/-- `webauthn_challenges.purpose`. -/
inductive Purpose
  | register | signIn | confirm
  deriving DecidableEq, Repr

/-- `KeyUse`. -/
inductive KeyUse
  | signIn | confirm
  deriving DecidableEq, Repr

def KeyUse.purpose : KeyUse → Purpose
  | .signIn => .signIn
  | .confirm => .confirm

/-- Whether an answer is enough: a confirmation needs the key's check of its holder. -/
def KeyUse.accepts (usage : KeyUse) (answer : Assertion) : Bool :=
  usage = .signIn ∨ userVerified answer = .ok true

/-- A row of `webauthn_challenges`; times are in seconds. -/
structure ChallengeRow where
  userId : Uuid
  purpose : Purpose
  challenge : Bytes
  expiresAt : Int
  deriving DecidableEq

/-- A row of `security_keys`. -/
structure KeyRow where
  userId : Uuid
  credentialId : Bytes
  publicKey : Bytes
  signCount : Int

/-- A row of `confirmation_keys`. -/
structure CounterRow where
  userId : Uuid
  signCount : Int
  deriving DecidableEq

/-- A key as Kratos has it. -/
structure KratosKey where
  credentialId : Bytes
  publicKey : Bytes
  counter : Nat

structure KeyAnswer where
  challengeId : Uuid
  credential : Assertion

/-- Whose counter: that of a row of `security_keys`, or that of a local account's key. -/
inductive KeyId
  | stored (id : Uuid)
  | kratos (user : Uuid) (credentialId : Bytes)
  deriving DecidableEq

inductive Lock
  | challenge (id : Uuid)
  | key (id : Uuid)
  | counter (credentialId : Bytes)
  deriving DecidableEq

/-- A challenge that was accepted: by whom, for what, and when their transaction began. -/
structure Answered where
  challengeId : Uuid
  user : Uuid
  purpose : Purpose
  began : Int

structure Shared where
  challenges : HashMap Uuid ChallengeRow := ∅
  keys : HashMap Uuid KeyRow := ∅
  /-- `confirmation_keys`. -/
  counters : HashMap Bytes CounterRow := ∅
  clock : Int := 0
  locks : Interleave.Locks Lock := fun _ => none
  cancelled : List Nat := []
  log : List (Acceptance.Entry KeyId Nat) := []
  issued : List (Uuid × ChallengeRow) := []
  answered : List Answered := []

/-- `u32::try_from(count).unwrap_or(u32::MAX)`. -/
def toU32 (count : Int) : Nat := if 0 ≤ count ∧ count < 2 ^ 32 then count.toNat else 2 ^ 32 - 1

/-- `CHALLENGE_SECONDS`. -/
def challengeSeconds : Int := 300

/-- A request that answers a challenge, after its transaction began. -/
structure Attempt where
  user : Uuid
  answer : KeyAnswer
  usage : KeyUse
  began : Int

/-- How far a request is. -/
inductive Flight
  /-- `second_factor::challenge`, with the identifier and the bytes it draws. -/
  | challenge (user : Uuid) (purpose : Purpose) (id : Uuid) (bytes : Bytes)
  | verifyKey (user : Uuid) (answer : KeyAnswer) (usage : KeyUse)
  | begun (a : Attempt)
  /-- The challenge is taken. -/
  | taken (a : Attempt) (challenge : Bytes)
  /-- The key's row is locked. -/
  | found (a : Attempt) (challenge : Bytes) (keyId : Uuid) (publicKey : Bytes) (count : Int)
  | counted (a : Attempt) (keyId : Uuid) (counter : Nat)
  /-- `local_key`, with the keys that Kratos has. -/
  | localKey (user : Uuid) (answer : KeyAnswer) (factors : List KratosKey)
  | localBegun (a : Attempt) (factors : List KratosKey)
  | localTaken (a : Attempt) (challenge : Bytes) (factors : List KratosKey)
  /-- `SELECT sign_count FROM confirmation_keys` gave `ours`. -/
  | localFound (a : Attempt) (challenge : Bytes) (key : KratosKey) (ours : Option Int)
  /-- The answer is right. -/
  | localVerified (a : Attempt) (credentialId : Bytes) (ours : Option Int) (counter : Nat)
  | localCounted (a : Attempt) (credentialId : Bytes) (counter : Nat)

def Flight.isNew : Flight → Bool
  | .challenge .. | .verifyKey .. | .localKey .. => true
  | _ => false

namespace Shared

variable (s : Shared)

/-- The request is over; its transaction has committed `s`, or failed. -/
def close (k : Nat) : Option (Shared × Option Flight) :=
  some ({ s with locks := s.locks.release k }, none)

def goOn (f : Flight) : Option (Shared × Option Flight) := some (s, some f)

/-- The request locks a row and goes on, as soon as nobody else has it. -/
def lock (k : Nat) (key : Lock) (f : Flight) : Option (Shared × Option Flight) :=
  (s.locks.acquire k key).bind fun locks => { s with locks }.goOn f

/-- A wrong answer: a sign-in's transaction ends unused, a confirmation's commits, and the challenge
is gone. -/
def refused (k : Nat) (a : Attempt) : Option (Shared × Option Flight) :=
  match a.usage with
  | .signIn => s.close k
  | .confirm => { s with challenges := s.challenges.erase a.answer.challengeId }.close k

/-- A right answer: the challenge is gone, and the key's counter is accepted. -/
def accepted (k : Nat) (a : Attempt) (key : KeyId) (counter : Nat) :
    Option (Shared × Option Flight) :=
  let answer : Answered :=
    { challengeId := a.answer.challengeId, user := a.user, purpose := a.usage.purpose,
      began := a.began }
  let after : Shared :=
    { s with
      challenges := s.challenges.erase a.answer.challengeId
      log := s.log ++ [.accepted key counter]
      answered := s.answered ++ [answer] }
  after.close k

/-- `take_challenge`: `DELETE FROM webauthn_challenges ... RETURNING challenge`. -/
def takeChallenge (k : Nat) (a : Attempt) (next : Bytes → Flight) :
    Option (Shared × Option Flight) :=
  match (s.challenges.lookup a.answer.challengeId).filter fun row =>
      row.userId = a.user ∧ row.purpose = a.usage.purpose ∧ a.began < row.expiresAt with
  | none => s.close k
  | some row => s.lock k (.challenge a.answer.challengeId) (next row.challenge)

/-- `SELECT ... FROM security_keys WHERE user_id = $1 AND credential_id = $2`. -/
def findKey (user : Uuid) (credentialId : Bytes) : Option (Uuid × KeyRow) :=
  (s.keys.entries.map fun e => (e.1, e.2)).find? fun e =>
    e.2.userId = user ∧ e.2.credentialId = credentialId

/-- The challenges that have expired. -/
def expired : List Uuid :=
  (s.challenges.entries.filter fun e => e.2.expiresAt < s.clock).map (·.1)

def unexpired : HashMap Uuid ChallengeRow :=
  s.expired.foldl (fun rows id => rows.erase id) s.challenges

/-- The `INSERT ... ON CONFLICT` of `local_key`. -/
def storeCounter (user : Uuid) (credentialId : Bytes) (counter : Nat) : HashMap Bytes CounterRow :=
  match s.counters.lookup credentialId with
  | none => s.counters.insert credentialId { userId := user, signCount := counter }
  | some row =>
    if row.userId = user then
      s.counters.insert credentialId { userId := user, signCount := counter }
    else s.counters

end Shared

/-- The next statement of request `k`; `none` while it waits. -/
def Flight.statement (c : Crates) (rp : RelyingParty) (k : Nat) (s : Shared) :
    Flight → Option (Shared × Option Flight)
  | .challenge user purpose id bytes =>
    -- the expired ones go with it, and it waits for those that a transaction has taken
    if id ∈ s.issued.map (·.1) ∨ (id :: s.expired).any fun row => s.locks (.challenge row) ≠ none then
      none
    else
      let row : ChallengeRow :=
        { userId := user, purpose, challenge := bytes, expiresAt := s.clock + challengeSeconds }
      { s with
        challenges := s.unexpired.insert id row
        issued := s.issued ++ [(id, row)] }.close k
  | .verifyKey user answer usage => s.goOn (.begun { user, answer, usage, began := s.clock })
  | .begun a => s.takeChallenge k a fun bytes => .taken a bytes
  | .taken a bytes =>
    match a.answer.credential.credentialId with
    | .error _ => s.refused k a
    | .ok credentialId =>
      if a.usage.accepts a.answer.credential then
        match s.findKey a.user credentialId with
        | none => s.refused k a
        | some (id, row) =>
          s.lock k (.key id) (.found a bytes id row.publicKey row.signCount)
      else s.refused k a
  | .found a bytes keyId publicKey count =>
    match Webauthn.verify c rp bytes publicKey (toU32 count) a.answer.credential with
    | .error _ => s.refused k a
    | .ok counter => s.goOn (.counted a keyId counter)
  | .counted a keyId counter =>
    { s with keys := s.keys.modify keyId fun row => { row with signCount := counter } }.accepted k a
      (.stored keyId) counter
  | .localKey user answer factors =>
    s.goOn (.localBegun { user, answer, usage := .confirm, began := s.clock } factors)
  | .localBegun a factors => s.takeChallenge k a fun bytes => .localTaken a bytes factors
  | .localTaken a bytes factors =>
    match a.answer.credential.credentialId with
    | .error _ => s.refused k a
    | .ok credentialId =>
      match factors.find? fun key => key.credentialId = credentialId with
      | none => s.refused k a
      | some key =>
        if a.usage.accepts a.answer.credential then
          match (s.counters.lookup credentialId).filter fun row => row.userId = a.user with
          | none => s.goOn (.localFound a bytes key none)
          | some row =>
            s.lock k (.counter credentialId) (.localFound a bytes key (some row.signCount))
        else s.refused k a
  | .localFound a bytes key ours =>
    let stored := max key.counter (ours.elim 0 toU32)
    match Webauthn.verify c rp bytes key.publicKey stored a.answer.credential with
    | .error _ => s.refused k a
    | .ok counter => s.goOn (.localVerified a key.credentialId ours counter)
  | .localVerified a credentialId _ counter =>
    s.lock k (.counter credentialId) (.localCounted a credentialId counter)
  | .localCounted a credentialId counter =>
    { s with counters := s.storeCounter a.user credentialId counter }.accepted k a
      (.kratos a.user credentialId) counter

def Flight.next (c : Crates) (rp : RelyingParty) (k : Nat) (s : Shared) (f : Flight) :
    Option (Shared × Option Flight) :=
  if k ∈ s.cancelled then s.close k else f.statement c rp k s

/-- What else happens: a request is given up, time goes by, a key is registered or removed, the
challenge of a registration is used. -/
inductive Outside
  | cancel (k : Nat)
  | tick (seconds : Nat)
  | addKey (id : Uuid) (row : KeyRow)
  | removeKey (id : Uuid)
  | useChallenge (id : Uuid)

def Shared.outside (s : Shared) : Outside → Option Shared
  | .cancel k => some { s with cancelled := k :: s.cancelled }
  | .tick seconds => some { s with clock := s.clock + seconds }
  | .addKey id row =>
    if id ∈ s.keys ∨ s.locks (.key id) ≠ none ∨
        ∃ e ∈ s.keys.entries, e.2.credentialId = row.credentialId then none
    else some { s with keys := s.keys.insert id row, log := s.log ++ [.opened (.stored id)] }
  | .removeKey id =>
    if s.locks (.key id) = none then some { s with keys := s.keys.erase id } else none
  | .useChallenge id =>
    if s.locks (.challenge id) = none then some { s with challenges := s.challenges.erase id }
    else none

def system (c : Crates) (rp : RelyingParty) : Interleave.System Shared Flight Outside where
  starts := Flight.isNew
  next := Flight.next c rp
  outside := Shared.outside

end Server.SecurityKeys
