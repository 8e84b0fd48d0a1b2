import RemoteHub.Lib.Answer
import RemoteHub.Lib.Bytes

/-!
# Answers of security keys (`crates/server/src/webauthn.rs`)

The checks of an assertion. What the browser sends as base64url stands for its bytes, or `none` where
it is no base64url. The JSON of `clientDataJSON`, SHA-256 and ECDSA on P-256 are code of other crates:
parameters (`Crates`).
-/

namespace Server.Webauthn

open Except

/-- `webauthn::RelyingParty`. -/
structure RelyingParty where
  id : String
  origin : String

inductive WebauthnError
  | malformed (what : String)
  | mismatch | notPresent | algorithm | signature | counter
  deriving DecidableEq, Repr

abbrev Checked := Except WebauthnError

/-- What `clientDataJSON` says. -/
structure ClientData where
  kind : String
  challenge : Option Bytes
  origin : String

structure Crates where
  /-- `serde_json::from_slice`. -/
  clientData : Bytes → Option ClientData
  sha256 : Bytes → Bytes
  /-- `VerifyingKey::from_sec1_bytes` and `Signature::from_der` take it. -/
  isKey : Bytes → Bool
  isSignature : Bytes → Bool
  /-- `key.verify(signed, signature)`. -/
  verifies : (key signed signature : Bytes) → Bool

/-- What the browser sends when a key signs a challenge. -/
structure Assertion where
  rawId : Option Bytes
  clientData : Option Bytes
  authenticatorData : Option Bytes
  signature : Option Bytes

def decode (bytes : Option Bytes) (what : String) : Checked Bytes :=
  bytes.elim (.error (.malformed what)) .ok

/-- `Assertion::credential_id`. -/
def Assertion.credentialId (answer : Assertion) : Checked Bytes := decode answer.rawId "rawId"

/-- Whether the key checked who holds it: the flag UV. -/
def userVerified (answer : Assertion) : Checked Bool := do
  let data ← decode answer.authenticatorData "authenticatorData"
  let flags ← data[32]?.elim (.error (.malformed "authenticatorData")) .ok
  return flags &&& 0x04 ≠ 0

variable (c : Crates)

/-- `clientDataJSON` must name the ceremony, the challenge and the origin. -/
def checkClientData (rp : RelyingParty) (kind : String) (challenge clientData : Bytes) :
    Checked Unit := do
  let data ← (c.clientData clientData).elim (.error (.malformed "clientDataJSON")) .ok
  let sent ← decode data.challenge "challenge"
  refuse (data.kind ≠ kind ∨ sent ≠ challenge ∨ data.origin ≠ rp.origin) .mismatch

/-- A `u32` in big endian. -/
def u32 (a b c d : UInt8) : Nat := (a.toBitVec ++ b.toBitVec ++ c.toBitVec ++ d.toBitVec).toNat

/-- The fixed start of `authenticatorData`: the relying party's hash, the flags and the counter,
which it returns. -/
def checkAuthenticatorData (rp : RelyingParty) (data : Bytes) : Checked Nat := do
  refuse (data.length < 37) (.malformed "authenticatorData")
  refuse (data.take 32 ≠ (c.sha256 (Text.utf8 rp.id)).take 32) .mismatch
  let byte := fun i => data.getD i 0
  refuse (byte 32 &&& 0x01 = 0) .notPresent
  return u32 (byte 33) (byte 34) (byte 35) (byte 36)

/-- Checks a signature of the stored key over the challenge; the key's new counter. -/
def verify (rp : RelyingParty) (challenge publicKey : Bytes) (storedCounter : Nat)
    (answer : Assertion) : Checked Nat := do
  let clientData ← decode answer.clientData "clientDataJSON"
  checkClientData c rp "webauthn.get" challenge clientData
  let data ← decode answer.authenticatorData "authenticatorData"
  let counter ← checkAuthenticatorData c rp data
  refuse (!c.isKey publicKey) (.malformed "stored key")
  let signature ← decode answer.signature "signature"
  refuse (!c.isSignature signature) (.malformed "signature")
  refuse (!c.verifies publicKey (data ++ c.sha256 clientData) signature) .signature
  refuse ((counter ≠ 0 ∨ storedCounter ≠ 0) ∧ counter ≤ storedCounter) .counter
  return counter

end Server.Webauthn
