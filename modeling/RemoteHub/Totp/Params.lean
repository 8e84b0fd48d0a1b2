import RemoteHub.Lib.Text
import RemoteHub.Lib.Digits

/-!
# One-time passwords (`crates/totp/src/lib.rs`)

`Params.parse` reads a service's one-time password as people copy it: an `otpauth://totp/` link or a
bare secret. `BASE32_NOPAD.decode` is code of another crate: a parameter, and so is HMAC.

`code` and `step` are the codes of remotehub's own factors: HMAC-SHA1, six digits, 30 seconds.
-/

namespace Totp

open Text

inductive Algorithm
  | sha1 | sha256 | sha512
  deriving DecidableEq, Repr

structure Params where
  secret : List UInt8
  algorithm : Algorithm := .sha1
  digits : Nat := 6
  period : Nat := 30
  deriving DecidableEq

/-- `BASE32_NOPAD.decode`. -/
abbrev Base32 := String → Option (List UInt8)

def minSecretBytes : Nat := 10

/-- What follows `pre` (the source's `prefix`), in any case. -/
def stripPrefixIgnoreCase (text pre : String) : Option String :=
  let head := text.toList.take pre.length
  if eqIgnoreAsciiCase (.ofList head) pre then some (.ofList (text.toList.drop pre.length))
  else none

/-- Base32 as people copy it from a service: any case, with spaces, dashes or padding; at least 80
bits. -/
def lenientBase32 (base32 : Base32) (text : String) : Option (List UInt8) :=
  let clean := text.toList.filter fun c => !isWhitespace c && c ≠ '-' && c ≠ '='
  (base32 (toAsciiUppercase (.ofList clean))).filter (minSecretBytes ≤ ·.length)

def Algorithm.parse (value : String) : Option Algorithm :=
  match toAsciiUppercase value with
  | "SHA1" => some .sha1
  | "SHA256" => some .sha256
  | "SHA512" => some .sha512
  | _ => none

/-- One round of the loop over the link's parameters. -/
def Params.readPair (base32 : Base32) (params : Params) (pair : String) : Option Params :=
  let (key, value) := (splitOnce '=' pair).getD (pair, "")
  match toAsciiLowercase key with
  | "secret" => do return { params with secret := ← lenientBase32 base32 value }
  | "algorithm" => do return { params with algorithm := ← Algorithm.parse value }
  | "digits" => do
    return { params with
             digits := ← (parseUnsigned (2 ^ 32 - 1) value).filter fun d => 6 ≤ d ∧ d ≤ 8 }
  | "period" => do
    return { params with
             period := ← (parseUnsigned (2 ^ 64 - 1) value).filter fun p => 1 ≤ p ∧ p ≤ 300 }
  | _ => some params

def Params.parse (base32 : Base32) (text : String) : Option Params :=
  let text := trim text
  match stripPrefixIgnoreCase text "otpauth://totp/" with
  | none => (lenientBase32 base32 text).map fun secret => { secret }
  | some rest => do
    let (_, query) ← splitOnce '?' rest
    let params ← (split '&' query).foldlM (Params.readPair base32) { secret := [] }
    if params.secret = [] then none else some params

/-- HMAC of a message under a key. -/
abbrev Hmac := List UInt8 → List UInt8 → List UInt8

/-- `code_at`: the code at `unixSeconds`, and how many seconds it still holds. -/
def Params.codeAt (hmac : Algorithm → Hmac) (params : Params) (unixSeconds : Nat) : String × Nat :=
  let step := unixSeconds / params.period
  let digest := hmac params.algorithm params.secret ((Digits.digits 256 8 step).map UInt8.ofNat)
  let offset := (digest.getLastD 0).toNat % 16
  let byte := fun i => (digest.getD (offset + i) 0).toNat
  let value := (byte 0 % 128 * 2 ^ 24 + byte 1 * 2 ^ 16 + byte 2 * 2 ^ 8 + byte 3) % 10 ^ params.digits
  (.ofList (value.repr.toList.leftpad params.digits '0'), params.period - unixSeconds % params.period)

/-! ## remotehub's own factors -/

def period : Nat := 30

def codeDigits : Nat := 6

def secretBytes : Nat := 20

/-- The code for a time step. -/
def code (hmac : Hmac) (secret : List UInt8) (step : Nat) : String :=
  let digest := hmac secret ((Digits.digits 256 8 step).map UInt8.ofNat)
  let offset := (digest.getLastD 0).toNat % 16
  let byte := fun i => (digest.getD (offset + i) 0).toNat
  let value := ((byte 0 % 128 * 2 ^ 24 + byte 1 * 2 ^ 16 + byte 2 * 2 ^ 8 + byte 3) %
    10 ^ codeDigits).repr.toList
  .ofList (value.leftpad codeDigits '0')

/-- The time step a code belongs to, one step of clock drift each way. -/
def step (hmac : Hmac) (secret : List UInt8) (code : String) (unixSeconds : Nat) : Option Nat :=
  let now := unixSeconds / period
  [now, now - 1, now + 1].find? fun step => Totp.code hmac secret step = code

/-- A base32 secret of the right length. -/
def decode (base32 : Base32) (secret : String) : Option (List UInt8) :=
  (base32 (trim secret)).filter fun bytes => bytes.length = secretBytes

end Totp
