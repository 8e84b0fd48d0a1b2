import RemoteHub.Totp.Params
import RemoteHub.Lib.Bytes

/-!
# One-time passwords with all that can panic

`code`, `code_at` and `step` of `crates/totp/src/lib.rs` as the machine computes them, on `u32`, `u64`
and slices: a division by zero, a result that does not fit and an index past the end give `none`.
-/

namespace Totp

/-- A result that has to fit. -/
def fitting (bits n : Nat) : Option Nat := if n < 2 ^ bits then some n else none

def checkedSub (a b : Nat) : Option Nat := if b ≤ a then some (a - b) else none

def checkedDiv (a b : Nat) : Option Nat := if b = 0 then none else some (a / b)

def checkedRem (a b : Nat) : Option Nat := if b = 0 then none else some (a % b)

/-- `from_be_bytes`. -/
def fromBeBytes (bytes : List UInt8) : Nat := Digits.ofDigits 256 (bytes.map UInt8.toNat)

/-- `to_be_bytes` of a `u64`. -/
def toBeBytes (n : Nat) : List UInt8 := (Digits.digits 256 8 n).map UInt8.ofNat

/-- What `code` and `code_at` make of the digest. -/
def truncated (digest : List UInt8) (digits : Nat) : Option String := do
  let offset := ((← digest[← checkedSub digest.length 1]?) &&& 0x0f).toNat
  let value := fromBeBytes
    [(← digest[offset]?) &&& 0x7f, ← digest[offset + 1]?, ← digest[offset + 2]?, ← digest[offset + 3]?]
  let value ← checkedRem value (← fitting 32 (10 ^ digits))
  return .ofList (value.repr.toList.leftpad digits '0')

def Params.codeAtChecked (hmac : Algorithm → Hmac) (params : Params) (unixSeconds : UInt64) :
    Option (String × Nat) := do
  let step ← checkedDiv unixSeconds.toNat params.period
  let code ← truncated (hmac params.algorithm params.secret (toBeBytes step)) params.digits
  return (code, ← checkedSub params.period (← checkedRem unixSeconds.toNat params.period))

def codeChecked (hmac : Hmac) (secret : List UInt8) (step : Nat) : Option String :=
  truncated (hmac secret (toBeBytes step)) codeDigits

/-- Constant-time comparison of equal-length ASCII codes. -/
def sameCode (expected code : String) : Bool :=
  let a := Text.utf8 expected
  let b := Text.utf8 code
  a.length = b.length && (a.zip b).foldl (fun acc p => acc ||| (p.1 ^^^ p.2)) 0 = 0

def stepChecked (hmac : Hmac) (secret : List UInt8) (code : String) (unixSeconds : UInt64) :
    Option (Option Nat) := do
  let now ← checkedDiv unixSeconds.toNat period
  [now, now - 1, ← fitting 64 (now + 1)].findM? fun step => return sameCode (← codeChecked hmac secret step) code

end Totp
