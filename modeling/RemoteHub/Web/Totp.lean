import Mathlib.Data.Rat.Floor
import RemoteHub.Lib.Base32
import RemoteHub.Totp.Params
import RemoteHub.Web.Text

/-!
# One-time passwords in the browser (`web/src/lib/vault/totp.ts`)

The functions of the browser are parameters, HMAC among them. Numbers are exact: periods of up to 300
seconds and times below 2^53.
-/

namespace Web.OneTime

open Totp (Algorithm Hmac)

structure TotpParams where
  secret : List UInt8
  algorithm : Algorithm
  digits : Nat
  period : ℚ

/-- What the browser makes of texts. -/
structure Browser where
  /-- `toLowerCase`. -/
  toLower : String → String
  /-- `toUpperCase`. -/
  toUpper : String → String
  /-- `Number`; none for one that is not finite. -/
  number : String → Option ℚ
  /-- `new URL(text).searchParams`; none where it throws. -/
  searchParams : String → Option (List (String × String))

variable (browser : Browser)

def base32 (text : String) : Option (List UInt8) :=
  let clean := browser.toUpper (.ofList (text.toList.filter fun c => !(isWhitespace c || c = '=' || c = '-')))
  if clean = "" ∨ clean.toList.any (· ∉ Base32.alphabet) then none
  else some (Base32.packLoop (clean.toList.map Base32.alphabet.idxOf))

/-- `names[algorithm]`. -/
def algorithmOf : String → Option Algorithm
  | "SHA1" => some .sha1
  | "SHA256" => some .sha256
  | "SHA512" => some .sha512
  | _ => none

/-- `searchParams.get`. -/
def get (params : List (String × String)) (name : String) : Option String :=
  (params.find? (·.1 = name)).map (·.2)

/-- What a field's value says about a TOTP, or none if it is none. -/
def parseTotp (value : String) : Option TotpParams :=
  let text := trim value
  if "otpauth://totp/".toList <+: (browser.toLower text).toList then do
    let params ← browser.searchParams text
    let secret ← base32 browser ((get params "secret").getD "")
    let algorithm := browser.toUpper ((get params "algorithm").getD "SHA1")
    let digits := (get params "digits").elim (some 6) browser.number
    let period := (get params "period").elim (some 30) browser.number
    let algorithm ← algorithmOf algorithm
    let digits ← [6, 7, 8].find? fun d : Nat => digits = some (d : ℚ)
    let period ← period.filter fun p => 1 ≤ p ∧ p ≤ 300
    return { secret, algorithm, digits, period }
  else none

/-- The code at `unixSeconds`. -/
def totpCode (hmac : Algorithm → Hmac) (params : TotpParams) (unixSeconds : Nat) : String :=
  let counter := ⌊(unixSeconds : ℚ) / params.period⌋.toNat
  let digest := hmac params.algorithm params.secret ((Digits.digits 256 8 counter).map UInt8.ofNat)
  let offset := (digest.getLastD 0).toNat &&& 0x0f
  let byte := fun i => (digest.getD (offset + i) 0).toNat
  let value := (((byte 0 &&& 0x7f) <<< 24) ||| (byte 1 <<< 16) ||| (byte 2 <<< 8) ||| byte 3) % 10 ^ params.digits
  .ofList (value.repr.toList.leftpad params.digits '0')

end Web.OneTime
