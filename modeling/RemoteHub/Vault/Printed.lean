import RemoteHub.Lib.Base32
import RemoteHub.Lib.Bits
import RemoteHub.Web.Text

/-!
# Printed recovery keys

The organisation's private key on paper: printed and read by the web client
(`web/src/lib/vault/crypto.ts`) and read by the command line (`parse_printed` in
`crates/vault/src/escrow.rs`). `BASE32_NOPAD.decode` and what `toUpperCase` makes of a character are
parameters.
-/

namespace Vault

def scalarLen : Nat := 32

/-- `parse_printed`. -/
def parsePrinted (base32 : String → Option (List UInt8)) (text : String) : Option (List UInt8) :=
  let clean := Text.toAsciiUppercase (.ofList (text.toList.filter fun c => !Text.isWhitespace c && c ≠ '-'))
  (base32 clean).filter (·.length = scalarLen)

/-! ## In the web client -/

/-- `match(/.{1,4}/g)`. -/
def matchFours : List Char → List (List Char)
  | [] => []
  | a :: b :: c :: d :: rest => [a, b, c, d] :: matchFours rest
  | rest => [rest]

/-- Bytes as base32 text in groups of four, for typing off paper; none where `match` finds nothing. -/
def toGroups (bytes : List UInt8) : Option String :=
  let bits := Digits.bitsOf 8 (bytes.map UInt8.toNat)
  let count := (bits.length + 4) / 5
  let bits := bits.rightpad (count * 5) 0
  let text := (Digits.slices 5 count bits).map fun n => Base32.alphabet.getD n 'A'
  match matchFours text with
  | [] => none
  | groups => some (.ofList (['-'].intercalate groups))

/-- The `length` of a JavaScript string. -/
def utf16Length (s : List Char) : Nat := (s.map fun c => if c.toNat < 0x10000 then 1 else 2).sum

/-- `toUpperCase`, which takes each character for itself, and `replace(/[\s-]/g, '')`. -/
def cleanGroups (upper : Char → List Char) (text : String) : List Char :=
  (text.toList.flatMap upper).filter fun c => !(Web.isWhitespace c || c = '-')

/-- `length` bytes from text as `toGroups` wrote it. -/
def fromGroups (upper : Char → List Char) (text : String) (length : Nat) : Option (List UInt8) :=
  let clean := cleanGroups upper text
  if utf16Length clean ≠ (length * 8 + 4) / 5 ∨ clean.any (· ∉ Base32.alphabet) then none
  else
    let bits := Digits.bitsOf 5 (clean.map Base32.alphabet.idxOf)
    some ((Digits.slices 8 length bits).map UInt8.ofNat)

/-- The private key as printable text, for a safe. -/
def privateKeyText (privateKey : List UInt8) : Option String := toGroups privateKey

/-- The private key's scalar as typed off paper. -/
def parsePrivateKey (upper : Char → List Char) (text : String) : Option (List UInt8) :=
  fromGroups upper text scalarLen

end Vault
