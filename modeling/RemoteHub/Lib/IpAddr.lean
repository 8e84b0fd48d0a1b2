import Mathlib.Data.List.Basic
import Mathlib.Data.Nat.Notation
import RemoteHub.Lib.Digits

/-!
# Internet addresses (`std::net`)

`IpAddr` with the texts that `parse` takes and `to_string` writes, in Rust's standard library: an IPv4
address is four decimal numbers without leading zeros; an IPv6 address is eight groups of at most four
hexadecimal digits, of which one run of zeros may be left out (`::`) and the last two may be an IPv4
address.

A reader takes the first characters of a text and gives the rest.
-/

namespace Net

inductive IpAddr
  | v4 (value : BitVec 32)
  | v6 (value : BitVec 128)
  deriving DecidableEq, Repr

/-- The 16-bit groups of an IPv6 address. -/
def segments (value : BitVec 128) : List Nat := Digits.digits 65536 8 value.toNat

/-- The octets of an IPv4 address. -/
def octets (value : BitVec 32) : List Nat := Digits.digits 256 4 value.toNat

/-- The number whose digits to the base `b` are given. -/
def ofDigits (b : Nat) (digits : List Nat) : Nat := digits.foldl (fun n d => n * b + d) 0

namespace IpAddr

/-- `Ipv6Addr::to_ipv4_mapped`, of `::ffff:a.b.c.d`. -/
def toIpv4Mapped (value : BitVec 128) : Option (BitVec 32) :=
  if value.toNat / 2 ^ 32 = 0xffff then some (.ofNat 32 value.toNat) else none

/-- `to_canonical`. -/
def toCanonical : IpAddr → IpAddr
  | .v4 value => .v4 value
  | .v6 value => (toIpv4Mapped value).elim (.v6 value) .v4

end IpAddr

/-! ## Reading -/

abbrev Reader (α : Type) := List Char → Option (α × List Char)

/-- `to_digit`. -/
def digitValue (radix : Nat) (c : Char) : Option Nat :=
  let n := c.toNat
  let value := if '0'.toNat ≤ n ∧ n ≤ '9'.toNat then some (n - '0'.toNat)
    else if 'a'.toNat ≤ n ∧ n ≤ 'f'.toNat then some (n - 'a'.toNat + 10)
    else if 'A'.toNat ≤ n ∧ n ≤ 'F'.toNat then some (n - 'A'.toNat + 10)
    else none
  value.filter (· < radix)

def isDigit (radix : Nat) (c : Char) : Bool := (digitValue radix c).isSome

/-- `read_given_char`. -/
def readChar (expected : Char) : Reader Unit
  | c :: rest => if c = expected then some ((), rest) else none
  | [] => none

/-- `read_number`, of at most `most` digits and up to `bound`. -/
def readNumber (radix most : Nat) (zeroPrefix : Bool) (bound : Nat) : Reader Nat := fun text =>
  let digits := text.takeWhile (isDigit radix)
  let value := ofDigits radix (digits.filterMap (digitValue radix))
  if digits = [] ∨ most < digits.length ∨
      (zeroPrefix = false ∧ digits.head? = some '0' ∧ 1 < digits.length) ∨ bound < value then none
  else some (value, text.dropWhile (isDigit radix))

/-- `read_separator`: the separator stands before every part but the first. -/
def readSeparator {α : Type} (separator : Char) (index : Nat) (inner : Reader α) : Reader α :=
  fun text => if index = 0 then inner text else (readChar separator text).bind fun r => inner r.2

/-- `read_ipv4_addr`. -/
def readIpv4 : Reader (BitVec 32) := fun text =>
  let octet (index : Nat) := readSeparator '.' index (readNumber 10 3 false 255)
  (octet 0 text).bind fun a => (octet 1 a.2).bind fun b => (octet 2 b.2).bind fun c =>
    (octet 3 c.2).map fun d => (.ofNat 32 (ofDigits 256 [a.1, b.1, c.1, d.1]), d.2)

/-- `read_groups`: as many groups as there are, from the one with number `index` on, and whether an
IPv4 address is the end of them. -/
def readGroups (limit index : Nat) (text : List Char) : (List Nat × Bool) × List Char :=
  if index < limit then
    match (if index + 1 < limit then readSeparator ':' index readIpv4 text else none) with
    | some (value, rest) => (([value.toNat / 65536, value.toNat % 65536], true), rest)
    | none =>
      match readSeparator ':' index (readNumber 16 4 true 65535) text with
      | some (group, rest) =>
        let r := readGroups limit (index + 1) rest
        ((group :: r.1.1, r.1.2), r.2)
      | none => (([], false), text)
  else (([], false), text)

/-- `read_ipv6_addr`. -/
def readIpv6 : Reader (BitVec 128) := fun text =>
  let ((head, headIpv4), rest) := readGroups 8 0 text
  if head.length = 8 then some (.ofNat 128 (ofDigits 65536 head), rest)
  else if headIpv4 then none
  else
    (readChar ':' rest).bind fun colon => (readChar ':' colon.2).map fun colons =>
      let ((tail, _), rest) := readGroups (8 - (head.length + 1)) 0 colons.2
      let zeros := List.replicate (8 - head.length - tail.length) 0
      (.ofNat 128 (ofDigits 65536 (head ++ zeros ++ tail)), rest)

/-- `IpAddr::from_str`. -/
def IpAddr.parse (text : String) : Option IpAddr :=
  let read : Reader IpAddr := fun text =>
    ((readIpv4 text).map fun r => (.v4 r.1, r.2)).or ((readIpv6 text).map fun r => (.v6 r.1, r.2))
  match read text.toList with
  | some (ip, []) => some ip
  | _ => none

/-! ## Writing -/

/-- `{:x}`. -/
def hex (n : Nat) : List Char := Nat.toDigits 16 n

/-- Parts with a separator between them. -/
def separated (separator : Char) : List (List Char) → List Char
  | [] => []
  | [part] => part
  | part :: parts => part ++ separator :: separated separator parts

def ipv4Text (value : BitVec 32) : List Char := separated '.' ((octets value).map (Nat.toDigits 10))

/-- Where a run of zeros begins and how long it is. -/
structure Span where
  start : Nat := 0
  len : Nat := 0
  deriving DecidableEq

/-- The first of the longest runs of zeros. -/
def zeroes (segments : List Nat) : Span :=
  (segments.foldl (fun (acc : Span × Span × Nat) segment =>
    let (longest, current, i) := acc
    if segment = 0 then
      let current : Span := ⟨if current.len = 0 then i else current.start, current.len + 1⟩
      (if longest.len < current.len then current else longest, current, i + 1)
    else (longest, {}, i + 1)) ({}, {}, 0)).1

def ipv6Text (value : BitVec 128) : List Char :=
  match IpAddr.toIpv4Mapped value with
  | some ipv4 => [':', ':', 'f', 'f', 'f', 'f', ':'] ++ ipv4Text ipv4
  | none =>
    let segments := segments value
    let span := zeroes segments
    if 1 < span.len then
      separated ':' ((segments.take span.start).map hex) ++ [':', ':'] ++
        separated ':' ((segments.drop (span.start + span.len)).map hex)
    else separated ':' (segments.map hex)

/-- `to_string`. -/
def IpAddr.toText : IpAddr → String
  | .v4 value => .ofList (ipv4Text value)
  | .v6 value => .ofList (ipv6Text value)

end Net
