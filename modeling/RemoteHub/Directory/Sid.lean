import RemoteHub.Lib.Bytes
import RemoteHub.Lib.Text

/-!
# Security identifiers of Active Directory (`crates/directory/src/sid.rs`)
-/

namespace Directory

open Digits Text

/-- A SID in its string form `S-1-5-21-…`. -/
structure Sid where
  text : String
  deriving DecidableEq

namespace Sid

/-- `u32::from_le_bytes`. -/
def fromLeBytes (bytes : Bytes) : Nat := ofDigits 256 (bytes.reverse.map UInt8.toNat)

/-- `u32::to_le_bytes`. -/
def toLeBytes (n : Nat) : Bytes := (digits 256 4 n).reverse.map UInt8.ofNat

/-- `as_chunks::<4>`, without what is left over. -/
def chunks : Bytes → List Bytes
  | a :: b :: c :: d :: rest => [a, b, c, d] :: chunks rest
  | _ => []

/-- Parses the binary form: revision, sub-authority count, 48-bit authority (big-endian), then 32-bit
sub-authorities (little-endian). -/
def fromBytes : Bytes → Option Sid
  | revision :: count :: rest =>
    if revision ≠ 1 ∨ rest.length ≠ 6 + 4 * count.toNat then none
    else
      let authority := ofDigits 256 ((rest.take 6).map UInt8.toNat)
      let subs := (chunks (rest.drop 6)).map fromLeBytes
      some ⟨subs.foldl (fun sid sub => sid ++ "-" ++ sub.repr)
        ("S-" ++ revision.toNat.repr ++ "-" ++ authority.repr)⟩
  | _ => none

/-- The binary form, as `objectSid` holds it. -/
def toBytes (sid : Sid) : Bytes :=
  let parts := (split '-' sid.text).drop 2
  let authority := (parts.head?.bind (parseUnsigned (2 ^ 64 - 1))).getD 0
  let subs := parts.tail.filterMap (parseUnsigned (2 ^ 32 - 1))
  [1, .ofNat subs.length] ++ ((digits 256 8 authority).drop 2).map UInt8.ofNat ++
    subs.flatMap toLeBytes

/-- `from_str`. -/
def parse (s : String) : Option Sid :=
  let parts := split '-' s
  if parts[0]? ≠ some "S" ∨ parts[1]? ≠ some "1" then none
  else
    match parts.drop 2 with
    | [] => none
    | authority :: subs =>
      if (authority :: subs).length ≤ 16 ∧
          (parseUnsigned (2 ^ 64 - 1) authority).any (· < 2 ^ 48) = true ∧
          subs.all (fun n => (parseUnsigned (2 ^ 32 - 1) n).isSome) = true then some ⟨s⟩
      else none

end Sid

end Directory
