import RemoteHub.Lib.DataItem
import RemoteHub.Server.Webauthn

/-!
# Keys in COSE form (`crates/server/src/webauthn.rs`)

`cose_es256` and its reader of CBOR. An argument has at most two bytes, so that no conversion to `usize` or
`i64` fails, and a slice is too short for the position to overflow.
-/

namespace Server.Webauthn

/-- COSE's number for ES256. -/
def es256 : Int := -7

structure Cbor where
  data : Bytes
  pos : Nat

namespace Cbor

def byte (r : Cbor) : Option (UInt8 × Cbor) := do
  let byte ← r.data[r.pos]?
  return (byte, { r with pos := r.pos + 1 })

/-- The head of the next item: its major type and argument. -/
def next (r : Cbor) : Option ((Nat × Nat) × Cbor) := do
  let (first, r) ← r.byte
  let major := (first >>> 5).toNat
  let info := (first &&& 0x1f).toNat
  if info ≤ 23 then
    return ((major, info), r)
  else if info = 24 then
    let (a, r) ← r.byte
    return ((major, a.toNat), r)
  else if info = 25 then
    let (a, r) ← r.byte
    let (b, r) ← r.byte
    return ((major, 256 * a.toNat + b.toNat), r)
  else none

/-- The argument of the next item, which must be of the major type `major`. -/
def head (major : Nat) (r : Cbor) : Option (Nat × Cbor) := do
  let ((found, argument), r) ← r.next
  if found = major then return (argument, r) else none

def int (r : Cbor) : Option (Int × Cbor) := do
  let ((major, n), r) ← r.next
  match major with
  | 0 => return ((n : Int), r)
  | 1 => return (-1 - n, r)
  | _ => none

def take (length : Nat) (r : Cbor) : Option (Bytes × Cbor) :=
  if r.pos + length ≤ r.data.length then
    some ((r.data.drop r.pos).take length, { r with pos := r.pos + length })
  else none

def bytes (r : Cbor) : Option (Bytes × Cbor) := do
  let (length, r) ← r.head 2
  r.take length

/-- Skips an integer, a byte string or a text string. -/
def skip (r : Cbor) : Option Cbor := do
  let ((major, length), r) ← r.next
  match major with
  | 0 | 1 => return r
  | 2 | 3 => (r.take length).map Prod.snd
  | _ => none

end Cbor

/-- What the loop over the entries has read. -/
structure Parts where
  kty : Option Int
  alg : Option Int
  crv : Option Int
  x : Option Bytes
  y : Option Bytes

def Parts.none : Parts := ⟨.none, .none, .none, .none, .none⟩

/-- The value of an entry, after its label. -/
def value (label : Int) (r : Cbor) (p : Parts) : Option (Parts × Cbor) :=
  match label with
  | 1 => r.int.map fun (kty, r) => ({ p with kty := some kty }, r)
  | 3 => r.int.map fun (alg, r) => ({ p with alg := some alg }, r)
  | -1 => r.int.map fun (crv, r) => ({ p with crv := some crv }, r)
  | -2 => r.bytes.map fun (x, r) => ({ p with x := some x }, r)
  | -3 => r.bytes.map fun (y, r) => ({ p with y := some y }, r)
  | _ => r.skip.map fun r => (p, r)

/-- `for _ in 0..entries`. -/
def entries : Nat → Cbor → Parts → Option (Parts × Cbor)
  | 0, r, p => some (p, r)
  | n + 1, r, p => do
    let (label, r) ← r.int
    let (p, r) ← value label r p
    entries n r p

/-- The public key of an ES256 key in COSE form, as an uncompressed SEC1 point. -/
def coseEs256 (c : Crates) (cose : Bytes) : Option Bytes := do
  let (count, r) ← Cbor.head 5 ⟨cose, 0⟩
  let (p, _) ← entries count r .none
  if (p.kty, p.alg, p.crv) ≠ (some 2, some es256, some 1) then none
  else
    let x ← p.x
    let y ← p.y
    if x.length ≠ 32 ∨ y.length ≠ 32 then none
    else
      let point := 0x04 :: (x ++ y)
      if c.isKey point then some point else none

end Server.Webauthn
