import RemoteHub.Lib.IpAddr
import RemoteHub.Lib.Text

/-!
# Address ranges such as `10.0.0.0/8` (`crates/connector/src/network.rs`)
-/

namespace Connector

open Net

def bits : IpAddr → Nat
  | .v4 _ => 32
  | .v6 _ => 128

/-- An address range such as `10.0.0.0/8` or `fd00::/8`, or a single address. -/
structure Network where
  address : IpAddr
  /-- `prefix`. -/
  length : Nat
  bounded : length ≤ bits address
  deriving DecidableEq

namespace Network

/-- `MAX.checked_shl(by).unwrap_or(0)`. -/
def mask (w shift : Nat) : BitVec w := if shift < w then BitVec.allOnes w <<< shift else 0

def contains (network : Network) (ip : IpAddr) : Bool :=
  match network.address, ip.toCanonical with
  | .v4 net, .v4 ip =>
    let mask := mask 32 (32 - network.length)
    net &&& mask = ip &&& mask
  | .v6 net, .v6 ip =>
    let mask := mask 128 (128 - network.length)
    net &&& mask = ip &&& mask
  | _, _ => false

/-- `from_str`. -/
def parse (text : String) : Option Network :=
  let (address, length) := match Text.splitOnce '/' text with
    | some (address, length) => (address, some length)
    | none => (text, none)
  (IpAddr.parse address).bind fun address =>
    let address := address.toCanonical
    let length := match length with
      | none => some (bits address)
      | some length => Text.parseUnsigned 255 length
    length.bind fun length => if h : length ≤ bits address then some ⟨address, length, h⟩ else none

/-- `to_string`. -/
def toText (network : Network) : String := network.address.toText ++ "/" ++ network.length.repr

end Network

end Connector
