import RemoteHub.Lib.IpText

/-!
# Socket addresses (`std::net::SocketAddr`)

`1.2.3.4:80`, `[2001:db8::1]:80`, and `[fe80::1%2]:80` with a scope.
-/

namespace Net

/-- `flowinfo`, which no text has, is left out. -/
structure SocketAddr where
  ip : IpAddr
  port : Nat
  scopeId : Nat
  deriving DecidableEq

/-- `read_number` of a decimal number of any length. -/
def readDecimal (bound : Nat) : Reader Nat := fun text => readNumber 10 text.length true bound text

/-- `read_port`. -/
def readPort : Reader Nat := fun text => (readChar ':' text).bind fun r => readDecimal 65535 r.2

/-- `read_scope_id`. -/
def readScopeId : Reader Nat := fun text => (readChar '%' text).bind fun r => readDecimal (2 ^ 32 - 1) r.2

/-- `read_socket_addr_v4`. -/
def readSocketV4 : Reader SocketAddr := fun text =>
  (readIpv4 text).bind fun ip => (readPort ip.2).map fun port => (⟨.v4 ip.1, port.1, 0⟩, port.2)

/-- `read_socket_addr_v6`. -/
def readSocketV6 : Reader SocketAddr := fun text =>
  (readChar '[' text).bind fun opened => (readIpv6 opened.2).bind fun ip =>
    let scope := (readScopeId ip.2).getD (0, ip.2)
    (readChar ']' scope.2).bind fun closed => (readPort closed.2).map fun port =>
      (⟨.v6 ip.1, port.1, scope.1⟩, port.2)

/-- `SocketAddr::from_str`. -/
def SocketAddr.parse (text : String) : Option SocketAddr :=
  match (readSocketV4 text.toList).or (readSocketV6 text.toList) with
  | some (address, []) => some address
  | _ => none

end Net
