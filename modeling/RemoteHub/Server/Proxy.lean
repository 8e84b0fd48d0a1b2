import RemoteHub.Connector.Network
import RemoteHub.Lib.SocketAddr

/-!
# The client's address behind reverse proxies (`crates/server/src/proxy.rs`)

Every proxy on the way extends `X-Forwarded-For` on the right, in the last header of the name or in one
more. Anyone can send the header, so it counts only as far as the chain of trusted proxies reaches.
-/

namespace Server.Proxy

open Net Connector

/-- An address as proxies write it: `1.2.3.4`, `2001:db8::1`, or with a port. -/
def parse (entry : String) : Option IpAddr :=
  ((IpAddr.parse entry).or ((SocketAddr.parse entry).map (·.ip))).map (·.toCanonical)

def isTrusted (trusted : List Network) (ip : IpAddr) : Bool := trusted.any (·.contains ip)

/-- The entries of the header values, the last one first. -/
def entries (forwarded : List String) : List String :=
  forwarded.reverse.flatMap fun value => (Text.split ',' value).reverse

/-- The loop over the entries. -/
def follow (trusted : List Network) (client : IpAddr) : List String → IpAddr
  | [] => client
  | entry :: entries =>
    match parse (Text.trim entry) with
    -- an entry that is no address ends the chain
    | none => client
    | some ip => if isTrusted trusted ip then follow trusted ip entries else ip

/-- `client_address`. -/
def clientAddress (peer : IpAddr) (forwarded : List String) (trusted : List Network) : IpAddr :=
  let client := peer.toCanonical
  if isTrusted trusted client then follow trusted client (entries forwarded) else client

end Server.Proxy
