import RemoteHub.Lib.Text
import RemoteHub.Lib.Url
import Mathlib.Data.List.Infix

/-!
# Which web pages a vault login belongs to (`crates/server/src/site.rs`)

The parser of the `url` crate and the public suffix list of `psl` are parameters.
-/

namespace Server.Site

variable (parser : UrlParser) (psl : String → Option String)

/-- An `http` or `https` URL; one without a scheme is taken as `https`. -/
def parse (text : String) : Option Url :=
  let text := Text.trim text
  if text = "" then none
  else
    let url := if "://".toList <:+: text.toList then parser.parse text else parser.parse ("https://" ++ text)
    url.filter fun url => url.scheme ∈ ["http", "https"]

/-- `strip_suffix('.')`. -/
def bare (host : String) : String :=
  if host.toList.getLast? = some '.' then .ofList host.toList.dropLast else host

/-- The registrable domain of `host`; none for a host without a dot and for a public suffix itself, which
only match themselves. -/
def registrable (host : String) : Option String := if '.' ∉ host.toList then none else psl host

/-- `port_or_known_default`. -/
def portOrKnownDefault (url : Url) : Option Nat :=
  url.port.or (if url.scheme = "https" then some 443 else if url.scheme = "http" then some 80 else none)

/-- What `matches` compares of two URLs. -/
def belongs (login page : Url) : Bool :=
  if login.scheme ≠ page.scheme ∨ portOrKnownDefault login ≠ portOrKnownDefault page then false
  else
    match login.host, page.host with
    | some (.domain loginHost), some (.domain pageHost) =>
      let loginHost := bare loginHost
      let pageHost := bare pageHost
      if loginHost = pageHost then true
      else if login.scheme ≠ "https" then false
      else
        match registrable psl loginHost, registrable psl pageHost with
        | some a, some b => a = b
        | _, _ => false
    | some loginHost, some pageHost => loginHost = pageHost
    | _, _ => false

/-- `matches`: whether the page at `pageOrigin` belongs to the login with the URL `loginUrl`. -/
def siteMatches (loginUrl pageOrigin : String) : Bool :=
  match parse parser loginUrl, parse parser pageOrigin with
  | some login, some page => belongs psl login page
  | _, _ => false

end Server.Site
