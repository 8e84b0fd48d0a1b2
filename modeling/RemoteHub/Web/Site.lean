import RemoteHub.Lib.Url
import RemoteHub.Web.Text
import Mathlib.Data.List.Infix

/-!
# Which web pages a vault login belongs to, in the browser extension (`web/src/extension/site.ts`)

The browser's `URL` and `getDomain` of `tldts` are parameters. A host is its text here, as `hostname` has
it, and a port the text of `port`.
-/

namespace Web.Site

variable (parser : UrlParser) (getDomain : String → Option String)

/-- An http or https URL; one without a scheme is taken as https. -/
def parse (text : String) : Option Url :=
  let trimmed := trim text
  if trimmed = "" then none
  else
    (parser.parse (if "://".toList <:+: trimmed.toList then trimmed else "https://" ++ trimmed)).filter
      fun url => url.scheme = "http" ∨ url.scheme = "https"

/-- `hostname`, empty without a host. -/
def hostname (url : Url) : String := url.host.elim "" parser.hostText

/-- The port a URL reaches, the scheme's default included. -/
def port (url : Url) : String :=
  url.port.elim (if url.scheme = "https" then "443" else "80") Nat.repr

def bare (host : String) : String :=
  if host.toList.getLast? = some '.' then .ofList host.toList.dropLast else host

/-- `/^\d+\.\d+\.\d+\.\d+$/`. -/
def isIpv4 (host : String) : Bool :=
  let labels := Text.pieces '.' [] host.toList
  labels.length = 4 && labels.all fun label => label ≠ [] && label.all Char.isDigit

/-- An IPv4 or IPv6 address, as `URL` writes it. -/
def isAddress (host : String) : Bool := host.toList.head? = some '[' || isIpv4 host

/-- The registrable domain of `host`; none for a host without a dot, an address, and a public suffix
itself, which only match themselves. -/
def registrable (host : String) : Option String :=
  if '.' ∉ host.toList ∨ isAddress host then none else getDomain host

/-- What `matches` compares of two URLs. -/
def belongs (login page : Url) : Bool :=
  if login.scheme ≠ page.scheme ∨ port login ≠ port page then false
  else
    let loginHost := bare (hostname parser login)
    let pageHost := bare (hostname parser page)
    if loginHost = pageHost then true
    else if login.scheme ≠ "https" ∨ isAddress loginHost ∨ isAddress pageHost then false
    else
      let a := registrable getDomain loginHost
      let b := registrable getDomain pageHost
      a ≠ none && a = b

/-- `matches`: whether the page at `pageOrigin` belongs to the login with the URL `loginUrl`. -/
def siteMatches (loginUrl pageOrigin : String) : Bool :=
  match parse parser loginUrl, parse parser pageOrigin with
  | some login, some page => belongs parser getDomain login page
  | _, _ => false

end Web.Site
