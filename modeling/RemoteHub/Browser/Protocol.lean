import RemoteHub.Lib.Bytes
import RemoteHub.Lib.Text

/-!
# What remotehub asks the browser agent for (`crates/browser/src/protocol.rs`)

The lines are JSON; that they are read as they were written is not modelled.
-/

namespace Browser

open Text

structure Login where
  username : String
  password : String
  deriving DecidableEq

/-- Opens the web interface at `https://host:port/`. -/
structure Open where
  host : String
  port : UInt16
  /-- Where the proxy connects instead of `host:port`. -/
  via : Option String := none
  spki : String
  width : UInt32
  height : UInt32
  timezone : Option String := none
  languages : List String := []
  login : Option Login := none
  deriving DecidableEq

inductive Reply
  /-- The display to open through guacd, on the agent's host. -/
  | ready (vncPort : UInt16) (vncPassword : String)
  | failed (reason : String)
  | filled
  | notFilled (reason : String)
  deriving DecidableEq

namespace Open

variable (request : Open)

/-- The authority Chromium asks the proxy for, lower case, IPv6 addresses in brackets. -/
def authority : String :=
  let host := toAsciiLowercase request.host
  if ':' ∈ host.toList then "[" ++ host ++ "]:" ++ request.port.toNat.repr
  else host ++ ":" ++ request.port.toNat.repr

def url : String := "https://" ++ request.authority ++ "/"

/-- `trim_end_matches` of a text. -/
def trimEndMatches (suffix : List Char) : Nat → List Char → List Char
  | 0, s => s
  | n + 1, s =>
    if suffix.isSuffixOf s then trimEndMatches suffix n (s.take (s.length - suffix.length)) else s

/-- What the page reports as `location.origin`: without the default port. -/
def origin : String :=
  if request.port = 443 then
    let authority := request.authority.toList
    "https://" ++ .ofList (trimEndMatches ":443".toList authority.length authority)
  else "https://" ++ request.authority

/-- A host name or address: it becomes part of a URL and of Chromium's command line. -/
def validHost : Bool :=
  request.host ≠ "" && (utf8 request.host).length ≤ 253 &&
    !(request.host.toList.head?.any (· ∈ ['-', '.'])) &&
    request.host.toList.all fun c => c.isAlphanum || c ∈ ['.', '-', '_', ':']

end Open

/-- An IANA time zone name; anything else is dropped. -/
def timezone (value : Option String) : Option String :=
  value.filter fun zone =>
    zone ≠ "" && (utf8 zone).length ≤ 64 &&
      zone.toList.all fun c => c.isAlphanum || c ∈ ['/', '_', '-', '+']

/-- A language of two or three letters, then subtags of one to eight letters or digits. -/
def languageTag (tag : String) : Bool :=
  let parts := pieces '-' [] tag.toList
  let language := parts.headD []
  (2 ≤ language.length && language.length ≤ 3) && language.all Char.isAlpha &&
    parts.tail.all fun part => 1 ≤ part.length && part.length ≤ 8 && part.all Char.isAlphanum

/-- `MAX_LANGUAGES`. -/
def maxLanguages : Nat := 8

/-- The language tags among `values`; anything else is dropped. -/
def languages (values : List String) : List String := (values.filter languageTag).take maxLanguages

end Browser
