import RemoteHub.Lib.IpAddr

/-!
# URLs

What a parser of URLs reads, and the host as it writes it. The parser is a parameter: `Parser.Standard`
says what the URL Standard has of it that a reader of the host relies on. A name whose last label is a
number is an address or no host, and a URL of the web always has a host.
-/

inductive UrlHost
  | domain (name : String)
  | ipv4 (value : BitVec 32)
  | ipv6 (value : BitVec 128)
  deriving DecidableEq

structure Url where
  scheme : String
  host : Option UrlHost
  /-- None for the scheme's default. -/
  port : Option Nat
  deriving DecidableEq

/-- A parser of absolute URLs, with what it writes between the brackets of an IPv6 address. -/
structure UrlParser where
  parse : String → Option Url
  ipv6Text : BitVec 128 → String

namespace UrlParser

/-- A host as a URL has it. -/
def hostText (parser : UrlParser) : UrlHost → String
  | .domain name => name
  | .ipv4 value => .ofList (Net.ipv4Text value)
  | .ipv6 value => .ofList ('[' :: (parser.ipv6Text value).toList ++ [']'])

/-- The last label of a host, a dot at the end aside. -/
def lastLabel (host : List Char) : List Char :=
  let reversed := if host.getLast? = some '.' then host.dropLast.reverse else host.reverse
  (reversed.takeWhile (· ≠ '.')).reverse

def EndsInNumber (host : List Char) : Prop := lastLabel host ≠ [] ∧ ∀ c ∈ lastLabel host, c.isDigit = true

structure Standard (parser : UrlParser) : Prop where
  host : ∀ text url, parser.parse text = some url → url.scheme ∈ ["http", "https"] → url.host ≠ none
  domain : ∀ text url name, parser.parse text = some url → url.host = some (.domain name) →
    ¬EndsInNumber name.toList ∧ '[' ∉ name.toList
  ipv6 : ∀ value value', parser.ipv6Text value = parser.ipv6Text value' → value = value'

end UrlParser
