import RemoteHub.Lib.Answer
import RemoteHub.Lib.IpAddr
import RemoteHub.Lib.Text

/-!
# Local administrator passwords of LAPS (`crates/directory/src/laps.rs`)

The LDAP server, with `ldap_escape` and its matching rule, is the parameter `Ldap`; the reading of the
JSON of Windows LAPS is the parameter `windowsLaps`.
-/

namespace Directory

open Text

/-- A local account and its current LAPS password. -/
structure LapsPassword where
  account : String
  password : String
  /-- The computer's NetBIOS name. -/
  computer : String
  deriving DecidableEq

inductive LapsError
  | computerNotFound (host : String)
  | ambiguous (host : String)
  | noPassword (host : String)
  deriving DecidableEq

/-- The attributes of a computer account. -/
structure Computer where
  sAMAccountName : Option String := none
  dNSHostName : Option String := none
  msLAPSPassword : Option String := none
  msMcsAdmPwd : Option String := none
  deriving DecidableEq

/-- The account legacy LAPS manages unless a policy names another. -/
def legacyAccount : String := "Administrator"

/-- The account and the password in the JSON of `msLAPS-Password`. -/
abbrev WindowsLaps := String → Option (String × String)

/-- `trim_end_matches`. -/
def trimEndMatches (c : Char) (text : String) : String :=
  .ofList (text.toList.reverse.dropWhile (· = c)).reverse

/-- The password from Windows LAPS or, failing that, legacy LAPS. -/
def password (windowsLaps : WindowsLaps) (windows legacy : Option String) (computer : String) :
    Option LapsPassword :=
  let fromWindows := (windows.bind windowsLaps).filter fun laps => laps.1 ≠ "" ∧ laps.2 ≠ ""
  let fromLegacy := (legacy.filter (· ≠ "")).map fun password => (legacyAccount, password)
  (fromWindows.or fromLegacy).map fun (account, password) =>
    { account, password, computer := trimEndMatches '$' computer }

def normalize (host : String) : String := trimEndMatches '.' (trim host)

/-- The first label of a name. -/
def label (name : String) : String := (split '.' name).headD name

structure Ldap where
  /-- `ldap_escape`. -/
  escape : String → String
  /-- Whether a computer is found by a filter. -/
  finds : String → Computer → Bool
  /-- What characters have in common that match ignoring case. -/
  fold : Char → Char

/-- The computer accounts `host` may name: its full DNS name, or every DNS name whose first label it
is. -/
def filter (ldap : Ldap) (host : String) : Option String :=
  let host := normalize host
  if host = "" ∨ (Net.IpAddr.parse host).isSome then none
  else
    let name := ldap.escape host
    let label := ldap.escape (label host)
    some ("(&(objectCategory=computer)(|(dNSHostName=" ++ name ++ ")(dNSHostName=" ++ label ++ ".*)))")

/-- Which of the computers found for `host` it means: the only one, or the one whose full name it is. -/
def choose (dnsNames : List (Option String)) (host : String) : Except LapsError Nat :=
  let host := normalize host
  match dnsNames.length with
  | 0 => .error (.computerNotFound host)
  | 1 => .ok 0
  | _ =>
    match (dnsNames.zipIdx.filter fun e => e.1.any (eqIgnoreAsciiCase · host)).map (·.2) with
    | [index] => .ok index
    | _ => .error (.ambiguous host)

/-- The computers that the search for `host` finds. -/
def found (ldap : Ldap) (computers : List Computer) (host : String) : List Computer :=
  (filter ldap host).elim [] fun filter => computers.filter (ldap.finds filter)

/-- The computer whose password `laps_password` reads. -/
def chosen (ldap : Ldap) (computers : List Computer) (host : String) : Except LapsError Computer := do
  let filter ← (filter ldap host).elim (.error (.computerNotFound host)) .ok
  let entries := computers.filter (ldap.finds filter)
  let index ← choose (entries.map (·.dNSHostName)) host
  entries[index]?.elim (.error (.computerNotFound host)) .ok

/-- `laps_password`, of a directory that answers. -/
def lapsPassword (ldap : Ldap) (windowsLaps : WindowsLaps) (computers : List Computer)
    (host : String) : Except LapsError LapsPassword := do
  let entry ← chosen ldap computers host
  (password windowsLaps entry.msLAPSPassword entry.msMcsAdmPwd
    (entry.sAMAccountName.getD "")).elim (.error (.noPassword host)) .ok

end Directory
