import Mathlib.Algebra.Group.Int.Defs
import Mathlib.Data.List.Destutter
import Mathlib.Data.String.Basic
import RemoteHub.Directory.Sid
import RemoteHub.Lib.Answer

/-!
# Active Directory over LDAP (`crates/directory/src/ldap.rs`)

`ldap_escape` and the words of an error are the parameter `Ldap3`, the domain controller is `Server`. Every
exchange with it may find another directory: a function is given the server of each of its exchanges.
Whether a connection is encrypted, and how long it may take, is not modelled.
-/

namespace Directory.LdapDirectory

open Text

/-- Why a sign-in failed. -/
inductive AuthError
  | invalidCredentials
  | accountDisabled
  | accountLocked
  | accountExpired
  | passwordExpired
  | passwordMustChange
  | unavailable (error : String)
  | directory (error : String)
  deriving DecidableEq

/-- Who signed in. -/
structure Identity where
  sid : Sid
  guid : BitVec 128
  username : String
  upn : Option String
  displayName : String
  email : Option String
  groups : List Sid
  deriving DecidableEq

/-- A group found in the directory. -/
structure Group where
  sid : Sid
  name : String
  deriving DecidableEq

/-- The part of `LdapConfig` that says who signs in. -/
structure LdapConfig where
  bindDn : String
  bindPassword : String
  baseDn : String
  userFilter : Option String := none

/-! ## The server -/

structure LdapResult where
  rc : Nat
  text : String
  deriving DecidableEq

/-- `SearchEntry`: an attribute's values are texts or bytes. -/
structure SearchEntry where
  dn : String
  attrs : List (String × List String) := []
  binAttrs : List (String × List Bytes) := []
  deriving DecidableEq

inductive Scope
  | base
  | subtree
  deriving DecidableEq

structure Ldap3 where
  /-- `ldap_escape`. -/
  escape : String → String
  /-- The words of the error that `success` makes of a result. -/
  describe : LdapResult → String

/-- A domain controller, and the connection to it. -/
structure Server where
  connect : Except String Unit
  /-- `simple_bind` with a name and a password. -/
  bind : String → String → Except String LdapResult
  /-- `search` from a base in a scope with a filter for attributes. -/
  search : String → Scope → String → List String → Except String (List SearchEntry × LdapResult)

/-! ## Attributes -/

/-- Attribute names from the server may differ in case from what was asked for. -/
def lookup {α : Type} (map : List (String × List α)) (name : String) : Option (List α) :=
  (map.find? fun e => eqIgnoreAsciiCase e.1 name).map (·.2)

/-- Binary values of an attribute, those filed as texts too. -/
def binaryValues (entry : SearchEntry) (name : String) : List Bytes :=
  (lookup entry.binAttrs name).getD [] ++ ((lookup entry.attrs name).getD []).map utf8

def firstBinary (entry : SearchEntry) (name : String) : Option Bytes := (binaryValues entry name).head?

def firstText (entry : SearchEntry) (name : String) : Option String :=
  ((lookup entry.attrs name).bind List.head?).filter (· ≠ "")

/-! ## Names -/

/-- The name a user typed, reduced to what identifies the account. -/
inductive Account
  | sam (name : String)
  | upn (name : String)
  deriving DecidableEq

def Account.name : Account → String
  | sam name => name
  | upn name => name

def Account.parse (input : String) : Option Account :=
  let input := trim input
  if input = "" ∨ 256 < (utf8 input).length ∨ input.toList.any isControl = true then none
  else
    let account :=
      match splitOnce '\\' input with
      | some (_, name) => .sam name
      | none => if '@' ∈ input.toList then .upn input else .sam input
    if account.name = "" then none else some account

/-- The attribute that holds the name. -/
def Account.attributeName : Account → String
  | sam _ => "sAMAccountName"
  | upn _ => "userPrincipalName"

/-! ## Filters -/

def userFilter (lib : Ldap3) (account : Account) (extra : Option String) : String :=
  let name := "(" ++ account.attributeName ++ "=" ++ lib.escape account.name ++ ")"
  "(&(objectCategory=person)(objectClass=user)" ++ name ++ extra.getD "" ++ ")"

/-- A filter value that matches `bytes` exactly: every byte as `\hh`. -/
def escapeBinary (bytes : Bytes) : String :=
  .ofList (bytes.flatMap fun b => '\\' :: (Digits.digits 16 2 b.toNat).map Nat.digitChar)

/-- The filter of `refresh`. -/
def refreshFilter (sid : Sid) (extra : Option String) : String :=
  "(&(objectCategory=person)(objectClass=user)(objectSid=" ++ escapeBinary sid.toBytes ++ ")" ++
    extra.getD "" ++ ")"

/-- The filter of `group_names`. -/
def groupsFilter (sids : List Sid) : String :=
  "(&(objectCategory=group)(|" ++
    String.join (sids.map fun sid => "(objectSid=" ++ escapeBinary sid.toBytes ++ ")") ++ "))"

/-! ## Errors -/

def invalidCredentialsCode : Nat := 49

/-- What stands before and behind the first `separator`. -/
def cut (separator : List Char) : List Char → Option (List Char × List Char)
  | [] => none
  | c :: s =>
    if separator.isPrefixOf (c :: s) then some ([], (c :: s).drop separator.length)
    else (cut separator s).map fun (before, after) => (c :: before, after)

/-- Maps the sub-code in a failed bind's diagnostic message to a reason. -/
def bindFailure (diagnostic : String) : AuthError :=
  let code := (cut "data ".toList diagnostic.toList).map fun (_, rest) =>
    let part := ((cut "data ".toList rest).map (·.1)).getD rest
    toAsciiLowercase (.ofList (part.takeWhile fun c => c ≠ ',' ∧ c ≠ ' '))
  if code ∈ [some "530", some "531", some "533"] then .accountDisabled
  else if code = some "532" then .passwordExpired
  else if code = some "701" then .accountExpired
  else if code = some "773" then .passwordMustChange
  else if code = some "775" then .accountLocked
  else .invalidCredentials

/-! ## Exchanges -/

/-- `success`, with the error as `directory` has it. -/
def success (lib : Ldap3) (answer : List SearchEntry × LdapResult) : Except AuthError (List SearchEntry) :=
  if answer.2.rc = 0 then .ok answer.1 else .error (.directory (lib.describe answer.2))

def connect (server : Server) : Except AuthError Unit := server.connect.mapError .unavailable

/-- A connection bound as the service account. -/
def service (lib : Ldap3) (config : LdapConfig) (server : Server) : Except AuthError Unit := do
  connect server
  let bound ← (server.bind config.bindDn config.bindPassword).mapError .unavailable
  .refuse (bound.rc ≠ 0) (.directory ("service account bind failed: " ++ lib.describe bound))

def userAttributes : List String :=
  ["sAMAccountName", "userPrincipalName", "displayName", "mail", "objectSid", "objectGUID"]

def findUser (lib : Ldap3) (config : LdapConfig) (server : Server) (account : Account) :
    Except AuthError SearchEntry := do
  let filter := userFilter lib account config.userFilter
  let answer ← (server.search config.baseDn .subtree filter userAttributes).mapError .unavailable
  match ← success lib answer with
  | [entry] => .ok entry
  | [] => .error .invalidCredentials
  | _ => .error (.directory ("more than one entry matches " ++ filter))

def verifyPassword (server : Server) (dn password : String) : Except AuthError Unit := do
  connect server
  let result ← (server.bind dn password).mapError .unavailable
  if result.rc = 0 then .ok ()
  else if result.rc = invalidCredentialsCode then .error (bindFailure result.text)
  else .error (.directory ("bind failed with code " ++ result.rc.repr ++ ": " ++ result.text))

/-- `sort` and `dedup`. -/
def sortDedup (sids : List Sid) : List Sid :=
  (sids.mergeSort fun a b => decide (a.text ≤ b.text)).destutter (· ≠ ·)

def tokenGroups (lib : Ldap3) (server : Server) (dn : String) : Except AuthError (List Sid) := do
  let answer ← (server.search dn .base "(objectClass=*)" ["tokenGroups"]).mapError .unavailable
  let entries ← success lib answer
  let groups ← (entries.flatMap (binaryValues · "tokenGroups")).mapM fun value =>
    (Sid.fromBytes value).elim (.error (.directory "invalid SID in tokenGroups")) .ok
  return sortDedup groups

/-! ## Signing in -/

/-- The exchanges of a sign-in. -/
inductive SignInStep
  | service
  | find
  | verify
  | groups
  deriving DecidableEq

/-- `Uuid::from_bytes_le` of 16 bytes. -/
def guidFromBytes (bytes : Bytes) : Option (BitVec 128) :=
  if bytes.length = 16 then
    let ordered := (bytes.take 4).reverse ++ ((bytes.drop 4).take 2).reverse ++
      ((bytes.drop 6).take 2).reverse ++ bytes.drop 8
    some (.ofNat 128 (Digits.ofDigits 256 (ordered.map UInt8.toNat)))
  else none

def authenticate (lib : Ldap3) (config : LdapConfig) (servers : SignInStep → Server)
    (username password : String) : Except AuthError Identity := do
  let account ← (Account.parse username).elim (.error .invalidCredentials) .ok
  .refuse (password = "") .invalidCredentials
  service lib config (servers .service)
  let entry ← findUser lib config (servers .find) account
  verifyPassword (servers .verify) entry.dn password
  let groups ← tokenGroups lib (servers .groups) entry.dn
  let sid ← ((firstBinary entry "objectSid").bind Sid.fromBytes).elim
    (.error (.directory (entry.dn ++ " has no valid objectSid"))) .ok
  let guid ← ((firstBinary entry "objectGUID").bind guidFromBytes).elim
    (.error (.directory (entry.dn ++ " has no valid objectGUID"))) .ok
  let username ← (firstText entry "sAMAccountName").elim
    (.error (.directory (entry.dn ++ " has no sAMAccountName"))) .ok
  return { sid, guid, username, groups
           displayName := (firstText entry "displayName").getD username
           upn := firstText entry "userPrincipalName"
           email := firstText entry "mail" }

/-! ## Asking again -/

/-- `ACCOUNT_DISABLED`. -/
def accountDisabledBit : Nat := 0x2

/-- Seconds from 1601-01-01 to 1970-01-01. -/
def filetimeToUnix : Nat := 11644473600

/-- Whether `accountExpires` lies before `now`, a time in seconds since 1970. -/
def expired (accountExpires : Option Int) (now : Int) : Bool :=
  match accountExpires.filter (0 < ·) with
  | none => false
  | some expires =>
    let now := if 0 ≤ now then now.toNat + filetimeToUnix else 0
    expires.toNat / 10000000 < now

/-- The exchanges of `refresh`. -/
inductive RefreshStep
  | service
  | find
  | groups
  deriving DecidableEq

def refreshAttributes : List String := ["userAccountControl", "accountExpires"]

def refresh (lib : Ldap3) (config : LdapConfig) (servers : RefreshStep → Server) (now : Int) (sid : Sid) :
    Except AuthError (List Sid) := do
  let filter := refreshFilter sid config.userFilter
  service lib config (servers .service)
  let answer ← ((servers .find).search config.baseDn .subtree filter refreshAttributes).mapError
    .unavailable
  let entry ← (← success lib answer).head?.elim (.error .invalidCredentials) .ok
  let control := ((firstText entry "userAccountControl").bind (parseUnsigned (2 ^ 32 - 1))).getD 0
  .refuse (control &&& accountDisabledBit ≠ 0) .accountDisabled
  let expires := (firstText entry "accountExpires").bind (parseSigned (-2 ^ 63) (2 ^ 63 - 1))
  .refuse (expired expires now = true) .accountExpired
  tokenGroups lib (servers .groups) entry.dn

/-! ## The names of groups -/

/-- `chunks(100)`. -/
def chunks : Nat → List Sid → List (List Sid)
  | 0, _ => []
  | _, [] => []
  | rounds + 1, sids => sids.take 100 :: chunks rounds (sids.drop 100)

/-- The group of an entry that has a SID and a name. -/
def groupOf (entry : SearchEntry) : Option Group := do
  let sid ← (firstBinary entry "objectSid").bind Sid.fromBytes
  let name ← firstText entry "cn"
  return { sid, name }

/-- The groups of a chunk. -/
def chunkNames (lib : Ldap3) (config : LdapConfig) (server : Server) (sids : List Sid) :
    Except AuthError (List Group) := do
  service lib config server
  let answer ← (server.search config.baseDn .subtree (groupsFilter sids) ["cn", "objectSid"]).mapError
    .unavailable
  .refuse (answer.2.rc ≠ 0)
    (.directory ("group lookup failed with code " ++ answer.2.rc.repr ++ ": " ++ answer.2.text))
  return answer.1.filterMap groupOf

/-- The names of the groups with `sids`; `servers` are those that the searches for the chunks meet. -/
def groupNames (lib : Ldap3) (config : LdapConfig) (servers : Nat → Server) (sids : List Sid) :
    Except AuthError (List Group) :=
  ((chunks sids.length sids).zipIdx.mapM fun e => chunkNames lib config (servers e.2) e.1).map List.flatten

end Directory.LdapDirectory
