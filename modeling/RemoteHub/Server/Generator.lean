import RemoteHub.Lib.HashMap
import RemoteHub.Lib.Run
import RemoteHub.Server.Problem

/-!
# The password generator's settings (`crates/server/src/api/generator.rs`)

The organisation's settings and those of its users in `generator_settings`, and the requests that change
them. The browser generates (`RemoteHub.Web.Generate`). Audit entries are not modelled.
-/

namespace Server.Generator

open Model Except

/-- What the generator makes. -/
structure Settings where
  kind : String
  length : Int
  lower : Bool
  upper : Bool
  digits : Bool
  symbols : Bool
  /-- Whether a password may hold `0 O 1 l I`. -/
  lookAlikes : Bool
  words : Int
  separator : String
  deriving DecidableEq

namespace Settings

def builtIn : Settings where
  kind := "password"
  length := 20
  lower := true
  upper := true
  digits := true
  symbols := true
  lookAlikes := false
  words := 6
  separator := "-"

/-- The settings if they are ones the generator can follow. -/
def checked (s : Settings) : Answer Settings := do
  refuse (s.kind ∉ ["password", "passphrase"]) (invalid "kind")
  refuse (¬(8 ≤ s.length ∧ s.length ≤ 128)) (invalid "length")
  refuse (!(s.lower || s.upper || s.digits || s.symbols)) (invalid "characters")
  refuse (¬(3 ≤ s.words ∧ s.words ≤ 20)) (invalid "words")
  refuse (3 < s.separator.length ∨ s.separator.toList.any Text.isControl) (invalid "separator")
  return s

end Settings

/-- `generator_settings`; the organisation's are under no user. -/
abbrev Table := HashMap (Option Uuid) Settings

/-- The answer of `get`. -/
structure Stored where
  organisation : Settings
  own : Option Settings

/-- `stored`: the organisation's settings with `user` none, else that user's own. -/
def stored (table : Table) (user : Option Uuid) : Option Settings := table.lookup user

/-- The first statement of `get`. -/
def getOrganisation (table : Table) : Settings := (stored table none).getD .builtIn

/-- `get`, from its second statement on: the table may have changed since the first. -/
def get (organisation : Settings) (table : Table) (user : Uuid) : Stored where
  organisation := organisation
  own := stored table (some user)

inductive Request
  | saveOwn (user : Uuid) (input : Settings)
  | removeOwn (user : Uuid)
  | saveOrganisation (isAdmin : Bool) (input : Settings)

/-- The table after a request. -/
def Request.handle (table : Table) : Request → Answer Table
  | .saveOwn user input => return table.insert (some user) (← input.checked)
  | .removeOwn user => return table.erase (some user)
  | .saveOrganisation isAdmin input => do
    refuse (!isAdmin) (.of .forbidden)
    return table.insert none (← input.checked)

/-- A request that is refused leaves the table. -/
def step (table : Table) (request : Request) : Option Table :=
  some ((request.handle table).toOption.getD table)

end Server.Generator
