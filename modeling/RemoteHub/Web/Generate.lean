import Mathlib.Algebra.Group.Nat.Defs
import RemoteHub.Server.Generator

/-!
# Passwords made in the browser (`web/src/lib/vault/generate.ts`, `generator.svelte.ts`)

`generate` draws from the values that `crypto.getRandomValues` gives, 32 bits each, in their order; it is
none where they do not suffice. The words of `@scure/bip39` are a parameter. `strength` is not modelled.

A page loads the settings of who is signed in once, and its requests are answered in any order while the
settings change on the server, also between the two statements of an answer (`step`). A request is made as who
is signed in then.
-/

namespace Web.Generate

open Model
open Server.Generator (Request Settings Stored Table get getOrganisation)

/-- A value of `getRandomValues`. -/
abbrev Value := Fin (2 ^ 32)

/-- `SETS`, in their order. -/
def allSets (s : Settings) : List (Bool × String) :=
  [(s.lower, "abcdefghijklmnopqrstuvwxyz"), (s.upper, "ABCDEFGHIJKLMNOPQRSTUVWXYZ"),
    (s.digits, "0123456789"), (s.symbols, "-_.!?#%+=")]

/-- `LOOK_ALIKES`. -/
def lookAlikes : List Char := "0O1lI".toList

/-- `Math.floor(2 ** 32 / bound) * bound`. -/
def limit (bound : Nat) : Nat := 2 ^ 32 / bound * bound

/-- An index below `bound` and the values left. -/
def below (bound : Nat) : List Value → Option (Nat × List Value)
  | [] => none
  | value :: values => if limit bound ≤ value then below bound values else some (value % bound, values)

/-- The character sets that `s` chooses, each without look-alikes unless allowed. -/
def sets (s : Settings) : List (List Char) :=
  ((allSets s).filter (·.1)).map fun set =>
    if s.lookAlikes then set.2.toList else set.2.toList.filter (· ∉ lookAlikes)

/-- `all`. -/
def characters (s : Settings) : List Char := (sets s).flatten

/-- `n` of `items`, each drawn on its own. -/
def drawMany {α : Type} (items : List α) : Nat → List Value → Option (List α × List Value)
  | 0, values => some ([], values)
  | n + 1, values =>
    (below items.length values).bind fun (index, values) =>
      items[index]?.bind fun item =>
        (drawMany items n values).map fun (rest, values) => (item :: rest, values)

/-- Whether a password has a character of every set that is chosen. -/
def hasEach (s : Settings) (password : List Char) : Bool :=
  (sets s).all fun set => password.any (· ∈ set)

/-- Passwords until one has a character of every set; `rounds` bounds how many. -/
def attempts (s : Settings) : Nat → List Value → Option (List Char)
  | 0, _ => none
  | rounds + 1, values =>
    (drawMany (characters s) s.length.toNat values).bind fun (password, values) =>
      if hasEach s password then some password else attempts s rounds values

/-- The words of a passphrase. -/
def phrase (wordlist : List String) (s : Settings) (values : List Value) : Option (List String) :=
  (drawMany wordlist s.words.toNat values).map (·.1)

/-- A password or a passphrase as `s` asks; empty if it chooses no characters. Every password takes a value
at least. -/
def generate (wordlist : List String) (s : Settings) (values : List Value) : Option String :=
  if s.kind = "passphrase" then (phrase wordlist s values).map s.separator.intercalate
  else if characters s = [] then some ""
  else (attempts s values.length values).map .ofList

/-! ## The defaults of a page -/

/-- A request for the defaults. -/
structure Load where
  who : Uuid
  /-- What the server's first statement has found. -/
  organisation : Option Settings := none
  /-- None before the server has answered. -/
  answer : Option Stored := none

/-- The server's table and a page. -/
structure World where
  table : Table := ∅
  /-- Who is signed in. -/
  user : Uuid
  /-- `defaults.stored`. -/
  stored : Option Stored := none
  /-- Whether `loading` is set. -/
  loading : Bool := false
  loadedFor : Option Uuid := none
  /-- The requests that were made, the first one first. -/
  loads : List Load := []

/-- `loadDefaults`, up to the answer of its request. -/
def World.loadDefaults (w : World) : World :=
  let w := if w.loadedFor = some w.user then w
    else { w with loadedFor := some w.user, stored := none, loading := false }
  if w.loading then w else { w with loading := true, loads := w.loads ++ [{ who := w.user }] }

/-- `current`. -/
def World.current (w : World) : Settings :=
  (w.stored.bind (·.own)).getD ((w.stored.map (·.organisation)).getD .builtIn)

inductive Event
  /-- Somebody changes the settings. -/
  | request (r : Request)
  | signIn (user : Uuid)
  | loadDefaults
  /-- The server reads the organisation's settings for the request with this number. -/
  | reads (load : Nat)
  /-- It reads the user's own, and answers. -/
  | answer (load : Nat)
  /-- The answer arrives, or the request has failed. -/
  | arrives (load : Nat)
  | fails (load : Nat)

def step (w : World) : Event → Option World
  | .request r => (Server.Generator.step w.table r).map fun table => { w with table }
  | .signIn user => some { w with user }
  | .loadDefaults => some w.loadDefaults
  | .reads load =>
    w.loads[load]?.map fun l =>
      { w with loads := w.loads.set load { l with organisation := some (getOrganisation w.table) } }
  | .answer load =>
    w.loads[load]?.bind fun l => l.organisation.map fun organisation =>
      { w with loads := w.loads.set load { l with answer := some (get organisation w.table l.who) } }
  | .arrives load =>
    w.loads[load]?.bind fun l => l.answer.map fun stored =>
      -- an answer for whoever was signed in before is no one's now
      if some l.who = w.loadedFor then { w with stored := some stored } else w
  | .fails load =>
    w.loads[load]?.map fun l => if some l.who = w.loadedFor then { w with loading := false } else w

end Web.Generate
