import RemoteHub.Lib.RoseTree
import RemoteHub.Lib.Text
import RemoteHub.Lib.UrlEncoded

/-!
# KeePass files in the browser (`web/src/lib/vault/kdbx.ts`)

`writeKdbx` builds the groups and entries of a file, `readKdbx` walks them. `kdbxweb` is taken as the
groups and entries it is given, which `save` seals and `load` opens. Parameters are `toLowerCase` and the
local calendar. A JavaScript string is a text, a `Map` the list of its pairs in their order.
-/

namespace Web.Kdbx

/-! ## Entries -/

/-- A custom field. -/
structure Field where
  name : String
  value : String
  /-- `protected`. -/
  isProtected : Bool
  deriving DecidableEq

structure File where
  name : String
  data : Bytes
  deriving DecidableEq

/-- `KdbxEntry` of `kdbx.ts`: an entry on its way into or out of a KeePass file. -/
structure Item where
  /-- The groups it lies in, below the file's top group. -/
  path : List String
  title : String
  username : String
  password : String
  url : String
  notes : String
  icon : Nat
  fields : List Field
  files : List File
  tags : List String
  /-- `YYYY-MM-DD`: when it runs out. -/
  expires : Option String
  /-- An `otpauth://` link or a base32 secret; empty: none. -/
  totp : String
  deriving DecidableEq

/-- The fields every KeePass entry has. -/
def standard : List String := ["Title", "UserName", "Password", "URL", "Notes"]

/-! ## One-time passwords -/

/-- `replace` of a text: its first occurrence. -/
def replaceFirst (search : List Char) : List Char → List Char
  | [] => []
  | c :: s => if search.isPrefixOf (c :: s) then (c :: s).drop search.length else c :: replaceFirst search s

/-- `algorithm.replace('HMAC-', '').replace('-', '')`. -/
def algorithmName (algorithm : String) : String :=
  .ofList (replaceFirst ['-'] (replaceFirst "HMAC-".toList algorithm.toList))

section
variable (lower : String → String)

/-- `byName`; empty where the source has `undefined`, which it treats alike. -/
def byName (fields : List Field) (name : String) : String :=
  ((fields.find? fun field => lower field.name = lower name).map (·.value)).getD ""

/-- `if (value) query.set(key, f(value))` for the value of the field `name`. -/
def setting (fields : List Field) (key name : String) (f : String → String) : List (String × String) :=
  let value := byName lower fields name
  if value = "" then [] else [(key, f value)]

/-- `query` for the `TimeOtp-*` fields, with `secret` for the secret. -/
def timeOtpQuery (fields : List Field) (secret : String) : List (String × String) :=
  ("secret", secret) :: setting lower fields "algorithm" "TimeOtp-Algorithm" algorithmName ++
    setting lower fields "digits" "TimeOtp-Length" id ++ setting lower fields "period" "TimeOtp-Period" id

def timeOtp (fields : List Field) (secret : String) : String :=
  "otpauth://totp/entry?" ++ UrlEncoded.serialize (timeOtpQuery lower fields secret)

/-- The one-time password of an entry's custom fields, and the fields without it. -/
def takeTotp (fields : List Field) : String × List Field :=
  let link := byName lower fields "otp"
  if link ≠ "" then (link, fields.filter fun f => lower f.name ≠ "otp")
  else
    let secret := byName lower fields "TimeOtp-Secret-Base32"
    if secret = "" then ("", fields)
    else (timeOtp lower fields secret, fields.filter fun f => !"TimeOtp-".toList.isPrefixOf f.name.toList)

end

/-! ## Dates -/

/-- `padStart(n, '0')` of a number. -/
def padStart (width n : Nat) : List Char :=
  let digits := Nat.toDigits 10 n
  List.replicate (width - digits.length) '0' ++ digits

/-- The local calendar. -/
structure Calendar (Instant : Type) where
  /-- `new Date(text)`. -/
  date : String → Instant
  /-- `getFullYear()`, `getMonth() + 1` and `getDate()`. -/
  localDay : Instant → Nat × Nat × Nat

/-- A date as `YYYY-MM-DD` in the local calendar. -/
def Calendar.day {Instant : Type} (calendar : Calendar Instant) (date : Instant) : String :=
  let (year, month, day) := calendar.localDay date
  .ofList (Nat.toDigits 10 year ++ '-' :: padStart 2 month ++ '-' :: padStart 2 day)

/-! ## `kdbxweb` -/

/-- A field's value: a string or a `ProtectedValue`. -/
inductive Value
  | plain (text : String)
  | prot (text : String)
  deriving DecidableEq

/-- `text`. -/
def Value.text : Value → String
  | .plain text | .prot text => text

def Value.isProtected : Value → Bool
  | .plain _ => false
  | .prot _ => true

/-- `Map.prototype.set`: a key that is there stays where it is. -/
def mapSet {α : Type} (m : List (String × α)) (key : String) (value : α) : List (String × α) :=
  if key ∈ m.map (·.1) then m.map fun e => if e.1 = key then (key, value) else e else m ++ [(key, value)]

/-- `Map.prototype.get`. -/
def mapGet {α : Type} (m : List (String × α)) (key : String) : Option α :=
  (m.find? (·.1 = key)).map (·.2)

/-- `KdbxEntry` of `kdbxweb`. -/
structure Entry (Instant : Type) where
  fields : List (String × Value) := []
  icon : Option Nat := none
  tags : List String := []
  expires : Bool := false
  expiryTime : Option Instant := none
  binaries : List (String × Bytes) := []

/-- A group, without the groups in it. -/
structure Group (Instant : Type) where
  uuid : Nat
  name : String
  entries : List (Entry Instant) := []

/-- A file: its groups and the number of UUIDs drawn. -/
structure Db (Instant : Type) where
  root : RoseTree (Group Instant)
  recycleBin : Option Nat
  drawn : Nat

section
variable {Instant : Type}

/-- `Kdbx.create`: the top group, with the recycle bin in it. -/
def Db.create (name : String) : Db Instant where
  root := .node { uuid := 0, name } [.node { uuid := 1, name := "Recycle Bin" } []]
  recycleBin := some 1
  drawn := 2

/-- `createGroup`: a new group in the one at `parent`; gives its address. -/
def Db.createGroup (db : Db Instant) (parent : List Nat) (name : String) : Db Instant × List Nat :=
  ({ db with
      root := db.root.modify (fun t => t.push (.node { uuid := db.drawn, name } [])) parent
      drawn := db.drawn + 1 },
    parent ++ [(db.root.subtree parent).elim 0 (·.children.length)])

/-- `createEntry`, and what the entry is made. -/
def Db.addEntry (db : Db Instant) (group : List Nat) (entry : Entry Instant) : Db Instant :=
  { db with
    root := db.root.modify
      (fun t => .node { t.value with entries := t.value.entries ++ [entry] } t.children) group }

/-- What `kdbxweb` makes of a file and its password, and reads of that. -/
structure Sealing (Instant : Type) where
  save : Db Instant → String → Bytes
  load : Bytes → String → Option (Db Instant)

/-! ## Reading -/

variable (lower : String → String) (calendar : Calendar Instant)

/-- The custom fields of an entry. -/
def customFields (entry : Entry Instant) : List Field :=
  (entry.fields.filter (·.1 ∉ standard)).map fun e => ⟨e.1, e.2.text, e.2.isProtected⟩

/-- What the loop over a group's entries makes of one. -/
def readEntry (path : List String) (entry : Entry Instant) : Item :=
  let field (name : String) : String := ((mapGet entry.fields name).map Value.text).getD ""
  let otp := takeTotp lower (customFields entry)
  { path
    title := field "Title"
    username := field "UserName"
    password := field "Password"
    url := field "URL"
    notes := field "Notes"
    icon := entry.icon.getD 0
    fields := otp.2
    files := entry.binaries.map fun e => ⟨e.1, e.2⟩
    tags := entry.tags
    expires := if entry.expires then entry.expiryTime.map calendar.day else none
    totp := otp.1 }

/-- The entries of a file, without those in its recycle bin. -/
def Db.items (db : Db Instant) : List Item :=
  db.root.walk (fun group => some group.uuid = db.recycleBin) Group.name
    (fun path group => group.entries.map (readEntry lower calendar path)) []

def readKdbx (web : Sealing Instant) (file : Bytes) (password : String) : Option (List Item) :=
  (web.load file password).map fun db => db.items lower calendar

/-! ## Writing -/

def Field.toValue (field : Field) : Value :=
  if field.isProtected then .prot field.value else .plain field.value

/-- The fields of an entry: the standard ones, the custom ones, the one-time password. -/
def entryFields (item : Item) : List (String × Value) :=
  let fields := mapSet (mapSet (mapSet (mapSet (mapSet []
    "Title" (.plain item.title)) "UserName" (.plain item.username)) "Password" (.prot item.password))
    "URL" (.plain item.url)) "Notes" (.plain item.notes)
  let fields := item.fields.foldl (fun m field => mapSet m field.name field.toValue) fields
  if item.totp ≠ "" then mapSet fields "otp" (.prot item.totp) else fields

def writeEntry (item : Item) : Entry Instant where
  fields := entryFields item
  icon := some item.icon
  tags := item.tags
  expires := item.expires.any (· ≠ "")
  expiryTime := (item.expires.filter (· ≠ "")).map fun day => calendar.date (day ++ "T00:00:00")
  binaries := item.files.foldl (fun m file => mapSet m file.name file.data) []

/-- The file, and the addresses of the groups by their joined paths. -/
structure Writing (Instant : Type) where
  db : Db Instant
  groups : List (String × List Nat)

/-- `path.join('\n')`, of a path from its end. -/
def groupKey (reversed : List String) : String := "\n".intercalate reversed.reverse

/-- `groupOf`, of a path from its end. -/
def groupOf (w : Writing Instant) : List String → Writing Instant × List Nat
  | [] => (w, (mapGet w.groups (groupKey [])).getD [])
  | name :: above =>
    match mapGet w.groups (groupKey (name :: above)) with
    | some known => (w, known)
    | none =>
      let (w, parent) := groupOf w above
      let (db, group) := w.db.createGroup parent name
      ({ db, groups := mapSet w.groups (groupKey (name :: above)) group }, group)

/-- One round of the loop over the entries. -/
def Writing.add (w : Writing Instant) (item : Item) : Writing Instant :=
  let (w, group) := groupOf w item.path.reverse
  { w with db := w.db.addEntry group (writeEntry calendar item) }

/-- The file of the entries, before `save` seals it. -/
def build (items : List Item) (name : String) : Db Instant :=
  (items.foldl (Writing.add calendar) { db := .create name, groups := [("", [])] }).db

def writeKdbx (web : Sealing Instant) (items : List Item) (password name : String) : Bytes :=
  web.save (build calendar items name) password

end

end Web.Kdbx
