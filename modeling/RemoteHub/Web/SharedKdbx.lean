import RemoteHub.Lib.Bytes
import RemoteHub.Web.Rank

/-!
# KeePass entries into Shared (`web/src/lib/vault/shared-kdbx.ts`)

`importInto` asks the server for collections, credentials and files one after the other. What it asked, and
what it was answered, is its log; the server's answer to a request is a function of the log before
it (`Server`). Names are cut by UTF-16 code units, so texts are JavaScript strings.
-/

namespace Web.SharedKdbx

/-- A custom field. -/
structure Field where
  name : JsString
  value : JsString
  /-- `protected`. -/
  isProtected : Bool
  deriving DecidableEq

structure File where
  name : JsString
  data : Bytes
  deriving DecidableEq

structure KdbxEntry where
  path : List JsString
  title : JsString
  username : JsString
  password : JsString
  url : JsString
  notes : JsString
  icon : Int
  fields : List Field
  files : List File
  tags : Option (List JsString)
  expires : Option JsString
  totp : Option JsString
  deriving DecidableEq

section
variable (Id : Type)

structure CredentialInput where
  collectionId : Id
  name : JsString
  username : JsString
  password : JsString
  url : JsString
  notes : JsString
  icon : Int
  fields : List Field
  tags : List JsString
  expiresOn : Option JsString
  totp : Option JsString
  deriving DecidableEq

/-- A collection of the tree. -/
structure Collection where
  id : Id
  parentId : Option Id
  name : JsString

/-- `code` and `params.field` of a problem. -/
structure Problem where
  code : String
  field : Option String
  deriving DecidableEq

/-- A request and its answer. -/
inductive Event
  | collection (parent : Option Id) (name : JsString) (answer : Except Problem Id)
  | credential (input : CredentialInput Id) (answer : Except Problem Id)
  | upload (credential : Id) (file : File) (ok : Bool)

structure Server where
  collection : List (Event Id) → Option Id → JsString → Except Problem Id
  credential : List (Event Id) → CredentialInput Id → Except Problem Id
  upload : List (Event Id) → Id → File → Bool

/-- The log, and the collections known by their paths. -/
structure Session where
  log : List (Event Id)
  collections : List (JsString × Id)

abbrev Import := StateM (Session Id)

structure ImportResult where
  created : Nat
  /-- The new credentials' ids, in the order of the entries that made it. -/
  ids : List Id
  failed : List JsString

end

/-! ## What remotehub takes -/

/-- `String.prototype.trim`. -/
def trim (text : JsString) : JsString := Trim.trimBy isSpace text

/-- `text || other`. -/
def orElse (text other : JsString) : JsString := if text = [] then other else text

def usableName (seen : List JsString) (name : JsString) : Bool :=
  name ≠ [] ∧ name.length ≤ 100 ∧ 0x0a ∉ name ∧ seen.all (· ≠ name)

/-- Custom fields remotehub takes: unique, plain names of up to 100 characters. -/
def usableFields (seen : List JsString) : List Field → List Field
  | [] => []
  | field :: fields =>
    let field := { field with name := trim field.name }
    if usableName seen field.name then field :: usableFields (field.name :: seen) fields
    else usableFields (field.name :: seen) fields

/-- Tags remotehub takes: up to 20 of at most 50 characters. -/
def usableTags (tags : Option (List JsString)) : List JsString :=
  (((tags.getD []).map trim).filter fun tag => tag ≠ [] ∧ tag.length ≤ 50).take 20

def titleOf (entry : KdbxEntry) : JsString :=
  orElse (trim entry.title) (orElse (trim entry.username) (orElse (trim entry.url) (js "—")))

variable {Id : Type} [DecidableEq Id]

def inputOf (collection : Id) (entry : KdbxEntry) : CredentialInput Id where
  collectionId := collection
  name := (titleOf entry).take 200
  username := entry.username.take 256
  password := entry.password
  url := entry.url.take 2000
  notes := entry.notes.take 10000
  icon := if 0 ≤ entry.icon ∧ entry.icon ≤ 68 then entry.icon else 0
  fields := usableFields [] entry.fields
  tags := usableTags entry.tags
  expiresOn := entry.expires
  totp := entry.totp.filter (· ≠ [])

/-! ## Requests -/

variable (server : Server Id)

def createCollection (parent : Option Id) (name : JsString) :
    Import Id (Except Problem Id) := do
  let session ← get
  let answer := server.collection session.log parent name
  set { session with log := session.log ++ [Event.collection parent name answer] }
  return answer

def createCredential (input : CredentialInput Id) : Import Id (Except Problem Id) := do
  let session ← get
  let answer := server.credential session.log input
  set { session with log := session.log ++ [Event.credential input answer] }
  return answer

def uploadAttachment (credential : Id) (file : File) : Import Id Unit := do
  let session ← get
  let ok := server.upload session.log credential file
  set { session with log := session.log ++ [Event.upload credential file ok] }

/-! ## The import -/

section
variable (tree : List (Collection Id)) (collectionId : Option Id)

/-- `path.join('\n')`. -/
def keyOf (path : List JsString) : JsString := [0x0a].intercalate path

/-- `collections.set`, where there is an id. -/
def remember (path : List JsString) : Option Id → Import Id (Option Id)
  | none => return none
  | some id => do
    modify fun session => { session with collections := (keyOf path, id) :: session.collections }
    return some id

/-- The collection at a path that is not known yet, below `parent`. -/
def addCollection (path : List JsString) (parent : Option Id) : Import Id (Option Id) :=
  let name := orElse (trim (path.getLast?.getD [])) (js "—")
  match tree.find? fun c => c.parentId = parent ∧ c.name = name with
  | some existing => remember path (some existing.id)
  | none => do
    let made ← createCollection server parent name
    remember path made.toOption

/-- `collectionOf`, of a path from its end. -/
def collectionAt : List JsString → Import Id (Option Id)
  | [] => return (← get).collections.lookup []
  | name :: up => do
    let known := (← get).collections.lookup (keyOf (name :: up).reverse)
    if known.isSome then return known
    -- Below the collection, or at the top of Shared.
    else if up ≠ [] ∨ collectionId.isSome then
      let parent ← collectionAt up
      if parent.isSome then addCollection server tree (name :: up).reverse parent else return none
    else addCollection server tree (name :: up).reverse none

def collectionOf (topName : JsString) (path : List JsString) : Import Id (Option Id) :=
  if path = [] ∧ collectionId = none then collectionAt server tree collectionId [topName]
  else collectionAt server tree collectionId path.reverse

/-- `${name} (${n})`. -/
def numbered (name : JsString) (n : Nat) : JsString := name ++ js s!" ({n})"

def isTaken (made : Except Problem Id) : Bool :=
  match made with
  | .error problem => problem.code = "name_taken"
  | .ok _ => false

def isTotp (made : Except Problem Id) : Bool :=
  match made with
  | .error problem => problem.code = "invalid_request" ∧ problem.field = some "totp"
  | .ok _ => false

/-- A name taken in the collection gets a number: `count` more of them, from `n` on. -/
def retry (input : CredentialInput Id) :
    (count n : Nat) → Except Problem Id → Import Id (Except Problem Id)
  | 0, _, made => return made
  | count + 1, n, made => do
    if isTaken made then
      let made ← createCredential server { input with name := numbered input.name n }
      retry input count (n + 1) made
    else return made

/-- The credential of an entry; its id, or none where the server took none. -/
def createEntry (input : CredentialInput Id) : Import Id (Option Id) := do
  let made ← createCredential server input
  let made ← retry server input 98 2 made
  -- A one-time password the server does not read goes without it.
  let made ← if isTotp made then createCredential server { input with totp := none } else pure made
  return made.toOption

/-- One turn of the loop over the entries: the new credential's id. -/
def importEntry (topName : JsString) (entry : KdbxEntry) : Import Id (Option Id) := do
  match ← collectionOf server tree collectionId topName entry.path with
  | none => return none
  | some collection =>
    match ← createEntry server (inputOf collection entry) with
    | none => return none
    | some id =>
      entry.files.forM (uploadAttachment server id)
      return some id

/-- The loop over the groups. -/
def importGroups (topName : JsString) : List (List JsString) → Import Id (List JsString)
  | [] => return []
  | group :: groups => do
    let id ← collectionOf server tree collectionId topName group
    let failed ← importGroups topName groups
    return if id.isNone then (js " / ").intercalate group :: failed else failed

/-- What one entry adds to the result. -/
def ImportResult.add (result : ImportResult Id) (entry : KdbxEntry) : Option Id → ImportResult Id
  | none => { result with failed := result.failed ++ [titleOf entry] }
  | some id => { result with created := result.created + 1, ids := result.ids ++ [id] }

/-- The loop over the entries, with the result so far. -/
def importEntries (topName : JsString) (result : ImportResult Id) :
    List KdbxEntry → Import Id (ImportResult Id)
  | [] => return result
  | entry :: entries => do
    let id ← importEntry server tree collectionId topName entry
    importEntries topName (result.add entry id) entries

def importInto (entries : List KdbxEntry) (topName : JsString) (groups : List (List JsString)) :
    Import Id (ImportResult Id) := do
  set { log := [], collections := (collectionId.map fun id => ([], id)).toList : Session Id }
  let failed ← importGroups server tree collectionId topName groups
  importEntries server tree collectionId topName ⟨0, [], failed⟩ entries

end

end Web.SharedKdbx
