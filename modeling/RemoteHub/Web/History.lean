import RemoteHub.Lib.Stringify
import RemoteHub.Web.Rank

/-!
# The history of personal entries (`web/src/lib/vault/vault.ts`)

`withHistory`, and how large a content is once sealed. An object is written with its keys in the order of
its type, on which no length depends; `undefined` is `none`, and what may also be `null` an option of an
option.
-/

namespace Web.Vault

open Stringify

structure Field where
  name : JsString
  value : JsString
  /-- `protected`. -/
  isProtected : Bool

structure FileRef where
  id : JsString
  name : JsString
  size : Number
  type : JsString

/-- What a version of the entry is, without history and files. -/
structure State where
  title : JsString
  username : JsString
  password : JsString
  url : JsString
  notes : JsString
  fields : Option (List Field)
  icon : Option Number
  parent : Option (Option JsString)
  totp : Option JsString
  tags : Option (List JsString)
  expires : Option (Option JsString)

/-- An entry as it was, with when it stopped being so. -/
structure EarlierContent extends State where
  changed : Option JsString
  deleted : Option (Option JsString)
  at' : JsString

structure EntryContent extends State where
  /-- `kind: 'folder'`. -/
  isFolder : Bool
  attachments : Option (List FileRef)
  history : Option (List EarlierContent)
  changed : Option JsString
  deleted : Option (Option JsString)

/-! ## As JSON -/

/-- The keys that are not `undefined`. -/
def present (fields : List (JsString × Option Value)) : List (JsString × Value) :=
  fields.filterMap fun field => field.2.map fun value => (field.1, value)

/-- What may be `null`. -/
def orNull (text : Option JsString) : Value := text.elim .null .string

def Field.toValue (field : Field) : Value :=
  .object [(js "name", .string field.name), (js "value", .string field.value),
    (js "protected", .bool field.isProtected)]

def FileRef.toValue (file : FileRef) : Value :=
  .object [(js "id", .string file.id), (js "name", .string file.name),
    (js "size", .number file.size), (js "type", .string file.type)]

def State.keys (state : State) : List (JsString × Option Value) :=
  [(js "title", some (.string state.title)), (js "username", some (.string state.username)),
    (js "password", some (.string state.password)), (js "url", some (.string state.url)),
    (js "notes", some (.string state.notes)),
    (js "fields", state.fields.map fun fields => .array (fields.map Field.toValue)),
    (js "icon", state.icon.map .number), (js "parent", state.parent.map orNull),
    (js "totp", state.totp.map .string),
    (js "tags", state.tags.map fun tags => .array (tags.map .string)),
    (js "expires", state.expires.map orNull)]

def State.toValue (state : State) : Value := .object (present state.keys)

def EarlierContent.toValue (earlier : EarlierContent) : Value :=
  .object (present (earlier.toState.keys ++ [(js "changed", earlier.changed.map .string),
    (js "deleted", earlier.deleted.map orNull), (js "at", some (.string earlier.at'))]))

def EntryContent.toValue (content : EntryContent) : Value :=
  .object (present ((js "kind", if content.isFolder then some (.string (js "folder")) else none) ::
    content.toState.keys ++
    [(js "attachments", content.attachments.map fun files => .array (files.map FileRef.toValue)),
      (js "history",
        content.history.map fun history => .array (history.map EarlierContent.toValue)),
      (js "changed", content.changed.map .string), (js "deleted", content.deleted.map orNull)]))

/-- The length of what `seal` makes of it: its JSON in UTF-8 and the tag. -/
def EntryContent.sealedLength (content : EntryContent) : Nat :=
  utf8Length (stringify content.toValue) + 16

/-! ## The history -/

/-- How many earlier states an entry keeps. -/
def maxHistory : Nat := 10

/-- Sealed entries hold at most 64 KiB; the history makes room for the rest. -/
def entryBudget : Nat := 60000

/-- What `save_entry` of the server takes, in bytes. -/
def maxSealed : Nat := 65536

/-- `while (list.length > 0 && tooLarge(list)) list.pop()`. -/
def popWhile {α : Type} (tooLarge : List α → Bool) (list : List α) : List α :=
  if list ≠ [] ∧ tooLarge list then popWhile tooLarge list.dropLast else list
termination_by list.length
decreasing_by
  rename_i h
  have hlength := List.length_pos_iff.2 h.1
  rw [List.length_dropLast]
  omega

/-- `JSON.stringify({ ...next, history }).length > ENTRY_BUDGET`. -/
def overBudget (next : EntryContent) (history : List EarlierContent) : Bool :=
  entryBudget < (stringify { next with history := some history }.toValue).length

/-- `{ ...state(before), at: new Date().toISOString() }`. -/
def earlier (now : JsString) (before : EntryContent) : EarlierContent :=
  { before.toState with changed := none, deleted := none, at' := now }

/-- The states of an entry that was `before`, newest first: at most ten. -/
def states (now : JsString) (before : EntryContent) : List EarlierContent :=
  (earlier now before :: before.history.getD []).take maxHistory

/-- `next` with `before` added to its history, as far as the entry's size allows. -/
def withHistory (now : JsString) (before next : EntryContent) : EntryContent :=
  if stringify before.toState.toValue = stringify next.toState.toValue then
    { next with history := before.history }
  else { next with history := some (popWhile (overBudget next) (states now before)) }

end Web.Vault
