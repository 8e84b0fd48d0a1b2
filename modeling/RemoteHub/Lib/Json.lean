import RemoteHub.Lib.JsonText

/-!
# JSON values

A number is kept as its text; an object has its fields in the order in which they are written.
`write` is the text without blanks.
-/

inductive Json
  | null
  | bool (value : Bool)
  | number (text : List Char)
  | string (text : String)
  | array (items : List Json)
  | object (fields : List (String × Json))

namespace Json

open JsonText

mutual

/-- The text of a value, without blanks. -/
def write : Json → List Char
  | .null => "null".toList
  | .bool true => "true".toList
  | .bool false => "false".toList
  | .number text => text
  | .string text => quote text.toList
  | .array items => '[' :: writeItems items ++ [']']
  | .object fields => '{' :: writeFields fields ++ ['}']

/-- The items of an array, with commas between them. -/
def writeItems : List Json → List Char
  | [] => []
  | [item] => item.write
  | item :: items => item.write ++ ',' :: writeItems items

/-- The fields of an object, with commas between them. -/
def writeFields : List (String × Json) → List Char
  | [] => []
  | [field] => quote field.1.toList ++ ':' :: field.2.write
  | field :: fields => quote field.1.toList ++ ':' :: field.2.write ++ ',' :: writeFields fields

end

def isObject : Json → Bool
  | .object _ => true
  | _ => false

/-- What a field holds, if the value is an object that has it. -/
def field (name : String) : Json → Option Json
  | .object fields => (fields.find? (·.1 = name)).map (·.2)
  | _ => none

def asStr : Json → Option String
  | .string text => some text
  | _ => none

/-- `->>` of SQL: a field as a text. -/
def text (name : String) (value : Json) : Option String :=
  match value.field name with
  | none | some .null => none
  | some (.string text) => some text
  | some value => some (.ofList value.write)

theorem text_of_asStr {name s : String} {value : Json}
    (h : (value.field name).bind asStr = some s) : value.text name = some s := by
  obtain ⟨field, hfield, hs⟩ := Option.bind_eq_some_iff.1 h
  rw [text, hfield]
  cases field with
  | string text => exact hs
  | _ => cases hs

end Json
