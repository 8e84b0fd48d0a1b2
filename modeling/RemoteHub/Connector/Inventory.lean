import Mathlib.Data.List.Sort
import RemoteHub.Connector.Network
import RemoteHub.Lib.Answer
import RemoteHub.Lib.Json

/-!
# The customer's own list of devices and groups (`crates/connector/src/inventory.rs`)

What can be opened one by one instead of the whole network. `to_lowercase`, by which the list is
sorted, is the parameter `lower`; `serde_json`'s text of a value is the parameters `toVecPretty` and
`fromSlice`.
-/

namespace Connector

open Net Except

inductive InventoryError
  | invalidName
  | invalidAddress (text : String)
  | invalidPorts (text : String)
  | noPorts
  | alreadyExists (name : String)
  | unknown (name : String)
  deriving DecidableEq

/-- Where a device is: an address range or a host name. -/
inductive Address
  | range (network : Network)
  | host (name : String)
  deriving DecidableEq

namespace Address

/-- Whether a connection to `host`, resolved to `ip`, goes to this device, whose host name resolves to
`resolved`. -/
def covers (address : Address) (host : String) (ip : IpAddr) (resolved : List IpAddr) : Bool :=
  match address with
  | .range network => network.contains ip
  | .host name => Text.eqIgnoreAsciiCase name host || ip ∈ resolved

/-- `trim_end_matches('.')`. -/
def trimDots (text : String) : String := .ofList (text.toList.reverse.dropWhile (· = '.')).reverse

/-- A label of a host name, of letters, digits and the characters `others`. -/
def label (others : List Char) (text : String) : Bool :=
  1 ≤ text.utf8ByteSize && text.utf8ByteSize ≤ 63 &&
    text.toList.all (fun c => c.isAlphanum || c ∈ others) &&
    text.toList.head? ≠ some '-' && text.toList.getLast? ≠ some '-'

/-- A host name of such labels. -/
def hostName (others : List Char) (text : String) : Bool :=
  1 ≤ text.utf8ByteSize && text.utf8ByteSize ≤ 253 && (Text.split '.' text).all (label others)

/-- `from_str`. -/
def parse (text : String) : Except InventoryError Address :=
  let text := Text.trim text
  match Network.parse text with
  | some network => .ok (.range network)
  | none =>
    let host := trimDots text
    if hostName ['-', '_'] host then .ok (.host (Text.toAsciiLowercase host))
    else .error (.invalidAddress text)

/-- `to_string`: a single address without its `/32` or `/128`. -/
def toText : Address → String
  | .range network =>
    let text := network.toText
    let single := ("/32".toList.isSuffixOf text.toList && ':' ∉ text.toList) ||
      "/128".toList.isSuffixOf text.toList
    if single then .ofList (text.toList.takeWhile (· ≠ '/')) else text
  | .host name => name

end Address

/-- A port or a range of ports. -/
structure Ports where
  first : Nat
  last : Nat
  deriving DecidableEq

namespace Ports

def contains (ports : Ports) (port : Nat) : Bool := ports.first ≤ port && port ≤ ports.last

/-- `from_str`. -/
def parse (text : String) : Except InventoryError Ports := do
  let port (part : String) : Except InventoryError Nat :=
    ((Text.parseUnsigned 65535 (Text.trim part)).filter (0 < ·)).elim
      (.error (.invalidPorts text)) .ok
  let (first, last) ← match Text.splitOnce '-' text with
    | some (first, last) => do pure (← port first, ← port last)
    | none => do pure (← port text, ← port text)
  refuse (last < first) (.invalidPorts text)
  return { first, last }

/-- The parts of a list between commas and blanks. -/
def parts (text : String) : List String :=
  ((Text.split ',' text).flatMap (Text.split ' ')).filter (· ≠ "")

/-- A list such as `22, 3389, 8000-8100`. -/
def parseList (text : String) : Except InventoryError (List Ports) := do
  let ports ← (parts text).mapM parse
  refuse (ports = []) .noPorts
  return ports

/-- `to_string`. -/
def toText (ports : Ports) : String :=
  if ports.first = ports.last then ports.first.repr
  else ports.first.repr ++ "-" ++ ports.last.repr

end Ports

/-- The ports as the customer writes them, `22, 3389`. -/
def portsText (ports : List Ports) : String := ", ".intercalate (ports.map Ports.toText)

/-- A name of a device or group: what the customer calls it. -/
def validName (name : String) : Except InventoryError String :=
  let name := Text.trim name
  if 1 ≤ name.length ∧ name.length ≤ 64 ∧ name.toList.any Text.isControl = false then .ok name
  else .error .invalidName

structure Device where
  name : String
  address : Address
  ports : List Ports
  groups : List String
  deriving DecidableEq

/-- What `inventory.json` holds. -/
structure Inventory where
  devices : List Device := []
  groups : List String := []
  deriving DecidableEq

namespace Inventory

variable (list : Inventory)

def device (name : String) : Option Device := list.devices.find? (·.name = name)

def hasGroup (name : String) : Bool := list.groups.any (· = name)

/-- `sort_by_key(|x| key(x).to_lowercase())`. -/
def sortByName {α : Type} (lower : String → String) (key : α → String) (xs : List α) : List α :=
  xs.insertionSort fun a b => lower (key a) ≤ lower (key b)

/-- Adds a device; its groups must exist. -/
def addDevice (lower : String → String) (device : Device) : Except InventoryError Inventory := do
  refuse (list.device device.name).isSome (.alreadyExists device.name)
  refuse (device.ports = []) .noPorts
  match device.groups.find? fun group => !list.hasGroup group with
  | some group => .error (.unknown group)
  | none =>
    return { list with devices := sortByName lower Device.name (list.devices ++ [device]) }

def removeDevice (name : String) : Except InventoryError Inventory :=
  match list.devices.findIdx? (·.name = name) with
  | none => .error (.unknown name)
  | some index => .ok { list with devices := list.devices.eraseIdx index }

def addGroup (lower : String → String) (name : String) : Except InventoryError Inventory := do
  refuse (list.hasGroup name) (.alreadyExists name)
  return { list with groups := sortByName lower id (list.groups ++ [name]) }

/-- Removes a group, and it from every device in it. -/
def removeGroup (name : String) : Except InventoryError Inventory := do
  refuse (list.hasGroup name = false) (.unknown name)
  return {
    groups := list.groups.filter (· ≠ name)
    devices := list.devices.map fun device =>
      { device with groups := device.groups.filter (· ≠ name) } }

end Inventory

/-! ## Adding a device -/

/-- What is entered for a device, in the web interface or on the command line. -/
structure DeviceForm where
  name : String
  address : String
  ports : String
  groups : List String
  deriving DecidableEq

def DeviceForm.device (form : DeviceForm) : Except InventoryError Device := do
  let name ← validName form.name
  let address ← Address.parse form.address
  let ports ← Ports.parseList form.ports
  return { name, address, ports, groups := form.groups }

/-! ## `inventory.json` -/

/-- `Serialize`: an address and a port are their texts. -/
def Device.toJson (device : Device) : Json :=
  .object [("name", .string device.name), ("address", .string device.address.toText),
    ("ports", .array (device.ports.map fun ports => .string ports.toText)),
    ("groups", .array (device.groups.map .string))]

def Inventory.toJson (list : Inventory) : Json :=
  .object [("devices", .array (list.devices.map Device.toJson)),
    ("groups", .array (list.groups.map .string))]

/-- `Deserialize` of a `Vec`. -/
def vecOf {α : Type} (read : Json → Option α) : Json → Option (List α)
  | .array items => items.mapM read
  | _ => none

/-- `#[serde(default)]` for a `Vec`. -/
def vecOrDefault {α : Type} (read : Json → Option α) : Option Json → Option (List α)
  | none => some []
  | some value => vecOf read value

def Address.ofJson (value : Json) : Option Address :=
  value.asStr.bind fun text => (Address.parse text).toOption

def Ports.ofJson (value : Json) : Option Ports :=
  value.asStr.bind fun text => (Ports.parse text).toOption

/-- `Deserialize`, of an object. -/
def Device.ofJson (value : Json) : Option Device := do
  let name ← (value.field "name").bind Json.asStr
  let address ← (value.field "address").bind Address.ofJson
  let ports ← (value.field "ports").bind (vecOf Ports.ofJson)
  let groups ← vecOrDefault Json.asStr (value.field "groups")
  return { name, address, ports, groups }

def Inventory.ofJson (value : Json) : Option Inventory := do
  let devices ← vecOrDefault Device.ofJson (value.field "devices")
  let groups ← vecOrDefault Json.asStr (value.field "groups")
  return { devices, groups }

/-- The stored list, `none` if it cannot be read; empty if nothing was stored yet. -/
def Inventory.load (fromSlice : List UInt8 → Option Json) : Option (List UInt8) → Option Inventory
  | none => some {}
  | some bytes => (fromSlice bytes).bind Inventory.ofJson

/-- What `save` writes. -/
def Inventory.save (toVecPretty : Json → List UInt8) (list : Inventory) : List UInt8 :=
  toVecPretty list.toJson

end Connector
