import RemoteHub.Connector.Inventory
import RemoteHub.Connector.Protocol
import RemoteHub.Lib.Bytes

/-!
# Requests for access from remotehub (`crates/connector/src/requests.rs`)

remotehub answers each report with the requests waiting for the customer. `parse` takes the answer only
whole and strictly bounded; `serde_json`'s reading of it is the parameter `read`. The answers that the
customer has given are kept until remotehub no longer lists their requests.
-/

namespace Connector

open Model Net Except

/-! ## Texts -/

/-- Characters that change the direction of text or take no space. -/
def hidden (c : Char) : Bool :=
  let n := c.toNat
  n = 0x61c || (0x200b ≤ n && n ≤ 0x200f) || (0x202a ≤ n && n ≤ 0x202e) ||
    (0x2060 ≤ n && n ≤ 0x2069) || n = 0xfeff

/-- Whether `text` is 1 to `longest` characters that read as what they are. -/
def plain (text : String) (longest : Nat) : Bool :=
  1 ≤ text.length && text.length ≤ longest && !text.toList.any fun c => Text.isControl c || hidden c

/-- `text` made `plain`. -/
def readable (text : String) (longest : Nat) : String :=
  let text := ((Text.trim text).toList.map fun c =>
    if Text.isControl c || hidden c then '\uFFFD' else c).take longest
  if text = [] then "\uFFFD" else .ofList text

/-- An IP address, or a host name of letters, digits and hyphens. -/
def host (text : String) : Bool := (IpAddr.parse text).isSome || Address.hostName ['-'] text

/-! ## remotehub's answer -/

inductive RequestsError
  | tooLong
  | malformed (reason : String)
  | tooMany
  | twice (id : Uuid)
  | invalid (id : Uuid) (what : String)
  deriving DecidableEq

/-- The checks of a target. -/
def RequestTarget.check (id : Uuid) (target : RequestTarget) : Except RequestsError Unit := do
  refuse (plain target.name maxName = false) (.invalid id "target name")
  refuse (Connector.host target.host = false) (.invalid id "target host")
  refuse (target.port = 0) (.invalid id "target port")

/-- The checks of a request, after those with the numbers `seen`. -/
def CustomerRequest.check (seen : List Uuid) (request : CustomerRequest) : Except RequestsError Unit := do
  refuse (request.id ∈ seen) (.twice request.id)
  refuse (plain request.requester maxName = false) (.invalid request.id "requester")
  refuse (plain request.reason maxReason = false) (.invalid request.id "reason")
  refuse (¬Minutes request.minutes) (.invalid request.id "minutes")
  refuse (request.targets = [] ∨ maxTargets < request.targets.length) (.invalid request.id "targets")
  request.targets.forM (RequestTarget.check request.id)

/-- The checks of requests, one after another. -/
def checkAll (seen : List Uuid) : List CustomerRequest → Except RequestsError Unit
  | [] => .ok ()
  | request :: requests => do
    request.check seen
    checkAll (request.id :: seen) requests

/-- remotehub's answer to a report, if every part of it is as expected; otherwise none of it. -/
def parse (read : Bytes → Except String Pending) (bytes : Bytes) :
    Except RequestsError (List CustomerRequest) := do
  refuse (maxPendingBytes < bytes.length) .tooLong
  let pending ← (read bytes).mapError .malformed
  refuse (maxRequests < pending.requests.length) .tooMany
  checkAll [] pending.requests
  return pending.requests

/-! ## Writing it -/

def RequestTarget.toJson (target : RequestTarget) : Json :=
  .object [("name", .string target.name), ("host", .string target.host),
    ("port", .number target.port.repr.toList)]

def CustomerRequest.toJson (request : CustomerRequest) : Json :=
  .object [("id", .string (Text.uuidText request.id)), ("requester", .string request.requester),
    ("reason", .string request.reason), ("minutes", .number request.minutes.repr.toList),
    ("targets", .array (request.targets.map RequestTarget.toJson))]

def Pending.toJson (pending : Pending) : Json :=
  .object [("requests", .array (pending.requests.map CustomerRequest.toJson))]

/-- `serde_json::to_vec`. -/
def toVec (pending : Pending) : Bytes := Text.utf8 (.ofList pending.toJson.write)

/-! ## The customer's answers -/

/-- The requests remotehub listed last, and the customer's answers to them. -/
structure Requests where
  requests : List CustomerRequest := []
  answers : List Answer := []
  deriving DecidableEq

namespace Requests

variable (r : Requests)

/-- Takes remotehub's latest list, and gives the requests it lists for the first time. Answers to
requests it no longer lists have arrived. -/
def listed (requests : List CustomerRequest) : List CustomerRequest × Requests :=
  (requests.filter fun request => request.id ∉ r.requests.map (·.id),
    { requests, answers := r.answers.filter fun answer => answer.id ∈ requests.map (·.id) })

/-- The requests the customer has not answered, oldest first. -/
def waiting : List CustomerRequest :=
  r.requests.filter fun request => !r.answers.any (·.id = request.id)

/-- The request `id`, if it waits for an answer. -/
def get (id : Uuid) : Option CustomerRequest := r.waiting.find? (·.id = id)

/-- Records the customer's answer. -/
def answer (answer : Answer) : Requests := { r with answers := r.answers ++ [answer] }

end Requests

end Connector
