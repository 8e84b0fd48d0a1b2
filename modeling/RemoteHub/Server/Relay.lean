import RemoteHub.Gateway.Guacamole
import RemoteHub.Lib.Run

/-!
# The tunnel between the browser and guacd

`relay` of `crates/server/src/api/display.rs`. An `Event` is one of the branches of its `select!`:
what happens next, in whatever order, and whether the send the branch ends with succeeds. A relay
that has returned (`ended`) takes no event any more.

`Activity::input` is asked once for every instruction of someone at the browser; `answers k` is its
answer to the `k`-th question.
-/

namespace Server

open Gateway

/-- `crates/browser/src/protocol.rs`. -/
inductive Reply where
  | ready (vncPort : UInt16) (vncPassword : String)
  | failed (reason : String)
  | filled
  | notFilled (reason : String)
  deriving DecidableEq, Repr

inductive Message where
  | text (text : String)
  | close
  | other
  deriving DecidableEq, Repr

namespace Relay

structure Outcome where
  sent : Nat := 0
  received : Nat := 0
  dropped : Nat := 0
  error : Option (String × String) := none
  signedIn : Option Bool := none
  deriving DecidableEq, Repr

structure State where
  outcome : Outcome := {}
  fromBrowser : Parser := {}
  /-- How often `Activity::input` was asked. -/
  asked : Nat := 0
  /-- The texts handed to `Connection::send`. -/
  toGuacd : List String := []
  /-- `relay` has returned. -/
  ended : Bool := false
  deriving DecidableEq, Repr

inductive Event where
  /-- `browser_event`; `none` when Chromium or its display ended. -/
  | browser (event : Option Reply)
  /-- `socket.recv()`; `none` stands for `None` and for an error. `sent` says whether what is
  forwarded could be sent. -/
  | socket (message : Option Message) (sent : Bool)
  /-- `connection.receive()`; `none` stands for `Ok(None)` and for an error. -/
  | guacd (received : Option String) (delivered : Bool)
  deriving DecidableEq, Repr

/-- `last_error`'s loop: an error ends it like the end of the text. -/
def lastErrorFrom : Nat → Parser → Option (String × String) → Option (String × String)
  | 0, _, last => last
  | fuel + 1, parser, last =>
    match parser.nextInstruction with
    | .ok (some (instruction, parser)) =>
      lastErrorFrom fuel parser
        (if instruction.opcode = "error" then
          some (instruction.args.head?.getD "", instruction.args.tail.head?.getD "")
        else last)
    | _ => last

/-- The last `error` instruction in a text of whole instructions. -/
def lastError (text : String) : Option (String × String) :=
  lastErrorFrom ((bytes text).length + 1) (({} : Parser).push (bytes text)) none

/-- What the loop over a message's instructions works on. -/
structure Filter where
  parser : Parser
  asked : Nat
  dropped : Nat
  forward : String := ""
  deriving DecidableEq, Repr

/-- The loop over the instructions of a message, at most `fuel` of them: whether it ends with
`Ok(None)`, and not with an error. -/
def Filter.loop (answers : Nat → Bool) : Nat → Filter → Filter × Bool
  | 0, f => (f, true)
  | fuel + 1, f =>
    match f.parser.nextInstruction with
    | .error _ => (f, false)
    | .ok none => (f, true)
    | .ok (some (instruction, parser)) =>
      if allowedFromBrowser instruction.opcode then
        if isInput instruction.opcode then
          if answers f.asked then
            loop answers fuel
              ⟨parser, f.asked + 1, f.dropped, f.forward ++ instruction.encode⟩
          else loop answers fuel ⟨parser, f.asked + 1, f.dropped + 1, f.forward⟩
        else loop answers fuel ⟨parser, f.asked, f.dropped, f.forward ++ instruction.encode⟩
      else loop answers fuel ⟨parser, f.asked, f.dropped + 1, f.forward⟩

/-- A text message of the browser. -/
def State.text (answers : Nat → Bool) (s : State) (text : String) (sent : Bool) : State :=
  let parser := s.fromBrowser.push (bytes text)
  match Filter.loop answers (parser.buffer.length + 1) ⟨parser, s.asked, s.outcome.dropped, ""⟩ with
  | (f, false) =>
    { s with
      outcome := { s.outcome with dropped := f.dropped }, fromBrowser := f.parser, asked := f.asked,
      ended := true }
  | (f, true) =>
    { s with
      outcome :=
        { s.outcome with dropped := f.dropped, sent := s.outcome.sent + (bytes f.forward).length },
      fromBrowser := f.parser, asked := f.asked,
      toGuacd := if f.forward = "" then s.toGuacd else s.toGuacd ++ [f.forward],
      ended := !(f.forward = "") && !sent }

/-- A text of guacd. -/
def State.receive (s : State) (text : String) (delivered : Bool) : State :=
  { s with
    outcome :=
      { s.outcome with
        received := s.outcome.received + (bytes text).length,
        error :=
          if bytes "5.error," <:+: bytes text then (lastError text).or s.outcome.error
          else s.outcome.error },
    ended := !delivered }

/-- One round of the `select!` loop. -/
def State.step (answers : Nat → Bool) (s : State) (e : Event) : Option State :=
  if s.ended then none
  else some <|
    match e with
    | .browser (some .filled) => { s with outcome := { s.outcome with signedIn := some true } }
    | .browser (some (.notFilled _)) =>
      { s with outcome := { s.outcome with signedIn := some false } }
    | .browser (some _) => s
    | .browser none => { s with ended := true }
    | .socket (some (.text text)) sent => s.text answers text sent
    | .socket (some .close) _ => { s with ended := true }
    | .socket (some .other) _ => s
    | .socket none _ => { s with ended := true }
    | .guacd (some text) delivered => s.receive text delivered
    | .guacd none _ => { s with ended := true }

/-- A relay from its start. -/
def runFrom (answers : Nat → Bool) (events : List Event) : Option State :=
  Run.run (State.step answers) {} events

end Relay

end Server
