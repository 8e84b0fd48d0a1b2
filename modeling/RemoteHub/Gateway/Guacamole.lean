import Mathlib.Data.List.Infix

/-!
# The Guacamole protocol's framing

`crates/gateway/src/guacamole.rs`. An instruction is a list of elements `LENGTH.VALUE`, separated by
`,` and ended by `;`; the first element is the opcode. `LENGTH` counts code points, not bytes.

A buffer is a list of bytes, and indexing is partial: an index or a slice outside the buffer, which
the source answers with a panic, is the error `outOfBounds` here. The loops of the source carry a
bound on their rounds; `endless` is the error of a loop that does not end within it.
-/

namespace Gateway

inductive GuacError where
  | malformed (what : String)
  | outOfBounds
  | endless
  deriving DecidableEq, Repr

/-- guacd's limits (`GUAC_INSTRUCTION_MAX_LENGTH`, `_MAX_ELEMENTS`). -/
def maxInstructionBytes : Nat := 32 * 1024

def maxElements : Nat := 128

/-! ## Bytes -/

/-- `str::as_bytes`. -/
def bytes (s : String) : List UInt8 := s.toByteArray.data.toList

/-- `String::from_utf8`. -/
def fromUtf8 (b : List UInt8) : Option String := String.fromUTF8? b.toByteArray

def isAsciiDigit (b : UInt8) : Bool := 48 ≤ b && b ≤ 57

/-- `buffer[start..stop]`. -/
def slice (buffer : List UInt8) (start stop : Nat) : Except GuacError (List UInt8) :=
  if start ≤ stop ∧ stop ≤ buffer.length then .ok ((buffer.drop start).take (stop - start))
  else .error .outOfBounds

/-- `buffer[i]`. -/
def index (buffer : List UInt8) (i : Nat) : Except GuacError UInt8 :=
  match buffer[i]? with
  | some b => .ok b
  | none => .error .outOfBounds

/-- `str::parse::<usize>` on at most five characters: nothing overflows. -/
def parseLength (digits : List UInt8) : Option Nat :=
  if digits ≠ [] ∧ digits.all isAsciiDigit then
    some (digits.foldl (fun n d => 10 * n + (d.toNat - 48)) 0)
  else none

/-! ## Instructions -/

structure Instruction where
  opcode : String
  args : List String
  deriving DecidableEq, Repr

def pushElement (out value : String) : String := out ++ toString value.length ++ "." ++ value

def encodeInto (out opcode : String) (args : List String) : String :=
  (args.foldl (fun out arg => pushElement (out ++ ",") arg) (pushElement out opcode)) ++ ";"

def Instruction.encode (i : Instruction) : String := encodeInto "" i.opcode i.args

/-! ## Scanning -/

/-- The length in bytes of the character a byte leads. -/
def leadLength (lead : UInt8) : Option Nat :=
  if lead ≤ 0x7f then some 1
  else if 0xc0 ≤ lead ∧ lead ≤ 0xdf then some 2
  else if 0xe0 ≤ lead ∧ lead ≤ 0xef then some 3
  else if 0xf0 ≤ lead ∧ lead ≤ 0xf7 then some 4
  else none

/-- The position after `n` characters from `pos` on; `none` when the buffer ends before the last of
them starts. -/
def skipChars (buffer : List UInt8) : Nat → Nat → Except GuacError (Option Nat)
  | 0, pos => .ok (some pos)
  | n + 1, pos =>
    match buffer[pos]? with
    | none => .ok none
    | some lead =>
      match leadLength lead with
      | none => .error (.malformed "invalid UTF-8")
      | some k => skipChars buffer n (pos + k)

/-- One element at `pos`: where its value starts and stops, and the byte after it. -/
def scanElement (buffer : List UInt8) (pos : Nat) :
    Except GuacError (Option (Nat × Nat × UInt8)) := do
  let digits := ((← slice buffer pos buffer.length).takeWhile isAsciiDigit).length
  if digits > 5 then throw (.malformed "element too long")
  if pos + digits ≥ buffer.length then return none
  if digits = 0 ∨ (← index buffer (pos + digits)) ≠ 46 then
    throw (.malformed "element without length")
  let some length := parseLength (← slice buffer pos (pos + digits))
    | throw (.malformed "element without length")
  let start := pos + digits + 1
  let some stop ← skipChars buffer length start | return none
  let some separator := buffer[stop]? | return none
  return some (start, stop, separator)

/-- A complete instruction found in a buffer: its length in bytes and the byte ranges of its
elements. -/
abbrev Scanned := Nat × List (Nat × Nat)

/-- The loop of `scan`, at most `fuel` elements of it: `none` when the buffer ends first. -/
def scanFrom (buffer : List UInt8) :
    Nat → Nat → List (Nat × Nat) → Except GuacError (Option Scanned)
  | 0, _, _ => .error .endless
  | fuel + 1, pos, elements => do
    let some (start, stop, separator) ← scanElement buffer pos | return none
    let elements := elements ++ [(start, stop)]
    if elements.length > maxElements then throw (.malformed "too many elements")
    if separator = 59 then return some (stop + 1, elements)
    if separator = 44 then scanFrom buffer fuel (stop + 1) elements
    else throw (.malformed "element without separator")

def incomplete {α : Type} (buffer : List UInt8) : Except GuacError (Option α) :=
  if buffer.length > maxInstructionBytes then .error (.malformed "instruction too long")
  else .ok none

/-- The first complete instruction; `none` if it is not complete yet. -/
def scan (buffer : List UInt8) : Except GuacError (Option Scanned) := do
  match ← scanFrom buffer (maxElements + 1) 0 [] with
  | some found => return some found
  | none => incomplete buffer

/-! ## The parser -/

structure Parser where
  buffer : List UInt8 := []
  deriving DecidableEq, Repr

def Parser.push (p : Parser) (chunk : List UInt8) : Parser := ⟨p.buffer ++ chunk⟩

/-- `buffer.drain(..stop)`: the bytes taken off and those that stay. -/
def drainFront (buffer : List UInt8) (stop : Nat) :
    Except GuacError (List UInt8 × List UInt8) :=
  if stop ≤ buffer.length then .ok (buffer.take stop, buffer.drop stop) else .error .outOfBounds

/-- The text of an element. -/
def elementText (buffer : List UInt8) (range : Nat × Nat) : Except GuacError String := do
  match fromUtf8 (← slice buffer range.1 range.2) with
  | some text => return text
  | none => throw (.malformed "invalid UTF-8")

/-- The next complete instruction, if the buffer holds one, and the parser after it. Without one,
and on an error, the parser stays as it is. -/
def Parser.nextInstruction (p : Parser) : Except GuacError (Option (Instruction × Parser)) := do
  let some (stop, elements) ← scan p.buffer | return none
  match elements with
  | [] => throw (.malformed "empty instruction")
  | first :: rest =>
    let opcode ← elementText p.buffer first
    let args ← rest.mapM (elementText p.buffer)
    let (_, buffer) ← drainFront p.buffer stop
    return some (⟨opcode, args⟩, ⟨buffer⟩)

/-- The loop of `take_complete`: the end of the last complete instruction from `stop` on. -/
def completeEnd (buffer : List UInt8) : Nat → Nat → Except GuacError Nat
  | 0, _ => .error .endless
  | fuel + 1, stop => do
    match ← scan (← slice buffer stop buffer.length) with
    | some (length, _) => completeEnd buffer fuel (stop + length)
    | none => return stop

/-- All complete instructions in the buffer, unchanged, as one text. The bytes are off the buffer
before they are found to be text. -/
def Parser.takeComplete (p : Parser) : Except GuacError (Option String) × Parser :=
  match completeEnd p.buffer (p.buffer.length + 1) 0 with
  | .error e => (.error e, p)
  | .ok 0 => (.ok none, p)
  | .ok stop =>
    match drainFront p.buffer stop with
    | .error e => (.error e, p)
    | .ok (taken, buffer) =>
      match fromUtf8 taken with
      | some text => (.ok (some text), ⟨buffer⟩)
      | none => (.error (.malformed "invalid UTF-8"), ⟨buffer⟩)

/-- `take_complete` where the parser is only looked at as long as nothing went wrong: without a text
it is as it was. -/
def Parser.nextText (p : Parser) : Except GuacError (Option (String × Parser)) :=
  match p.takeComplete with
  | (.error e, _) => .error e
  | (.ok none, _) => .ok none
  | (.ok (some text), p') => .ok (some (text, p'))

section

variable {α : Type} (take : Parser → Except GuacError (Option (α × Parser)))

/-- A method called until it gives `None` or fails, at most `fuel` times. -/
def Parser.drain : Nat → Parser → List α × Except GuacError Parser
  | 0, p => ([], .ok p)
  | fuel + 1, p =>
    match take p with
    | .error e => ([], .error e)
    | .ok none => ([], .ok p)
    | .ok (some (x, p')) => (x :: (drain fuel p').1, (drain fuel p').2)

/-- A stream that arrives in chunks: each is pushed, and the parser drained. -/
def Parser.feed : Parser → List (List UInt8) → List α × Except GuacError Parser
  | p, [] => ([], .ok p)
  | p, chunk :: chunks =>
    match drain take ((p.push chunk).buffer.length + 1) (p.push chunk) with
    | (xs, .error e) => (xs, .error e)
    | (xs, .ok p') => (xs ++ (feed p' chunks).1, (feed p' chunks).2)

end

/-! ## What the browser may send -/

/-- Instructions the browser may send once the connection is up. -/
def allowedFromBrowser (opcode : String) : Bool :=
  opcode ∈ ["ack", "blob", "clipboard", "disconnect", "end", "key", "mouse", "nop", "size", "sync",
    "touch"]

/-- Instructions of someone at the browser. -/
def isInput (opcode : String) : Bool :=
  opcode ∈ ["blob", "clipboard", "end", "key", "mouse", "touch"]

end Gateway
