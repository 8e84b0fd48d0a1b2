import RemoteHub.Lib.Text
import RemoteHub.Browser.Protocol

/-!
# The only way out for a session's Chromium (`crates/browser/src/proxy.rs`)

A client's bytes arrive in chunks: `read` gives at least one and at most 1024 of them at a time, and none
when the client has closed its side. The chunks end where the client falls silent for longer than a head may
take. `String::from_utf8_lossy` is the parameter `lossy`, whether a destination can be reached the parameter
`connects`.
-/

namespace Browser.Proxy

open Text

/-- Longest request head. -/
def maxHead : Nat := 8 * 1024

/-- The size of `chunk`. -/
def chunkSize : Nat := 1024

/-- Behind the first empty line. -/
def headEnd : Bytes → Option Nat
  | [] => none
  | b :: bytes =>
    if [13, 10, 13, 10].isPrefixOf (b :: bytes) then some 4 else (headEnd bytes).map (· + 1)

/-- The request head up to the empty line, what followed it, and the chunks that are still to be read; none
if the client closed early or the head is too long. -/
def readHead (buffer : Bytes) : List Bytes → Option (Bytes × Bytes × List Bytes)
  | [] => none
  | chunk :: chunks =>
    if chunk = [] then none
    else
      let buffer := buffer ++ chunk
      match headEnd buffer with
      | some n => some (buffer.take n, buffer.drop n, chunks)
      | none => if maxHead < buffer.length then none else readHead buffer chunks

/-- `split_whitespace`. -/
def splitWhitespace (s : String) : List String :=
  ((s.toList.splitOnP isWhitespace).filter (· ≠ [])).map .ofList

/-- What becomes of a connection. -/
inductive Answer
  | closed
  /-- 403. -/
  | forbidden
  /-- 502. -/
  | badGateway
  /-- A tunnel, and what it takes to the destination first; the chunks that are still to come follow. -/
  | tunnel (destination : String) (first : Bytes) (chunks : List Bytes)
  deriving DecidableEq

variable (lossy : Bytes → String) (connects : String → Bool)

/-- The answer to a request head. -/
def answer (allowed : String) (via : Option String) (head : Bytes) (rest : Bytes) (chunks : List Bytes) :
    Answer :=
  let words := splitWhitespace ((lines (lossy head)).headD "")
  let method := words.headD ""
  let target := words.tail.headD ""
  if method ≠ "CONNECT" ∨ eqIgnoreAsciiCase target allowed = false then .forbidden
  else
    let destination := via.getD target
    if connects destination then .tunnel destination rest chunks else .badGateway

/-- One connection. -/
def serve (allowed : String) (via : Option String) (chunks : List Bytes) : Answer :=
  match readHead [] chunks with
  | none => .closed
  | some (head, rest, chunks) => answer lossy connects allowed via head rest chunks

end Browser.Proxy
