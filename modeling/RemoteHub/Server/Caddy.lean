import RemoteHub.Lib.Bytes

/-!
# Caddy's files (`crates/server/src/caddy.rs`)

`Caddy::serve` on the directory that Caddy imports from. What the file system and Caddy do is a
parameter (`World`): which operations fail, up to Caddy's answer and after it.
-/

namespace Server.Caddy

/-- `SNIPPET`, `CERTIFICATE` and `KEY`. -/
inductive File
  | snippet | certificate | key
  deriving DecidableEq, Repr

/-- Where Caddy's certificate comes from. -/
inductive Tls
  | automatic
  | own (chain key : String)

/-- The directory: the three files, and the new ones that are renamed into place. -/
structure Dir where
  files : File → Option Bytes
  temporaries : File → Option Bytes

inductive Op
  | read | remove | create | write | sync | rename
  deriving DecidableEq, Repr

/-- A failing operation: its error, and how much a failing write still wrote. -/
structure Failure where
  error : String
  written : Nat

inductive CaddyError
  | unreachable (why : String)
  | refused (body : String)
  | files (error : String)
  deriving DecidableEq, Repr

/-- The operations that fail. -/
abbrev Failing := Op → File → Option Failure

structure World where
  /-- What fails before Caddy answers, and after it. -/
  before : Failing
  after : Failing
  /-- The error of reading the Caddyfile. -/
  caddyfile : Option String
  /-- The answer to `/load`, its status and body, or why there is none. -/
  answer : Except String (Nat × String)

abbrev Disk := ExceptT CaddyError (StateM Dir)

variable (failing : Failing)

/-- An operation on a file, which then stands as `done` says, or as `torn` says if it fails. -/
def operation (op : Op) (file : File) (torn : Failure → Dir → Dir) (done : Dir → Dir) :
    Disk Unit :=
  match failing op file with
  | some failure => do
    modify (torn failure)
    throw (.files failure.error)
  | none => modify done

/-- `std::fs::remove_file`, where a file that is not there is no error. -/
def remove (file : File) : Disk Unit :=
  operation failing .remove file (fun _ d => d)
    fun d => { d with files := Function.update d.files file none }

/-- Writes a file all at once: a new file, renamed into place. -/
def write (file : File) (content : Bytes) : Disk Unit := do
  operation failing .create file (fun _ d => d)
    fun d => { d with temporaries := Function.update d.temporaries file (some []) }
  operation failing .write file
    (fun failure d => { d with
      temporaries := Function.update d.temporaries file (some (content.take failure.written)) })
    fun d => { d with temporaries := Function.update d.temporaries file (some content) }
  operation failing .sync file (fun _ d => d) id
  operation failing .rename file (fun _ d => d) fun d =>
    { files := Function.update d.files file (d.temporaries file)
      temporaries := Function.update d.temporaries file none }

/-- The snippet that says where Caddy's certificate comes from. -/
def snippet (tls : Tls) : String :=
  let rule := match tls with
    | .automatic => "\ttls \x7b\n\t\tissuer acme\n\t\tissuer internal\n\t\x7d\n"
    | .own _ _ => "\ttls /etc/caddy/remotehub/certificate.pem /etc/caddy/remotehub/key.pem\n"
  "# Where Caddy's certificate comes from. remotehub writes this file from\n" ++
    "# Settings -> Certificate (#146); a change here is overwritten there.\n" ++
    "(remotehub_tls) \x7b\n" ++ rule ++ "\x7d\n"

def writeFiles (tls : Tls) : Disk Unit := do
  match tls with
  | .automatic => [File.certificate, .key].forM (remove failing)
  | .own chain key => do
    write failing .certificate (Text.utf8 chain)
    write failing .key (Text.utf8 key)
  write failing .snippet (Text.utf8 (snippet tls))

/-- The files as they were before a change, to put back. -/
abbrev Files := List (File × Option Bytes)

/-- `Files::read`: a file that cannot be read counts as none. -/
def Files.read (d : Dir) : Files :=
  [File.snippet, .certificate, .key].map fun file =>
    (file, if (failing .read file).isSome then none else d.files file)

/-- One turn of the loop in `Files::restore`. -/
def restoreFile (before : File × Option Bytes) : Disk Unit :=
  match before.2 with
  | some content => write failing before.1 content
  | none => remove failing before.1

def Files.restore (files : Files) : Disk Unit := files.forM (restoreFile failing)

/-- `Caddy::load`. -/
def load (w : World) : Except CaddyError Unit :=
  match w.caddyfile, w.answer with
  | some error, _ => .error (.files error)
  | none, .error why => .error (.unreachable why)
  | none, .ok (status, body) => if status = 200 then .ok () else .error (.refused body)

/-- `Caddy::serve`. -/
def serve (w : World) (tls : Tls) : Disk Unit := do
  let before := Files.read w.before (← get)
  writeFiles w.before tls
  match load w with
  | .ok () => return
  | .error error =>
    before.restore w.after
    throw error

end Server.Caddy
