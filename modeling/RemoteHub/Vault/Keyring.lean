import RemoteHub.Lib.HashMap
import RemoteHub.Lib.Run
import RemoteHub.Lib.Text
import RemoteHub.Vault.Seal

/-!
# The key file (`crates/vault/src/keyring.rs`)

One master key a line, `<version>:<base64 of 32 bytes>`; the highest version is current. The base64
decoder is a parameter.

`Rotation` is what happens to the file, the loaded keys and the values sealed with them over time.
-/

namespace Vault

open Except Text

def fileKeyringId : String := "file"

/-- `FileKeyring`: the keys by version, and the highest one. -/
structure FileKeyring where
  keys : HashMap Int Key
  current : Int
  isMax : keys.keys.max? = some current

namespace FileKeyring

/-- `base64::engine::general_purpose::STANDARD.decode`. -/
abbrev Decode := String → Option Bytes

variable (decode : Decode)

/-- Lines that hold no key. -/
def ignored (line : String) : Bool := trim line = "" || (trim line).toList.head? = some '#'

/-- The key of a line that holds one; `number` counts from 0. -/
def keyOf (number : Nat) (line : String) : Result (Int × Key) := do
  let invalid : VaultError :=
    .keyFile ("line " ++ (number + 1).repr ++ " is not <version>:<base64 key>")
  let (version, encoded) ← (splitOnce ':' line).elim (.error invalid) .ok
  let version ← (parseSigned (-2 ^ 31) (2 ^ 31 - 1) (trim version)).elim (.error invalid) .ok
  refuse (version < 1) invalid
  let bytes ← (decode (trim encoded)).elim (.error invalid) .ok
  match toKey bytes with
  | .ok key => return (version, key)
  | .error _ => .error (.keyFile ("line " ++ (number + 1).repr ++ ": a key has 32 bytes"))

def addLine (keys : HashMap Int Key) (line : String × Nat) : Result (HashMap Int Key) := do
  if ignored line.1 then return keys
  let (version, key) ← keyOf decode line.2 (trim line.1)
  refuse (version ∈ keys) (.keyFile ("version " ++ version.repr ++ " appears twice"))
  return keys.insert version key

def parse (content : String) : Result FileKeyring := do
  let keys ← (lines content).zipIdx.foldlM (addLine decode) ∅
  match h : keys.keys.max? with
  | none => .error (.keyFile "no key found")
  | some current => return { keys, current, isMax := h }

/-- The file as a key provider. -/
def provider (ring : FileKeyring) : KeyProvider where
  current := (fileKeyringId, ring.current)
  masterKey id version :=
    ((ring.keys.lookup version).filter fun _ => id = fileKeyringId).elim
      (.error (.unknownKey id version)) .ok

end FileKeyring

/-! ## Rotation -/

namespace Rotation

/-- A value where it belongs. -/
structure Value where
  context : Context
  plaintext : Bytes
  sealed : Sealed

/-- The key file, the keys as loaded, and the sealed values. -/
structure State where
  file : String
  ring : FileKeyring
  values : List Value

/-- The lines with a key. -/
def keyLines (content : String) : List String :=
  (lines content).filter fun line => !FileKeyring.ignored line

/-- Lines with keys are added to the file, in any order; the keys are loaded again; a value is
sealed; the value at a place is rewrapped. -/
inductive Event
  | append (file : String) (added : List String)
  | reload
  | add (random : Entropy) (context : Context) (plaintext : Bytes)
  | rewrap (i : Nat) (random : Entropy)

variable (aead : Aead) (decode : FileKeyring.Decode)

/-- A value after it was rewrapped; unchanged if that fails. -/
def rewrapped (ring : FileKeyring) (random : Entropy) (value : Value) : Value :=
  match rewrap aead ring.provider random value.context value.sealed with
  | .ok (some sealed) => { value with sealed }
  | _ => value

def step (s : State) : Event → Option State
  | .append file added =>
    if (keyLines file).isPerm (keyLines s.file ++ added) && (FileKeyring.parse decode file).isOk then
      some { s with file }
    else none
  | .reload => (FileKeyring.parse decode s.file).toOption.map fun ring => { s with ring }
  | .add random context plaintext =>
    (sealValue aead s.ring.provider random context plaintext).toOption.map fun sealed =>
      { s with values := s.values ++ [{ context, plaintext, sealed }] }
  | .rewrap i random =>
    some { s with values := s.values.modify i (rewrapped aead s.ring random) }

end Rotation

end Vault
