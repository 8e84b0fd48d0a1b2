import RemoteHub.Lib.Answer
import RemoteHub.Lib.Bytes
import RemoteHub.Model.Catalog
import Mathlib.Data.Vector.Basic

/-!
# Sealed secrets (`crates/vault/src/lib.rs`)

Every value is sealed with a data key of its own, which the current master key wraps. Both carry the
same associated data: the scheme, the owner, the version and the field they belong to and the master
key's id and version. `detached` and `escrow` seal with associated data of their own.

The AEAD, XChaCha20-Poly1305, is a parameter, and so is what `escrow` takes of P-256 and HKDF. The
random bytes are arguments.
-/

namespace Vault

open Model Except Text

def keyLen : Nat := 32
def nonceLen : Nat := 24

abbrev Key := List.Vector UInt8 keyLen
abbrev Nonce := List.Vector UInt8 nonceLen

inductive VaultError
  | opens
  | unknownScheme (scheme : String)
  | unknownKey (id : String) (version : Int)
  | keyFile (text : String)
  | invalidPublicKey
  deriving DecidableEq, Repr

abbrev Result := Except VaultError

/-- `try_into` of bytes to a key. -/
def toKey (bytes : Bytes) : Result Key :=
  if h : bytes.length = keyLen then .ok ⟨bytes, h⟩ else .error .opens

/-! ## Encryption -/

/-- XChaCha20-Poly1305. -/
structure Aead where
  encrypt : Key → Nonce → (aad msg : Bytes) → Bytes
  decrypt : Key → Nonce → (aad ciphertext : Bytes) → Option Bytes

variable (aead : Aead)

/-- The nonce and the ciphertext. -/
def encrypt (nonce : Nonce) (key : Key) (aad plaintext : Bytes) : Bytes :=
  nonce.toList ++ aead.encrypt key nonce aad plaintext

def decrypt (key : Key) (aad sealed : Bytes) : Result Bytes :=
  if h : nonceLen ≤ sealed.length then
    (aead.decrypt key ⟨sealed.take nonceLen, by simp [h]⟩ aad (sealed.drop nonceLen)).elim
      (.error .opens) .ok
  else .error .opens

/-! ## Values -/

def scheme : String := "xchacha20poly1305-v1"

/-- Where a sealed value belongs. -/
structure Context where
  owner : Uuid
  version : Int
  field : String
  deriving DecidableEq, Repr

/-- A sealed value as stored. -/
structure Sealed where
  scheme : String
  kekId : String
  kekVersion : Int
  wrappedKey : Bytes
  ciphertext : Bytes
  deriving DecidableEq, Repr

def associatedData (context : Context) (kekId : String) (kekVersion : Int) : Bytes :=
  utf8 ("remotehub|" ++ scheme ++ "|" ++ uuidText context.owner ++ "|" ++ context.version.repr ++
    "|" ++ context.field ++ "|" ++ kekId ++ "|" ++ kekVersion.repr)

/-- Source of master keys. -/
structure KeyProvider where
  current : String × Int
  masterKey : String → Int → Result Key

/-- What the operating system gives at random. -/
structure Entropy where
  dataKey : Key
  keyNonce : Nonce
  nonce : Nonce

def sealValue (keys : KeyProvider) (random : Entropy) (context : Context) (plaintext : Bytes) :
    Result Sealed := do
  let (kekId, kekVersion) := keys.current
  let master ← keys.masterKey kekId kekVersion
  let aad := associatedData context kekId kekVersion
  return { scheme, kekId, kekVersion,
           wrappedKey := encrypt aead random.keyNonce master aad random.dataKey.toList,
           ciphertext := encrypt aead random.nonce random.dataKey aad plaintext }

def openValue (keys : KeyProvider) (context : Context) (sealed : Sealed) : Result Bytes := do
  refuse (sealed.scheme ≠ scheme) (.unknownScheme sealed.scheme)
  let master ← keys.masterKey sealed.kekId sealed.kekVersion
  let aad := associatedData context sealed.kekId sealed.kekVersion
  let dataKey ← toKey (← decrypt aead master aad sealed.wrappedKey)
  decrypt aead dataKey aad sealed.ciphertext

/-- The value under the current master key; none if it is under it already. -/
def rewrap (keys : KeyProvider) (random : Entropy) (context : Context) (sealed : Sealed) :
    Result (Option Sealed) := do
  if (sealed.kekId, sealed.kekVersion) = keys.current then return none
  let plaintext ← openValue aead keys context sealed
  return some (← sealValue aead keys random context plaintext)

/-! ## Detached -/

namespace Detached

def aad (context : Bytes) : Bytes := utf8 "remotehub|detached|" ++ context

def sealValue (nonce : Nonce) (key : Key) (context plaintext : Bytes) : Bytes :=
  encrypt aead nonce key (aad context) plaintext

def openValue (key : Key) (context sealed : Bytes) : Result Bytes :=
  decrypt aead key (aad context) sealed

end Detached

/-! ## Escrow -/

namespace Escrow

/-- What the escrow takes of P-256 and HKDF: the scalars that are private keys, the points that are
public keys, a private key's point, and the sealing key that ECDH and HKDF give. -/
structure Curve where
  Secret : Type
  Public : Type
  secret : Bytes → Option Secret
  point : Bytes → Option Public
  publicKey : Secret → Bytes
  sealingKey : Secret → Public → Key

/-- A master key sealed for a recovery key. -/
structure Escrowed where
  ephemeral : Bytes
  sealed : Bytes

def aad (kekId : String) (version : Int) : Bytes :=
  utf8 ("remotehub|escrow|" ++ kekId ++ "|" ++ version.repr)

variable (curve : Curve)

def point (bytes : Bytes) : Result curve.Public :=
  (curve.point bytes).elim (.error .invalidPublicKey) .ok

/-- `ephemeral` is the key pair made for this seal. -/
def sealFor (ephemeral : curve.Secret) (nonce : Nonce) (publicKey : Bytes) (kekId : String)
    (version : Int) (master : Key) : Result Escrowed := do
  let recipient ← point curve publicKey
  return { ephemeral := curve.publicKey ephemeral
           sealed := encrypt aead nonce (curve.sealingKey ephemeral recipient) (aad kekId version)
             master.toList }

def openWith (privateKey : Bytes) (escrowed : Escrowed) (kekId : String) (version : Int) :
    Result Key := do
  let secret ← (curve.secret privateKey).elim (.error .opens) .ok
  let key := curve.sealingKey secret (← point curve escrowed.ephemeral)
  toKey (← decrypt aead key (aad kekId version) escrowed.sealed)

end Escrow

end Vault
