import RemoteHub.Lib.HashMap
import RemoteHub.Lib.Run
import RemoteHub.Server.Vaults

/-!
# The personal vault in the browser (`web/src/lib/vault/crypto.ts`, `vault.ts`, `recovery.ts`)

Any number of pages of any owners set up, unlock and use their vaults, and administrators make recovery
keys and carry recoveries out. The server is what it can answer: of what was ever sent for a vault, any part
(`Answers`). So a request may be late, lost, or overtaken by others, and rows may have been deleted.

WebCrypto and the authenticators are a parameter (`WebCrypto`), with the bytes that it works on; what it
draws at random is an argument. That content is JSON, and bytes base64 on the way, is not modelled, nor how
recovery keys are printed and read (`Vault.Printed` has that), nor the labels of passkeys.
-/

namespace Web.PersonalVault

open Model Text
open Server.Vaults (UnlockKind)

variable {β : Type}

/-- What the code uses of WebCrypto, and of WebAuthn's PRF. A key is the bytes that it is made of. -/
structure WebCrypto (β : Type) where
  /-- AES-KW. -/
  wrapKey : (key wrapping : β) → β
  unwrapKey : (wrapped wrapping : β) → Option β
  /-- PBKDF2-SHA-256. -/
  pbkdf2 : (material salt : β) → (iterations : Nat) → β
  /-- HKDF-SHA-256 with an empty salt. -/
  hkdf : (material : β) → (info : String) → β
  /-- AES-256-GCM. -/
  encrypt : (key iv : β) → (additionalData : String) → (plaintext : β) → β
  decrypt : (key iv : β) → (additionalData : String) → (ciphertext : β) → Option β
  /-- The public point of a scalar on P-256. -/
  point : (scalar : β) → β
  /-- A private key as JWK, which has its public point too. -/
  importKey : (scalar point : β) → Option β
  deriveBits : (own other : β) → Option β
  /-- What the authenticator that has the credential computes of a salt. -/
  prf : (credential : String) → (salt : β) → β

/-- Authenticated encryption opens what it has sealed, and only with the same key, nonce and data; ECDH
agrees. -/
structure WebCrypto.Lawful (c : WebCrypto β) : Prop where
  unwrap_wrap : ∀ key wrapping, c.unwrapKey (c.wrapKey key wrapping) wrapping = some key
  unwrap_other : ∀ key wrapping wrapping', wrapping' ≠ wrapping →
    c.unwrapKey (c.wrapKey key wrapping) wrapping' = none
  decrypt_encrypt : ∀ key iv aad plaintext,
    c.decrypt key iv aad (c.encrypt key iv aad plaintext) = some plaintext
  decrypt_other : ∀ key key' iv iv' aad aad' plaintext, (key', iv', aad') ≠ (key, iv, aad) →
    c.decrypt key' iv' aad' (c.encrypt key iv aad plaintext) = none
  agree : ∀ n m, c.deriveBits n (c.point m) = c.deriveBits m (c.point n)
  import_point : ∀ scalar, c.importKey scalar (c.point scalar) = some scalar

/-! ## `crypto.ts` -/

def scheme : String := "e2e_user_v1"

def pbkdf2Iterations : Nat := 600000

/-- What is sealed, apart from everything else. -/
inductive Place
  | entry (id : Uuid)
  /-- A file of an entry. -/
  | file (id : Uuid)
  /-- What the owner picked after searching. -/
  | search
  deriving DecidableEq

/-- `SEARCH_ID`. -/
def searchId : String := "search"

/-- `aad` and `fileAad`. -/
def Place.aad : Place → String
  | entry id => scheme ++ "\n" ++ uuidText id
  | file id => scheme ++ "\nfile\n" ++ uuidText id
  | search => scheme ++ "\n" ++ searchId

structure Sealed (β : Type) where
  nonce : β
  ciphertext : β
  deriving DecidableEq

section
variable (c : WebCrypto β)

def passphraseKey (passphrase salt : β) (iterations : Nat) : β := c.pbkdf2 passphrase salt iterations

def secretKey (secret : β) (purpose : String) : β := c.hkdf secret (scheme ++ " " ++ purpose)

/-- `seal` and `sealFile`. -/
def sealAt (vaultKey : β) (place : Place) (nonce content : β) : Sealed β where
  nonce := nonce
  ciphertext := c.encrypt vaultKey nonce place.aad content

/-- `open` and `openFile`. -/
def openAt (vaultKey : β) (place : Place) (sealed : Sealed β) : Option β :=
  c.decrypt vaultKey sealed.nonce place.aad sealed.ciphertext

def sharedKey (own other : β) : Option β := (c.deriveBits own other).map (secretKey c · "organisation")

/-- The ephemeral public key and the wrapped key; `ephemeral` is the private key drawn for it. -/
def wrapForOrganisation (vaultKey publicKey ephemeral : β) : Option (β × β) :=
  (sharedKey c ephemeral publicKey).map fun shared => (c.point ephemeral, c.wrapKey vaultKey shared)

def unwrapForOrganisation (wrapped ephemeral privateKey : β) : Option β :=
  (sharedKey c privateKey ephemeral).bind (c.unwrapKey wrapped)

end

/-- `KeyFile`, without its format. -/
structure KeyFile (β : Type) where
  keyId : Uuid
  publicKey : β
  salt : β
  iterations : Nat
  nonce : β
  ciphertext : β
  deriving DecidableEq

def keyFileAad (keyId : Uuid) : String := "remotehub recovery key\n" ++ uuidText keyId

def sealKeyFile (c : WebCrypto β) (keyId : Uuid) (publicKey privateKey passphrase salt nonce : β) :
    KeyFile β where
  keyId := keyId
  publicKey := publicKey
  salt := salt
  iterations := pbkdf2Iterations
  nonce := nonce
  ciphertext := c.encrypt (c.pbkdf2 passphrase salt pbkdf2Iterations) nonce (keyFileAad keyId) privateKey

def openKeyFile (c : WebCrypto β) (file : KeyFile β) (passphrase : β) : Option β :=
  c.decrypt (c.pbkdf2 passphrase file.salt file.iterations) file.nonce (keyFileAad file.keyId)
    file.ciphertext

/-! ## `vault.ts` -/

/-- `Unlock.params`, for each kind. -/
inductive Params (β : Type)
  | passkey (credentialId : String) (salt : β)
  | passphrase (salt : β) (iterations : Nat)
  | recovery (oneTime : Bool)
  | organisation (keyId : Uuid) (ephemeral : β)
  deriving DecidableEq

def Params.kind : Params β → UnlockKind
  | passkey .. => .passkey
  | passphrase .. => .passphrase
  | recovery _ => .recovery
  | organisation .. => .organisation

structure Unlock (β : Type) where
  params : Params β
  wrappedKey : β
  deriving DecidableEq

structure StoredVault (β : Type) where
  unlocks : List (Unlock β)
  entries : List (Uuid × Sealed β)
  search : Option (Sealed β) := none
  /-- The newest recovery key of the organisation. -/
  organisationKey : Option (Uuid × β) := none
  deriving DecidableEq

section
variable (c : WebCrypto β)

def savePassphrase (key passphrase salt : β) : Unlock β where
  params := .passphrase salt pbkdf2Iterations
  wrappedKey := c.wrapKey key (passphraseKey c passphrase salt pbkdf2Iterations)

def saveRecovery (key bytes : β) : Unlock β where
  params := .recovery false
  wrappedKey := c.wrapKey key (secretKey c bytes "recovery")

def find (vault : StoredVault β) (kind : UnlockKind) : Option (Unlock β) :=
  vault.unlocks.find? (·.params.kind = kind)

def unlockWithPassphrase (vault : StoredVault β) (passphrase : β) : Option β :=
  (find vault .passphrase).bind fun unlock =>
    match unlock.params with
    | .passphrase salt iterations =>
      c.unwrapKey unlock.wrappedKey (passphraseKey c passphrase salt iterations)
    | _ => none

/-- The vault key wrapped for the organisation, unless it is already. -/
def coverForOrganisation (key : β) (vault : StoredVault β) (ephemeral : β) : Option (Unlock β) :=
  vault.organisationKey.bind fun target =>
    if vault.unlocks.any fun unlock =>
        match unlock.params with
        | .organisation keyId _ => keyId = target.1
        | _ => false then none
    else (wrapForOrganisation c key target.2 ephemeral).map fun wrap =>
      { params := .organisation target.1 wrap.1, wrappedKey := wrap.2 }

def unlockWithRecovery (vault : StoredVault β) (bytes : β) : Option β :=
  (find vault .recovery).bind fun unlock => c.unwrapKey unlock.wrappedKey (secretKey c bytes "recovery")

/-- The salt of a passkey. -/
def Unlock.salt (unlock : Unlock β) : Option (String × β) :=
  match unlock.params with
  | .passkey credentialId salt => some (credentialId, salt)
  | _ => none

def addPasskey (key : β) (credential : String) (salt : β) : Unlock β where
  params := .passkey credential salt
  wrappedKey := c.wrapKey key (secretKey c (c.prf credential salt) "passkey")

/-- With the credential that the owner's authenticator has used. -/
def unlockWithPasskey (vault : StoredVault β) (credential : String) : Option β :=
  let salts : HashMap String β := .collect (vault.unlocks.filterMap Unlock.salt)
  (salts.lookup credential).bind fun salt =>
    (vault.unlocks.find? fun unlock => unlock.salt.any (·.1 = credential)).bind fun unlock =>
      c.unwrapKey unlock.wrappedKey (secretKey c (c.prf credential salt) "passkey")

def readEntries (key : β) (entries : List (Uuid × Sealed β)) : List (Uuid × Option β) :=
  entries.map fun e => (e.1, openAt c key (.entry e.1) e.2)

/-! ## `recovery.ts` -/

/-- The vault key of an approved recovery, from the unlock for the organisation and its public key. -/
def openVault (privateKey : β) (unlock : Unlock β) (publicKey : β) : Option β :=
  match unlock.params with
  | .organisation _ ephemeral =>
    (c.importKey privateKey publicKey).bind (unwrapForOrganisation c unlock.wrappedKey ephemeral)
  | _ => none

/-- The unlock that the server makes of the owner's new recovery key. -/
def oneTimeKey (vaultKey bytes : β) : Unlock β where
  params := .recovery true
  wrappedKey := c.wrapKey vaultKey (secretKey c bytes "recovery")

end

/-! ## Pages and the server -/

inductive Request (β : Type)
  /-- `POST /api/personal/unlocks`, or the completion of a recovery of the user's vault. -/
  | unlock (user : Uuid) (unlock : Unlock β)
  /-- `PUT /api/personal/entries/{id}`, `attachments/{id}`, `search`. -/
  | sealed (user : Uuid) (place : Place) (sealed : Sealed β)
  /-- `POST /api/recovery-keys`, with the id that the server gave it. -/
  | key (id : Uuid) (publicKey : β)
  /-- What someone puts into a shared collection. -/
  | shared (content : β)
  deriving DecidableEq

structure Page (β : Type) where
  user : Uuid
  vault : StoredVault β
  key : Option β := none
  deriving DecidableEq

/-- A page has saved `content`. -/
structure Saved (β : Type) where
  user : Uuid
  place : Place
  content : β
  deriving DecidableEq

structure State (β : Type) where
  requests : List (Request β) := []
  pages : HashMap Nat (Page β) := ∅
  /-- The files of private keys that were downloaded. -/
  files : List (KeyFile β) := []
  /-- The vault keys that were made, for whom. -/
  made : List (Uuid × β) := []
  saved : List (Saved β) := []

/-- What the server may answer for the vault of a user. -/
structure Answers (requests : List (Request β)) (user : Uuid) (vault : StoredVault β) : Prop where
  unlocks : ∀ unlock ∈ vault.unlocks, .unlock user unlock ∈ requests
  entries : ∀ e ∈ vault.entries, .sealed user (.entry e.1) e.2 ∈ requests
  search : ∀ sealed ∈ vault.search, .sealed user .search sealed ∈ requests
  organisationKey : ∀ key ∈ vault.organisationKey, .key key.1 key.2 ∈ requests

instance [DecidableEq β] (requests : List (Request β)) (user : Uuid) (vault : StoredVault β) :
    Decidable (Answers requests user vault) :=
  decidable_of_iff ((∀ unlock ∈ vault.unlocks, .unlock user unlock ∈ requests) ∧
      (∀ e ∈ vault.entries, .sealed user (.entry e.1) e.2 ∈ requests) ∧
      (∀ sealed ∈ vault.search, .sealed user .search sealed ∈ requests) ∧
      ∀ key ∈ vault.organisationKey, .key key.1 key.2 ∈ requests)
    ⟨fun h => ⟨h.1, h.2.1, h.2.2.1, h.2.2.2⟩, fun h => ⟨h.1, h.2, h.3, h.4⟩⟩

/-- What the requester of an approved recovery may be answered: the unlock for the organisation, with the
public key that it names. -/
def AnswersRecovery (requests : List (Request β)) (user : Uuid) (unlock : Unlock β) (publicKey : β) : Prop :=
  .unlock user unlock ∈ requests ∧
    match unlock.params with
    | .organisation keyId _ => .key keyId publicKey ∈ requests
    | _ => False

instance [DecidableEq β] (requests : List (Request β)) (user : Uuid) (unlock : Unlock β) (publicKey : β) :
    Decidable (AnswersRecovery requests user unlock publicKey) := by
  unfold AnswersRecovery
  split <;> infer_instance

inductive Event (β : Type)
  /-- Page `k` is the user's, and reads the vault; what it had open before is gone. -/
  | visit (k : Nat) (user : Uuid) (vault : StoredVault β)
  /-- It reads the vault again. -/
  | load (k : Nat) (vault : StoredVault β)
  /-- A new vault; `stored` when both requests were answered. -/
  | setUp (k : Nat) (key passphrase salt recovery : β) (stored : Bool)
  | unlockWithPassphrase (k : Nat) (passphrase : β)
  | unlockWithRecovery (k : Nat) (bytes : β)
  | unlockWithPasskey (k : Nat) (credential : String)
  | lock (k : Nat)
  | savePassphrase (k : Nat) (passphrase salt : β)
  | renewRecovery (k : Nat) (bytes : β)
  | addPasskey (k : Nat) (credential : String) (salt : β)
  | coverForOrganisation (k : Nat) (ephemeral : β)
  /-- `saveEntry`, `saveFile`, `savePicks`. -/
  | save (k : Nat) (place : Place) (nonce content : β)
  /-- Anyone puts anything into a shared collection. -/
  | share (content : β)
  | createKey (id : Uuid) (privateKey passphrase salt nonce : β)
  /-- A recovery is carried out with `completeWithOneTimeKey`. -/
  | complete (user : Uuid) (unlock : Unlock β) (publicKey privateKey bytes : β)

namespace State

variable (s : State β)

def send (requests : List (Request β)) : State β := { s with requests := requests ++ s.requests }

/-- A page sends an unlock. -/
def addUnlock (user : Uuid) (unlock : Unlock β) : State β := s.send [.unlock user unlock]

/-- The page of `k`, with the key of its open vault. -/
def opened (k : Nat) : Option (Page β × β) :=
  (s.pages.lookup k).bind fun page => page.key.map fun key => (page, key)

/-- Page `k` has tried to unlock its vault. -/
def unlock (k : Nat) (attempt : StoredVault β → Option β) : Option (State β) :=
  (s.pages.lookup k).map fun page =>
    match attempt page.vault with
    | some key => { s with pages := s.pages.insert k { page with key := some key } }
    | none => s

end State

variable [DecidableEq β] (c : WebCrypto β)

def step (s : State β) : Event β → Option (State β)
  | .visit k user vault =>
    if Answers s.requests user vault then some { s with pages := s.pages.insert k { user, vault } } else none
  | .load k vault =>
    (s.pages.lookup k).bind fun page =>
      if Answers s.requests page.user vault then
        some { s with pages := s.pages.insert k { page with vault } }
      else none
  | .setUp k key passphrase salt recovery stored =>
    (s.pages.lookup k).bind fun page =>
      if page.vault.unlocks ≠ [] then none
      else
        let sent := s.send [.unlock page.user (savePassphrase c key passphrase salt),
          .unlock page.user (saveRecovery c key recovery)]
        some { sent with
          made := (page.user, key) :: s.made
          pages := if stored then s.pages.insert k { page with key := some key } else s.pages }
  | .unlockWithPassphrase k passphrase => s.unlock k (PersonalVault.unlockWithPassphrase c · passphrase)
  | .unlockWithRecovery k bytes => s.unlock k (PersonalVault.unlockWithRecovery c · bytes)
  | .unlockWithPasskey k credential => s.unlock k (PersonalVault.unlockWithPasskey c · credential)
  | .lock k => (s.pages.lookup k).map fun page =>
    { s with pages := s.pages.insert k { page with key := none } }
  | .savePassphrase k passphrase salt => (s.opened k).map fun unlocked =>
    s.addUnlock unlocked.1.user (PersonalVault.savePassphrase c unlocked.2 passphrase salt)
  | .renewRecovery k bytes => (s.opened k).map fun unlocked =>
    s.addUnlock unlocked.1.user (saveRecovery c unlocked.2 bytes)
  | .addPasskey k credential salt => (s.opened k).map fun unlocked =>
    s.addUnlock unlocked.1.user (PersonalVault.addPasskey c unlocked.2 credential salt)
  | .coverForOrganisation k ephemeral => (s.opened k).map fun unlocked =>
    match PersonalVault.coverForOrganisation c unlocked.2 unlocked.1.vault ephemeral with
    | some unlock => s.addUnlock unlocked.1.user unlock
    | none => s
  | .save k place nonce content => (s.opened k).map fun unlocked =>
    let sent := s.send [.sealed unlocked.1.user place (sealAt c unlocked.2 place nonce content)]
    { sent with saved := ⟨unlocked.1.user, place, content⟩ :: s.saved }
  | .share content => some (s.send [.shared content])
  | .createKey id privateKey passphrase salt nonce =>
    let sent := s.send [.key id (c.point privateKey)]
    some { sent with
      files := sealKeyFile c id (c.point privateKey) privateKey passphrase salt nonce :: s.files }
  | .complete user unlock publicKey privateKey bytes =>
    if AnswersRecovery s.requests user unlock publicKey then
      (openVault c privateKey unlock publicKey).map fun vaultKey =>
        s.addUnlock user (oneTimeKey c vaultKey bytes)
    else none

end Web.PersonalVault
