import RemoteHub.Server.Db
import RemoteHub.Server.Problem

/-!
# Secrets of devices and login profiles

`SecretInput`, `Secrets`, `new_secrets` and `seal_version` of `crates/server/src/api/catalog.rs`.
`SshKey::parse` is code of another crate: `SshKeys` stands for what it makes of a key, its
passphrase and its certificate.
-/

namespace Server

open Model Except Text

inductive KeyError
  | invalidKey | passphraseRequired | wrongPassphrase | invalidCertificate | certificateMismatch
  deriving DecidableEq, Repr

/-- `SshKey::parse`, and `algorithm` and `fingerprint` of the key. -/
structure SshKeys where
  parse : String → Option String → Option String → Except KeyError (String × String)

structure SecretInput where
  password : Option String := none
  privateKey : Option String := none
  passphrase : Option String := none
  certificate : Option String := none
  deriving DecidableEq

/-- Empty fields are ones left empty to keep what is stored. -/
def SecretInput.given (input : SecretInput) : SecretInput :=
  { input with
    password := input.password.filter (· ≠ ""),
    privateKey := input.privateKey.filter (trim · ≠ "") }

/-- The secret fields of one version, checked and ready to seal. -/
inductive Secrets
  | password (password : String)
  | key (privateKey : String) (passphrase certificate : Option String)
      (algorithm fingerprint : String)
  deriving DecidableEq

def passwordField : String := "password"

def Secrets.fields : Secrets → List (String × String)
  | .password value => [(passwordField, value)]
  | .key privateKey passphrase certificate _ _ =>
    ("private_key", privateKey) :: (passphrase.map ("passphrase", ·)).toList ++
      (certificate.map ("certificate", ·)).toList

/-- What identifies a key, stored in plain text to show it. -/
def Secrets.keyInfo : Secrets → KeyInfo
  | .password _ => {}
  | .key _ _ certificate algorithm fingerprint =>
    { algorithm := some algorithm, fingerprint := some fingerprint,
      hasCertificate := certificate.isSome }

def KeyError.field : KeyError → String
  | .invalidKey => "private_key"
  | .passphraseRequired | .wrongPassphrase => "passphrase"
  | .invalidCertificate | .certificateMismatch => "certificate"

/-- The new secrets of `kind`, if any were given. -/
def newSecrets (ssh : SshKeys) (kind : SecretKind) (input : SecretInput) :
    Answer (Option Secrets) :=
  match kind, input.privateKey with
  | .password, _ => .ok (input.password.map .password)
  | .sshKey, none => .ok none
  | .sshKey, some privateKey =>
    let passphrase := input.passphrase.filter (· ≠ "")
    let certificate := (input.certificate.map trim).filter (· ≠ "")
    match ssh.parse privateKey passphrase certificate with
    | .ok (algorithm, fingerprint) =>
      .ok (some (.key privateKey passphrase certificate algorithm fingerprint))
    | .error e => .error (invalid e.field)

/-- The field a device's own credentials or a login profile miss when they have no secret yet. -/
def missingSecret (kind : SecretKind) : Failure :=
  invalid (if kind = .sshKey then "private_key" else "password")

/-- `secrets::store`: a field of a version is stored once. -/
def Db.store (db : Db) (owner : Uuid) (version : Int) (field plaintext : String) : Answer Db := do
  refuse (version ≤ 0 ∨ (owner, version, field) ∈ db.secretFields) (.of .internal)
  return { db with secretFields := db.secretFields.insert (owner, version, field) plaintext }

def Db.sealVersion (db : Db) (id : Uuid) (version : Int) (secrets : Secrets) : Answer Db :=
  secrets.fields.foldlM (fun db field => db.store id version field.1 field.2) db

/-- `if let Some(secrets) = &secrets { seal_version(..) }`. -/
def Db.sealNew (db : Db) (id : Uuid) (version : Int) : Option Secrets → Answer Db
  | some secrets => db.sealVersion id version secrets
  | none => .ok db

/-- `DELETE FROM secret_fields WHERE owner_id = $1 AND version <> $2`. -/
def Db.keepVersion (db : Db) (id : Uuid) (version : Int) : Db :=
  { db with
    secretFields := .collect (db.secretFields.entries.filterMap fun e =>
      if e.1.1 = id ∧ e.1.2.1 ≠ version then none else some (e.1, e.2)) }

/-- `DELETE FROM secret_fields WHERE owner_id = $1`. -/
def Db.dropSecrets (db : Db) (id : Uuid) : Db :=
  { db with
    secretFields := .collect (db.secretFields.entries.filterMap fun e =>
      if e.1.1 = id then none else some (e.1, e.2)) }

end Server
