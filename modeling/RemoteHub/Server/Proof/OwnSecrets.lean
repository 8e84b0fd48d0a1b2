import RemoteHub.Server.OwnSecrets
import RemoteHub.Server.Proof.Credentials

/-!
# The secrets of devices and login profiles under concurrent updates

Both kinds of update decide on a version from the one they read. Over a run whose updates that keep
the secret still find the version and the kind they read, and in which no other update of a device
is committed between a `DELETE` and its commit, every device with credentials of its own and every
login profile has its secret in its current version, and nothing in another one
(`own_secrets_stay`). An update that keeps the secret after another one has replaced it leaves the
device without (`lost_own_secret`).
-/

namespace Server

open Model Except Interleave

/-- The sealed field that signs in. -/
def SecretKind.field : SecretKind → String
  | .password => passwordField
  | .sshKey => "private_key"

/-- All of the owner's sealed fields are in `version`, the one of `kind` among them if the owner
signs in with its own secret. -/
structure Sealed (db : Db) (id : Uuid) (version : Int) (kind : SecretKind) (own : Prop) : Prop where
  only : ∀ v f, (db.secretFields.lookup (id, v, f)).isSome → v = version
  there : own → (db.secretFields.lookup (id, version, kind.field)).isSome

/-- Devices with credentials of their own and login profiles have the secret they tell of. -/
structure SignsIn (db : Db) : Prop where
  devices : ∀ id row, db.devices.lookup id = some row →
    Sealed db id row.secretVersion row.secretKind (row.authMode = .device)
  profiles : ∀ id row, db.profiles.lookup id = some row →
    Sealed db id row.secretVersion row.secretKind True

variable {ssh : SshKeys} {db db' : Db} {id : Uuid}

theorem Sealed.congr {version : Int} {kind : SecretKind} {own : Prop}
    (h : Sealed db id version kind own)
    (hfields : ∀ v f, db'.secretFields.lookup (id, v, f) = db.secretFields.lookup (id, v, f)) :
    Sealed db' id version kind own where
  only v f hsome := h.only v f (hfields v f ▸ hsome)
  there hown := by rw [hfields]; exact h.there hown

/-! ## Statements -/

namespace Db

theorem lookup_keepVersion {version : Int} {key : Uuid × Int × String} :
    (db.keepVersion id version).secretFields.lookup key =
      if key.1 = id ∧ key.2.1 ≠ version then none else db.secretFields.lookup key :=
  HashMap.lookup_collect_unless db.secretFields (fun key => key.1 = id ∧ key.2.1 ≠ version) key

theorem lookup_dropKeys {keys : List (Uuid × Int × String)} {key : Uuid × Int × String} :
    (db.dropKeys keys).secretFields.lookup key =
      if key ∈ keys then none else db.secretFields.lookup key := by
  unfold dropKeys
  rw [HashMap.lookup_foldl_erase]
  congr

theorem mem_otherVersions {version : Int} {key : Uuid × Int × String} :
    key ∈ db.otherVersions id version ↔
      (db.secretFields.lookup key).isSome ∧ key.1 = id ∧ key.2.1 ≠ version := by
  unfold otherVersions
  rw [List.mem_filter, ← AList.mem_keys, ← AList.lookup_isSome, decide_eq_true_eq]

theorem unused_iff : db.unused id = true ↔ id ∉ db.devices ∧ id ∉ db.profiles ∧
    ∀ v f, db.secretFields.lookup (id, v, f) = none := by
  unfold unused
  rw [decide_eq_true_eq]
  refine and_congr_right fun _ => and_congr_right fun _ => ⟨fun h v f => ?_, fun h key hkey hid => ?_⟩
  · exact AList.lookup_eq_none.2 fun hmem => h _ (AList.mem_keys.1 hmem) rfl
  · subst hid
    exact AList.lookup_eq_none.1 (h key.2.1 key.2.2) (AList.mem_keys.2 hkey)

end Db

/-! ## What is given -/

/-- New secrets of a kind have its field. -/
theorem newSecrets_field {kind : SecretKind} {input : SecretInput} {secrets : Secrets}
    (h : newSecrets ssh kind input = .ok (some secrets)) :
    ∃ v, (kind.field, v) ∈ secrets.fields := by
  cases kind with
  | password =>
    have hpassword := newSecrets_password h
    obtain ⟨p, -, rfl⟩ := Option.map_eq_some_iff.1 hpassword.symm
    exact ⟨p, List.mem_singleton.2 rfl⟩
  | sshKey =>
    unfold newSecrets at h
    split at h
    · cases ‹SecretKind.sshKey = SecretKind.password›
    · cases h
    · simp only at h
      split at h
      · cases h
        exact ⟨_, List.mem_cons_self⟩
      · cases h

/-- Only a device with credentials of its own has secrets, of its kind. -/
structure ValidDevice.Fits (d : ValidDevice) : Prop where
  own : d.authMode ≠ .device → d.secrets = none
  field : ∀ secrets, d.secrets = some secrets → ∃ v, (d.secretKind.field, v) ∈ secrets.fields

theorem validate_fits {input : DeviceInput} {d : ValidDevice} (h : input.validate ssh = .ok d) :
    d.Fits := by
  obtain ⟨mode, -, h⟩ := bind_eq_ok.1 h
  obtain ⟨protocol, -, h⟩ := bind_eq_ok.1 h
  obtain ⟨authMode, -, h⟩ := bind_eq_ok.1 h
  obtain ⟨kind, -, h⟩ := bind_eq_ok.1 h
  obtain ⟨secrets, hsecrets, h⟩ := ite_bind_eq_ok.1 h
  obtain ⟨_, -, h⟩ := bind_eq_ok.1 h
  obtain ⟨_, -, h⟩ := bind_eq_ok.1 h
  obtain ⟨_, -, h⟩ := bind_eq_ok.1 h
  obtain ⟨_, -, h⟩ := bind_eq_ok.1 h
  obtain ⟨layout, -, h⟩ := bind_eq_ok.1 h
  obtain ⟨name, -, h⟩ := bind_eq_ok.1 h
  obtain ⟨username, -, h⟩ := ite_bind_eq_ok.1 h
  obtain ⟨domain, -, h⟩ := ite_bind_eq_ok.1 h
  cases h
  refine ⟨fun hmode => ?_, fun given hgiven => ?_⟩
  · rw [if_neg (by simpa using hmode)] at hsecrets
    cases hsecrets
    rfl
  · rw [show secrets = some given from hgiven] at hsecrets
    split at hsecrets
    · exact newSecrets_field hsecrets
    · cases hsecrets

/-- A change keeps the version and the kind that were read, or seals a secret of its kind. -/
structure DeviceChange.Good (c : DeviceChange) : Prop extends c.device.Fits where
  zero : c.device.authMode ≠ .device → c.secretVersion = 0
  kept : c.device.secrets = none → c.device.authMode = .device →
    c.secretVersion = c.before.secretVersion ∧ 0 < c.before.secretVersion ∧
      c.device.secretKind = c.before.secretKind

theorem change_good {r : DeviceRequest} {catalog : Catalog} {before : DeviceRow}
    {targetChanged : Bool} {c : DeviceChange} (hr : r.device.Fits)
    (h : r.change catalog before targetChanged = .ok c) : c.Good := by
  obtain ⟨version, hversion, h⟩ := bind_eq_ok.1 h
  cases h
  unfold ValidDevice.nextVersion at hversion
  refine ⟨hr, fun hmode => ?_, fun hnone hmode => ?_⟩
  · rw [hr.own hmode] at hversion
    split at hversion
    · rename_i hsome
      cases hsome
    · rename_i hdevice
      exact absurd hdevice hmode
    · cases hversion
      rfl
  · rw [show r.device.secrets = none from hnone, show r.device.authMode = .device from hmode]
      at hversion
    simp only at hversion
    split at hversion
    · rename_i hkeeps
      cases hversion
      rw [Bool.and_eq_true, decide_eq_true_eq] at hkeeps
      exact ⟨rfl, hkeeps.1.2.1, hkeeps.1.2.2.symm⟩
    · cases hversion

/-- An update of a profile keeps the version and the kind that were read, or seals a secret of its
kind. -/
structure ProfileChange.Good (c : ProfileChange) : Prop where
  field : ∀ secrets, c.secrets = some secrets → ∃ v, (c.row.secretKind.field, v) ∈ secrets.fields
  kept : c.secrets = none →
    c.row.secretVersion = c.before.secretVersion ∧ c.row.secretKind = c.before.secretKind

theorem request_field {subject : Subject} {input : ProfileInput} {r : ProfileRequest}
    (h : input.request ssh subject id = .ok r) :
    ∀ secrets, r.secrets = some secrets → ∃ v, (r.kind.field, v) ∈ secrets.fields := by
  obtain ⟨name, -, h⟩ := bind_eq_ok.1 h
  obtain ⟨username, -, h⟩ := bind_eq_ok.1 h
  obtain ⟨domain, -, h⟩ := bind_eq_ok.1 h
  obtain ⟨kind, -, h⟩ := bind_eq_ok.1 h
  obtain ⟨secrets, hsecrets, h⟩ := bind_eq_ok.1 h
  cases h
  intro given hgiven
  rw [show secrets = some given from hgiven] at hsecrets
  exact newSecrets_field hsecrets

theorem profileChange_good {r : ProfileRequest} {before : ProfileRow} {c : ProfileChange}
    (hr : ∀ secrets, r.secrets = some secrets → ∃ v, (r.kind.field, v) ∈ secrets.fields)
    (h : r.change before = .ok c) : c.Good := by
  obtain ⟨_, hkind, h⟩ := bind_eq_ok.1 h
  cases h
  refine ⟨hr, fun hnone => ?_⟩
  have hnone : r.secrets = none := hnone
  have hkind := refuse_eq_ok.1 hkind
  rw [not_and, not_not] at hkind
  exact ⟨by simp [hnone], hkind hnone⟩

/-! ## Transactions -/

/-- What a commit leaves for one owner: what its `DELETE` did not find, and what it seals. -/
theorem sealNew_lookup {version : Int} {secrets : Option Secrets}
    (h : db.sealNew id version secrets = .ok db') (v : Int) (f : String) :
    (db'.secretFields.lookup (id, v, f)).isSome ↔
      (db.secretFields.lookup (id, v, f)).isSome ∨
        (v = version ∧ ∃ given value, secrets = some given ∧ (f, value) ∈ given.fields) := by
  have hstored := Db.sealNew_stored h
  by_cases hv : v = version
  · subst hv
    simp only [Option.isSome_iff_exists, hstored.lookup, true_and]
    constructor
    · intro hsome
      obtain ⟨value, ⟨given, hgiven, hmem⟩ | hold⟩ := hsome
      · exact .inr ⟨given, value, hgiven, hmem⟩
      · exact .inl ⟨value, hold⟩
    · intro hsome
      obtain ⟨value, hold⟩ | ⟨given, value, hgiven, hmem⟩ := hsome
      · exact ⟨value, .inr hold⟩
      · exact ⟨value, .inl ⟨given, hgiven, hmem⟩⟩
  · rw [hstored.other (id, v, f) (.inr hv)]
    simp [hv]

theorem sealNew_other {version : Int} {secrets : Option Secrets}
    (h : db.sealNew id version secrets = .ok db') {other : Uuid} (hne : other ≠ id) (v : Int)
    (f : String) :
    db'.secretFields.lookup (other, v, f) = db.secretFields.lookup (other, v, f) :=
  (Db.sealNew_stored h).other (other, v, f) (.inl hne)

section
variable {c : DeviceChange} {found : List (Uuid × Int × String)}

/-- The commit of an update of a device. -/
theorem writeDevice_ok (h : db.writeDevice id c found = .ok db') :
    db'.folders = db.folders ∧ db'.profiles = db.profiles ∧
      db'.devices = db.devices.modify id
        (c.device.apply c.secretVersion c.keyInfo c.targetChanged) ∧
      (∀ v f, (db'.secretFields.lookup (id, v, f)).isSome ↔
        ((id, v, f) ∉ found ∧ (db.secretFields.lookup (id, v, f)).isSome) ∨
          (v = c.secretVersion ∧
            ∃ given value, c.device.secrets = some given ∧ (f, value) ∈ given.fields)) ∧
      ∀ other v f, other ≠ id → (other, v, f) ∉ found →
        db'.secretFields.lookup (other, v, f) = db.secretFields.lookup (other, v, f) := by
  obtain ⟨sealed, hsealed, h⟩ := bind_eq_ok.1 h
  obtain ⟨_, -, h⟩ := bind_eq_ok.1 h
  cases h
  obtain ⟨hfolders, hdevices, hprofiles⟩ := Db.sealNew_ok hsealed
  refine ⟨hfolders, hprofiles, ?_, fun v f => ?_, fun other v f hne hnot => ?_⟩
  · show sealed.devices.modify id _ = _
    rw [hdevices]
    rfl
  · show (sealed.secretFields.lookup (id, v, f)).isSome ↔ _
    rw [sealNew_lookup hsealed, Db.lookup_dropKeys]
    refine or_congr_left ?_
    by_cases hf : (id, v, f) ∈ found <;> simp [hf]
  · show sealed.secretFields.lookup (other, v, f) = _
    rw [sealNew_other hsealed hne, Db.lookup_dropKeys, if_neg hnot]

/-- **A device after an update** that found all other versions, and the version and the kind it read
if it keeps the secret. -/
theorem sealed_writeDevice {row : DeviceRow} (hgood : c.Good)
    (hfound : ∀ v f, (id, v, f) ∈ found → v ≠ c.secretVersion)
    (hall : ∀ v f, (db.secretFields.lookup (id, v, f)).isSome → v ≠ c.secretVersion →
      (id, v, f) ∈ found)
    (hs : Sealed db id row.secretVersion row.secretKind (row.authMode = .device))
    (hidle : row.authMode ≠ .device → row.secretVersion = 0)
    (hfinds : c.device.secrets = none → c.device.authMode = .device →
      row.secretVersion = c.before.secretVersion ∧ row.secretKind = c.before.secretKind)
    (h : db.writeDevice id c found = .ok db') :
    Sealed db' id c.secretVersion c.device.secretKind (c.device.authMode = .device) := by
  obtain ⟨-, -, -, hlookup, -⟩ := writeDevice_ok h
  refine ⟨fun v f hsome => ?_, fun hmode => ?_⟩
  · rcases (hlookup v f).1 hsome with ⟨hnot, hold⟩ | ⟨rfl, -⟩
    · by_contra hv
      exact hnot (hall v f hold hv)
    · rfl
  · rw [hlookup]
    cases hsecrets : c.device.secrets with
    | some given =>
      obtain ⟨value, hmem⟩ := hgood.field given hsecrets
      exact .inr ⟨rfl, given, value, rfl, hmem⟩
    | none =>
      obtain ⟨hversion, hpos, hkind⟩ := hgood.kept hsecrets hmode
      obtain ⟨hversion', hkind'⟩ := hfinds hsecrets hmode
      refine .inl ⟨fun hmem => hfound _ _ hmem rfl, ?_⟩
      have hmode' : row.authMode = .device := by
        by_contra hnot
        have := hidle hnot
        omega
      have hthere := hs.there hmode'
      rwa [hversion', hkind', ← hversion, ← hkind] at hthere

end

section
variable {c : ProfileChange}

/-- The transaction of an update of a login profile. -/
theorem writeProfile_ok (h : db.writeProfile id c = .ok db') :
    db'.folders = db.folders ∧ db'.devices = db.devices ∧
      db'.profiles = db.profiles.modify id (fun _ => c.row) ∧
      (∀ v f, (db'.secretFields.lookup (id, v, f)).isSome ↔
        ((c.secrets.isSome → v = c.row.secretVersion) ∧
          (db.secretFields.lookup (id, v, f)).isSome) ∨
          (v = c.row.secretVersion ∧
            ∃ given value, c.secrets = some given ∧ (f, value) ∈ given.fields)) ∧
      ∀ other v f, other ≠ id →
        db'.secretFields.lookup (other, v, f) = db.secretFields.lookup (other, v, f) := by
  obtain ⟨_, -, h⟩ := bind_eq_ok.1 h
  obtain ⟨sealed, hsealed, h⟩ := bind_eq_ok.1 h
  obtain ⟨_, -, h⟩ := bind_eq_ok.1 h
  obtain ⟨_, -, h⟩ := bind_eq_ok.1 h
  cases h
  obtain ⟨hfolders, hdevices, hprofiles⟩ := Db.sealNew_ok hsealed
  cases hsecrets : c.secrets with
  | none =>
    simp only [Option.isSome_none, Bool.false_eq_true, if_false, false_implies, true_and]
    refine ⟨hfolders, hdevices, hprofiles, fun v f => ?_, fun other v f hne => ?_⟩
    · rw [sealNew_lookup hsealed, hsecrets]
    · exact sealNew_other hsealed hne v f
  | some given =>
    simp only [Option.isSome_some, if_true, true_implies]
    refine ⟨hfolders, hdevices, hprofiles, fun v f => ?_, fun other v f hne => ?_⟩
    · rw [Db.lookup_keepVersion]
      have hsealed' := sealNew_lookup hsealed v f
      rw [hsecrets] at hsealed'
      by_cases hv : v = c.row.secretVersion
      · simpa [hv] using hsealed'
      · simp [hv]
    · rw [Db.lookup_keepVersion, if_neg (fun hand => hne hand.1)]
      exact sealNew_other hsealed hne v f

theorem sealed_writeProfile {row : ProfileRow} (hgood : c.Good)
    (hs : Sealed db id row.secretVersion row.secretKind True)
    (hfinds : c.secrets = none →
      row.secretVersion = c.before.secretVersion ∧ row.secretKind = c.before.secretKind)
    (h : db.writeProfile id c = .ok db') :
    Sealed db' id c.row.secretVersion c.row.secretKind True := by
  obtain ⟨-, -, -, hlookup, -⟩ := writeProfile_ok h
  cases hsecrets : c.secrets with
  | some given =>
    obtain ⟨value, hmem⟩ := hgood.field given hsecrets
    refine ⟨fun v f hsome => ?_, fun _ => ?_⟩
    · rcases (hlookup v f).1 hsome with ⟨hv, -⟩ | ⟨hv, -⟩
      · exact hv (by rw [hsecrets]; rfl)
      · exact hv
    · exact (hlookup _ _).2 (.inr ⟨rfl, given, value, hsecrets, hmem⟩)
  | none =>
    obtain ⟨hversion, hkind⟩ := hgood.kept hsecrets
    obtain ⟨hversion', hkind'⟩ := hfinds hsecrets
    have hsame : ∀ v f, (db'.secretFields.lookup (id, v, f)).isSome ↔
        (db.secretFields.lookup (id, v, f)).isSome := by
      intro v f
      rw [hlookup, hsecrets]
      simp
    rw [hversion, hkind, ← hversion', ← hkind']
    exact ⟨fun v f hsome => hs.only v f ((hsame v f).1 hsome),
      fun _ => (hsame _ _).2 (hs.there trivial)⟩

end

/-! ## New devices and profiles -/

/-- What is sealed for an id that owned nothing. -/
theorem sealed_new {version : Int} {kind : SecretKind} {own : Prop} {secrets : Option Secrets}
    (hnew : ∀ v f, db.secretFields.lookup (id, v, f) = none)
    (hown : own → ∃ given value, secrets = some given ∧ (kind.field, value) ∈ given.fields)
    (h : db.sealNew id version secrets = .ok db') : Sealed db' id version kind own := by
  have hlookup : ∀ v f, (db'.secretFields.lookup (id, v, f)).isSome ↔
      (v = version ∧ ∃ given value, secrets = some given ∧ (f, value) ∈ given.fields) := by
    intro v f
    rw [sealNew_lookup h, hnew]
    simp
  exact ⟨fun v f hsome => ((hlookup v f).1 hsome).1, fun ho => (hlookup _ _).2 ⟨rfl, hown ho⟩⟩

theorem createDevice_seals {caller : Caller} {input : DeviceInput}
    (h : db.createDevice ssh caller id input = .ok db') :
    ∃ row secrets, { db with devices := db.devices.insert id row }.sealNew id row.secretVersion
        secrets = .ok db' ∧
      (row.authMode ≠ .device → row.secretVersion = 0) ∧
      (row.authMode = .device →
        ∃ given value, secrets = some given ∧ (row.secretKind.field, value) ∈ given.fields) := by
  obtain ⟨device, hdevice, h⟩ := bind_eq_ok.1 h
  obtain ⟨_, -, h⟩ := bind_eq_ok.1 h
  obtain ⟨_, -, h⟩ := bind_eq_ok.1 h
  obtain ⟨_, -, h⟩ := bind_eq_ok.1 h
  obtain ⟨_, hmissing, h⟩ := bind_eq_ok.1 h
  obtain ⟨_, -, h⟩ := bind_eq_ok.1 h
  obtain ⟨_, -, h⟩ := bind_eq_ok.1 h
  have hfits := validate_fits hdevice
  refine ⟨_, device.secrets, h, fun hmode => ?_, fun hmode => ?_⟩
  · show (if device.secrets.isSome then (1 : Int) else 0) = 0
    rw [hfits.own hmode]
    rfl
  · cases hsecrets : device.secrets with
    | none => exact absurd ⟨hmode, hsecrets⟩ (refuse_eq_ok.1 hmissing)
    | some given =>
      obtain ⟨value, hmem⟩ := hfits.field given hsecrets
      exact ⟨given, value, rfl, hmem⟩

theorem createProfile_seals {caller : Caller} {input : ProfileInput}
    (h : db.createProfile ssh caller id input = .ok db') :
    ∃ row given value, (row.secretKind.field, value) ∈ Secrets.fields given ∧
      { db with profiles := db.profiles.insert id row }.sealNew id row.secretVersion
        (some given) = .ok db' := by
  obtain ⟨name, -, h⟩ := bind_eq_ok.1 h
  obtain ⟨username, -, h⟩ := bind_eq_ok.1 h
  obtain ⟨domain, -, h⟩ := bind_eq_ok.1 h
  obtain ⟨kind, -, h⟩ := bind_eq_ok.1 h
  obtain ⟨secrets, hsecrets, h⟩ := bind_eq_ok.1 h
  obtain ⟨given, hgiven, h⟩ := bind_eq_ok.1 h
  obtain ⟨_, -, h⟩ := bind_eq_ok.1 h
  obtain ⟨_, -, h⟩ := bind_eq_ok.1 h
  obtain ⟨_, -, h⟩ := bind_eq_ok.1 h
  have hsome : secrets = some given := by
    cases secrets with
    | none => cases hgiven
    | some _ =>
      cases hgiven
      rfl
  rw [hsome] at hsecrets
  obtain ⟨value, hmem⟩ := newSecrets_field hsecrets
  exact ⟨{ folderId := input.folderId, name, username, domain, secretKind := kind,
           secretVersion := 1, keyInfo := given.keyInfo }, given, value, hmem, h⟩

/-! ## Steps -/

namespace OwnSecrets

variable {s s' : Shared}

/-- The committed state: everything signs in, and no id is of two kinds. -/
structure Inv (s : Shared) : Prop extends SignsIn s.db where
  idle : ∀ id row, s.db.devices.lookup id = some row → row.authMode ≠ .device →
    row.secretVersion = 0
  apart : ∀ id ∈ s.db.devices, id ∉ s.db.profiles

/-- A request in flight: what it decided, and what its `DELETE` found. -/
def Ready (s : Shared) : Flight → Prop
  | .device .. | .profile .. => True
  | .deviceLoading r _ | .deviceLoaded r _ => r.device.Fits
  | .deviceRead r _ _ _ | .deviceNamed r _ _ _ | .deviceAimed r _ _ _ =>
    r.device.Fits ∧ r.id ∈ s.db.devices
  | .deviceBegun id c | .deviceSealed id c => c.Good ∧ id ∈ s.db.devices
  | .deviceCleared id c found seen =>
    c.Good ∧ id ∈ s.db.devices ∧ seen ≤ s.commits.count id ∧
      (∀ key ∈ found, key.1 = id ∧ key.2.1 ≠ c.secretVersion) ∧
      (s.commits.count id = seen → ∀ v f, (s.db.secretFields.lookup (id, v, f)).isSome →
        v ≠ c.secretVersion → (id, v, f) ∈ found)
  | .profileLoading r _ | .profileLoaded r =>
    ∀ secrets, r.secrets = some secrets → ∃ v, (r.kind.field, v) ∈ secrets.fields
  | .profileBegun id c => c.Good ∧ id ∈ s.db.profiles

/-- What a step leaves of the state before: rows stay, and an owner whose sealed fields change had
an update committed. -/
structure Later (s s' : Shared) : Prop where
  devices : ∀ id ∈ s.db.devices, id ∈ s'.db.devices
  profiles : ∀ id ∈ s.db.profiles, id ∈ s'.db.profiles
  count : ∀ id, s.commits.count id ≤ s'.commits.count id
  fields : ∀ id ∈ s.db.devices, s'.commits.count id = s.commits.count id →
    ∀ v f, s'.db.secretFields.lookup (id, v, f) = s.db.secretFields.lookup (id, v, f)

theorem Later.refl (s : Shared) : Later s s :=
  ⟨fun _ h => h, fun _ h => h, fun _ => le_refl _, fun _ _ _ _ _ => rfl⟩

theorem Ready.later {f : Flight} (h : Ready s f) (hl : Later s s') : Ready s' f := by
  cases f with
  | device | profile | deviceLoading | deviceLoaded | profileLoading | profileLoaded => exact h
  | deviceRead | deviceNamed | deviceAimed | deviceBegun | deviceSealed =>
    exact ⟨h.1, hl.devices _ h.2⟩
  | profileBegun => exact ⟨h.1, hl.profiles _ h.2⟩
  | deviceCleared id c found seen =>
    obtain ⟨hgood, hid, hseen, hfound, hall⟩ := h
    refine ⟨hgood, hl.devices id hid, hseen.trans (hl.count id), hfound, fun heq v f hsome hv => ?_⟩
    have hle := hl.count id
    have hcount : s'.commits.count id = s.commits.count id := by omega
    rw [hl.fields id hid hcount] at hsome
    exact hall (by omega) v f hsome hv

theorem count_concat (commits : List Uuid) (other : Uuid) :
    (commits ++ [id]).count other = commits.count other + if other = id then 1 else 0 := by
  rw [List.count_append]
  by_cases h : other = id
  · subst h
    rw [if_pos rfl, List.count_singleton_self]
  · have hzero : [id].count other = 0 := List.count_eq_zero_of_not_mem (by simpa using h)
    rw [if_neg h, hzero]

/-- A commit of an update of `id` that leaves the sealed fields of the other owners. -/
theorem later_commit (hdevices : ∀ d ∈ s.db.devices, d ∈ db'.devices)
    (hprofiles : ∀ p ∈ s.db.profiles, p ∈ db'.profiles)
    (hother : ∀ other v f, other ≠ id →
      db'.secretFields.lookup (other, v, f) = s.db.secretFields.lookup (other, v, f)) :
    Later s { s with db := db', commits := s.commits ++ [id] } := by
  refine ⟨hdevices, hprofiles, fun d => ?_, fun d _ hcount v f => hother d v f ?_⟩
  · rw [count_concat]
    exact Nat.le_add_right _ _
  · intro hd
    rw [count_concat, if_pos hd] at hcount
    omega

/-- The commit of an update of a device. -/
theorem commit_device {c : DeviceChange} {found : List (Uuid × Int × String)} (hi : Inv s)
    (hid : id ∈ s.db.devices) (hgood : c.Good)
    (hfound : ∀ key ∈ found, key.1 = id ∧ key.2.1 ≠ c.secretVersion)
    (hall : ∀ v f, (s.db.secretFields.lookup (id, v, f)).isSome → v ≠ c.secretVersion →
      (id, v, f) ∈ found)
    (hfinds : ∀ row, s.db.devices.lookup id = some row → c.device.secrets = none →
      c.device.authMode = .device →
      row.secretVersion = c.before.secretVersion ∧ row.secretKind = c.before.secretKind)
    (h : s.db.writeDevice id c found = .ok db') :
    Inv { s with db := db', commits := s.commits ++ [id] } ∧
      Later s { s with db := db', commits := s.commits ++ [id] } := by
  obtain ⟨-, hprofiles, hdevices, -, hother⟩ := writeDevice_ok h
  have hother : ∀ other v f, other ≠ id →
      db'.secretFields.lookup (other, v, f) = s.db.secretFields.lookup (other, v, f) :=
    fun other v f hne => hother other v f hne fun hmem => hne (hfound _ hmem).1
  have hmem : ∀ d, d ∈ db'.devices ↔ d ∈ s.db.devices := by
    intro d
    rw [hdevices, HashMap.mem_modify]
  refine ⟨⟨⟨fun d row hd => ?_, fun p row hp => ?_⟩, fun d row hd hmode => ?_, fun d hd => ?_⟩,
    later_commit (fun d hd => (hmem d).2 hd) (fun p hp => hprofiles ▸ hp) hother⟩
  · rw [show db'.devices.lookup d = _ from hdevices ▸ HashMap.lookup_modify _ _ _ _] at hd
    split at hd
    · rename_i hd'
      subst hd'
      obtain ⟨old, hold, rfl⟩ := Option.map_eq_some_iff.1 hd
      exact sealed_writeDevice hgood (fun v f hm => (hfound _ hm).2) hall (hi.devices d old hold)
        (hi.idle d old hold) (hfinds old hold) h
    · exact (hi.devices d row hd).congr fun v f => hother d v f ‹_›
  · have hold : s.db.profiles.lookup p = some row := hprofiles ▸ hp
    refine (hi.profiles p row hold).congr fun v f => hother p v f ?_
    intro hpid
    exact hi.apart id hid (hpid ▸ AList.lookup_isSome.1 (Option.isSome_of_mem hold))
  · rw [show db'.devices.lookup d = _ from hdevices ▸ HashMap.lookup_modify _ _ _ _] at hd
    split at hd
    · obtain ⟨old, hold, rfl⟩ := Option.map_eq_some_iff.1 hd
      exact hgood.zero hmode
    · exact hi.idle d row hd hmode
  · show d ∉ db'.profiles
    rw [hprofiles]
    exact hi.apart d ((hmem d).1 hd)

/-- The commit of an update of a login profile. -/
theorem commit_profile {c : ProfileChange} (hi : Inv s) (hid : id ∈ s.db.profiles)
    (hgood : c.Good)
    (hfinds : ∀ row, s.db.profiles.lookup id = some row → c.secrets = none →
      row.secretVersion = c.before.secretVersion ∧ row.secretKind = c.before.secretKind)
    (h : s.db.writeProfile id c = .ok db') :
    Inv { s with db := db', commits := s.commits ++ [id] } ∧
      Later s { s with db := db', commits := s.commits ++ [id] } := by
  obtain ⟨-, hdevices, hprofiles, -, hother⟩ := writeProfile_ok h
  have hmem : ∀ p, p ∈ db'.profiles ↔ p ∈ s.db.profiles := by
    intro p
    rw [hprofiles, HashMap.mem_modify]
  refine ⟨⟨⟨fun d row hd => ?_, fun p row hp => ?_⟩, fun d row hd => ?_, fun d hd => ?_⟩,
    later_commit (fun d hd => hdevices ▸ hd) (fun p hp => (hmem p).2 hp) hother⟩
  · have hold : s.db.devices.lookup d = some row := hdevices ▸ hd
    refine (hi.devices d row hold).congr fun v f => hother d v f ?_
    intro hdid
    exact hi.apart id (hdid ▸ AList.lookup_isSome.1 (Option.isSome_of_mem hold)) hid
  · rw [show db'.profiles.lookup p = _ from hprofiles ▸ HashMap.lookup_modify _ _ _ _] at hp
    split at hp
    · rename_i hp'
      subst hp'
      obtain ⟨old, hold, rfl⟩ := Option.map_eq_some_iff.1 hp
      exact sealed_writeProfile hgood (hi.profiles p old hold) (hfinds old hold) h
    · exact (hi.profiles p row hp).congr fun v f => hother p v f ‹_›
  · exact hi.idle d row (hdevices ▸ hd)
  · intro hp
    exact hi.apart d (hdevices ▸ hd) ((hmem d).1 hp)

/-- A device or a login profile is created for an id that owned nothing. -/
theorem create_device {caller : Caller} {input : DeviceInput} (hi : Inv s)
    (hnew : s.db.unused id = true) (h : s.db.createDevice ssh caller id input = .ok db') :
    Inv { s with db := db' } ∧ Later s { s with db := db' } := by
  obtain ⟨hdevice, hprofile, hnone⟩ := Db.unused_iff.1 hnew
  obtain ⟨row, secrets, hsealed, hidle, hown⟩ := createDevice_seals h
  obtain ⟨-, hdevices, hprofiles⟩ := Db.sealNew_ok hsealed
  have hdevices : db'.devices = s.db.devices.insert id row := hdevices
  have hprofiles : db'.profiles = s.db.profiles := hprofiles
  have hother : ∀ other v f, other ≠ id →
      db'.secretFields.lookup (other, v, f) = s.db.secretFields.lookup (other, v, f) :=
    fun other v f hne => sealNew_other hsealed hne v f
  refine ⟨⟨⟨fun d old hd => ?_, fun p old hp => ?_⟩, fun d old hd => ?_, fun d hd => ?_⟩,
    fun d hd => ?_, fun p hp => hprofiles ▸ hp, fun _ => le_refl _, fun d hd _ v f => ?_⟩
  · rw [show db'.devices.lookup d = _ from hdevices ▸ HashMap.lookup_insert_eq _ _ _ _] at hd
    split at hd
    · rename_i hd'
      subst hd'
      cases hd
      refine sealed_new ?_ hown hsealed
      exact hnone
    · exact (hi.devices d old hd).congr fun v f => hother d v f ‹_›
  · have hp : s.db.profiles.lookup p = some old := hprofiles ▸ hp
    refine (hi.profiles p old hp).congr fun v f => hother p v f ?_
    intro hpid
    subst hpid
    exact hprofile (AList.lookup_isSome.1 (Option.isSome_of_mem hp))
  · rw [show db'.devices.lookup d = _ from hdevices ▸ HashMap.lookup_insert_eq _ _ _ _] at hd
    split at hd
    · cases hd
      exact hidle
    · exact hi.idle d old hd
  · show d ∉ db'.profiles
    rw [hprofiles]
    rw [show db'.devices = _ from hdevices, AList.mem_insert] at hd
    rcases hd with rfl | hd
    · exact hprofile
    · exact hi.apart d hd
  · show d ∈ db'.devices
    rw [hdevices, AList.mem_insert]
    exact .inr hd
  · exact hother d v f fun hdid => hdevice (hdid ▸ hd)

theorem create_profile {caller : Caller} {input : ProfileInput} (hi : Inv s)
    (hnew : s.db.unused id = true) (h : s.db.createProfile ssh caller id input = .ok db') :
    Inv { s with db := db' } ∧ Later s { s with db := db' } := by
  obtain ⟨hdevice, hprofile, hnone⟩ := Db.unused_iff.1 hnew
  obtain ⟨row, given, value, hmem, hsealed⟩ := createProfile_seals h
  obtain ⟨-, hdevices, hprofiles⟩ := Db.sealNew_ok hsealed
  have hdevices : db'.devices = s.db.devices := hdevices
  have hprofiles : db'.profiles = s.db.profiles.insert id row := hprofiles
  have hother : ∀ other v f, other ≠ id →
      db'.secretFields.lookup (other, v, f) = s.db.secretFields.lookup (other, v, f) :=
    fun other v f hne => sealNew_other hsealed hne v f
  refine ⟨⟨⟨fun d old hd => ?_, fun p old hp => ?_⟩, fun d old hd => ?_, fun d hd => ?_⟩,
    fun d hd => hdevices ▸ hd, fun p hp => ?_, fun _ => le_refl _, fun d hd _ v f => ?_⟩
  · have hd : s.db.devices.lookup d = some old := hdevices ▸ hd
    refine (hi.devices d old hd).congr fun v f => hother d v f ?_
    intro hdid
    subst hdid
    exact hdevice (AList.lookup_isSome.1 (Option.isSome_of_mem hd))
  · rw [show db'.profiles.lookup p = _ from hprofiles ▸ HashMap.lookup_insert_eq _ _ _ _] at hp
    split at hp
    · rename_i hp'
      subst hp'
      cases hp
      refine sealed_new ?_ (fun _ => ⟨given, value, rfl, hmem⟩) hsealed
      exact hnone
    · exact (hi.profiles p old hp).congr fun v f => hother p v f ‹_›
  · exact hi.idle d old (hdevices ▸ hd)
  · show d ∉ db'.profiles
    have hd : d ∈ s.db.devices := hdevices ▸ hd
    rw [hprofiles, AList.mem_insert]
    intro hp
    rcases hp with rfl | hp
    · exact hdevice hd
    · exact hi.apart d hd hp
  · show p ∈ db'.profiles
    rw [hprofiles, AList.mem_insert]
    exact .inr hp
  · exact hother d v f fun hdid => hdevice (hdid ▸ hd)

/-! ## Runs -/

/-- A row that is there now has the version and the kind that were read. -/
def sameSecret (now : Option (Int × SecretKind)) (version : Int) (kind : SecretKind) : Bool :=
  now.all fun row => row.1 = version && row.2 = kind

/-- The update that is committed next was overtaken by no other one: of a device, no other one was
committed since its `DELETE`; and if it keeps the secret, it finds the version and the kind it
read. -/
def finds (w : World Shared Flight) : Interleave.Event Flight Outside → Bool
  | .next k =>
    match w.flights.lookup k with
    | some (.deviceCleared id c _ seen) =>
      w.shared.commits.count id = seen &&
        (c.device.secrets.isSome || c.device.authMode ≠ .device ||
          sameSecret ((w.shared.db.devices.lookup id).map fun row =>
            (row.secretVersion, row.secretKind)) c.before.secretVersion c.before.secretKind)
    | some (.profileBegun id c) =>
      c.secrets.isSome ||
        sameSecret ((w.shared.db.profiles.lookup id).map fun row =>
          (row.secretVersion, row.secretKind)) c.before.secretVersion c.before.secretKind
    | _ => true
  | _ => true

theorem sameSecret_iff {now : Option (Int × SecretKind)} {version : Int} {kind : SecretKind} :
    sameSecret now version kind = true ↔ ∀ v k, now = some (v, k) → v = version ∧ k = kind := by
  unfold sameSecret
  cases now with
  | none => simp
  | some row =>
    obtain ⟨v, k⟩ := row
    simp only [Option.all_some, Bool.and_eq_true, decide_eq_true_eq, Option.some.injEq,
      Prod.mk.injEq]
    constructor
    · intro h v' k' heq
      rw [← heq.1, ← heq.2]
      exact h
    · intro h
      exact h v k ⟨rfl, rfl⟩

/-- A statement that only reads. -/
theorem reads {g : Flight} {o : Option Flight} (hi : Inv s) (hg : Ready s g)
    (h : (Except.ok (s, some g) : Answer (Shared × Option Flight)) = .ok (s', o)) :
    Inv s' ∧ Later s s' ∧ ∀ f, o = some f → Ready s' f := by
  cases h
  refine ⟨hi, Later.refl s, fun f hf => ?_⟩
  cases hf
  exact hg

/-- A statement of a request. -/
theorem statement_ok {w : World Shared Flight} {k : Nat} {f : Flight} {o : Option Flight}
    (hi : Inv w.shared) (hready : Ready w.shared f) (hf : w.flights.lookup k = some f)
    (hfinds : finds w (.next k) = true) (h : f.statement ssh w.shared = .ok (s', o)) :
    Inv s' ∧ Later w.shared s' ∧ ∀ g, o = some g → Ready s' g := by
  cases f with
  | device subject id input =>
    obtain ⟨d, hd, h⟩ := bind_eq_ok.1 h
    refine reads hi ?_ h
    exact validate_fits hd
  | deviceLoading r l =>
    simp only [Flight.statement] at h
    split at h
    · refine reads hi ?_ h
      exact hready
    · obtain ⟨_, -, h⟩ := bind_eq_ok.1 h
      obtain ⟨_, -, h⟩ := bind_eq_ok.1 h
      refine reads hi ?_ h
      exact hready
  | deviceLoaded r catalog =>
    obtain ⟨before, hbefore, h⟩ := bind_eq_ok.1 h
    obtain ⟨_, -, h⟩ := bind_eq_ok.1 h
    have hthere := AList.lookup_isSome.1 (Option.isSome_of_mem (Db.fetchOne_eq_ok.1 hbefore))
    refine reads hi ?_ h
    exact ⟨hready, hthere⟩
  | deviceRead r catalog before reachedBefore =>
    obtain ⟨_, -, h⟩ := bind_eq_ok.1 h
    refine reads hi ?_ h
    exact hready
  | deviceNamed r catalog before reachedBefore =>
    obtain ⟨_, -, h⟩ := bind_eq_ok.1 h
    refine reads hi ?_ h
    exact hready
  | deviceAimed r catalog before targetChanged =>
    obtain ⟨_, -, h⟩ := bind_eq_ok.1 h
    obtain ⟨c, hc, h⟩ := bind_eq_ok.1 h
    refine reads hi ?_ h
    exact ⟨change_good hready.1 hc, hready.2⟩
  | deviceBegun id c =>
    obtain ⟨_, -, h⟩ := bind_eq_ok.1 h
    refine reads hi ?_ h
    exact hready
  | deviceSealed id c =>
    refine reads hi ?_ h
    exact ⟨hready.1, hready.2, le_refl _, fun key hkey => (Db.mem_otherVersions.1 hkey).2,
      fun _ v f hsome hv => Db.mem_otherVersions.2 ⟨hsome, rfl, hv⟩⟩
  | deviceCleared id c found seen =>
    obtain ⟨db', hwrite, h⟩ := bind_eq_ok.1 h
    cases h
    obtain ⟨hgood, hid, -, hfound, hall⟩ := hready
    simp only [finds, hf, Bool.and_eq_true, Bool.or_eq_true, decide_eq_true_eq,
      sameSecret_iff] at hfinds
    obtain ⟨hseen, hkeeps⟩ := hfinds
    obtain ⟨hi', hlater⟩ := commit_device hi hid hgood hfound (hall hseen)
      (fun row hrow hnone hmode => by
        rcases hkeeps with (hsome | hmode') | hsame
        · rw [hnone] at hsome
          cases hsome
        · exact absurd hmode hmode'
        · exact hsame _ _ (by rw [hrow]; rfl)) hwrite
    exact ⟨hi', hlater, fun g hg => by cases hg⟩
  | profile subject id input =>
    obtain ⟨r, hr, h⟩ := bind_eq_ok.1 h
    refine reads hi ?_ h
    exact request_field hr
  | profileLoading r l =>
    simp only [Flight.statement] at h
    split at h
    · refine reads hi ?_ h
      exact hready
    · obtain ⟨_, -, h⟩ := bind_eq_ok.1 h
      obtain ⟨_, -, h⟩ := bind_eq_ok.1 h
      refine reads hi ?_ h
      exact hready
  | profileLoaded r =>
    obtain ⟨before, hbefore, h⟩ := bind_eq_ok.1 h
    obtain ⟨c, hc, h⟩ := bind_eq_ok.1 h
    have hthere := AList.lookup_isSome.1 (Option.isSome_of_mem (Db.fetchOne_eq_ok.1 hbefore))
    refine reads hi ?_ h
    exact ⟨profileChange_good hready hc, hthere⟩
  | profileBegun id c =>
    obtain ⟨db', hwrite, h⟩ := bind_eq_ok.1 h
    cases h
    simp only [finds, hf, Bool.or_eq_true, sameSecret_iff] at hfinds
    obtain ⟨hi', hlater⟩ := commit_profile hi hready.2 hready.1
      (fun row hrow hnone => by
        rcases hfinds with hsome | hsame
        · rw [hnone] at hsome
          cases hsome
        · exact hsame _ _ (by rw [hrow]; rfl)) hwrite
    exact ⟨hi', hlater, fun g hg => by cases hg⟩

theorem outside_ok {e : Outside} (hi : Inv s) (h : s.outside ssh e = some s') :
    Inv s' ∧ Later s s' := by
  cases e with
  | createDevice caller id input =>
    simp only [Shared.outside] at h
    split at h
    · cases h
      cases hcreate : s.db.createDevice ssh caller id input with
      | ok db' => exact create_device hi ‹_› hcreate
      | error _ => exact ⟨hi, Later.refl s⟩
    · cases h
  | createProfile caller id input =>
    simp only [Shared.outside] at h
    split at h
    · cases h
      cases hcreate : s.db.createProfile ssh caller id input with
      | ok db' => exact create_profile hi ‹_› hcreate
      | error _ => exact ⟨hi, Later.refl s⟩
    · cases h
  | tick clock =>
    cases h
    exact ⟨⟨⟨hi.devices, hi.profiles⟩, hi.idle, hi.apart⟩, fun _ h => h, fun _ h => h,
      fun _ => le_refl _, fun _ _ _ _ _ => rfl⟩
  | elsewhere folders collections credentials grants connectors =>
    cases h
    exact ⟨⟨⟨fun d row hd => (hi.devices d row hd).congr fun _ _ => rfl,
        fun p row hp => (hi.profiles p row hp).congr fun _ _ => rfl⟩, hi.idle, hi.apart⟩,
      fun _ h => h, fun _ h => h, fun _ => le_refl _, fun _ _ _ _ _ => rfl⟩

theorem invariant (ssh : SshKeys) :
    Invariant (system ssh) (fun w e => finds w e = true) Inv fun _ => Ready where
  start k s f _ hf := by
    cases f <;> trivial
  next w k f s o hw hfinds hf h := by
    have hready := hw.flights k f hf
    simp only [system, Flight.next] at h
    split at h
    · cases h
      rename_i hstatement
      obtain ⟨hi, hlater, hown⟩ := statement_ok hw.shared hready hf hfinds hstatement
      exact ⟨hi, hown, fun k' g _ _ hg => hg.later hlater⟩
    · cases h
      exact ⟨hw.shared, fun g hg => (by cases hg), fun k' g _ _ hg => hg⟩
    · cases h
  outside w e s hw _ h := by
    obtain ⟨hi, hlater⟩ := outside_ok hw.shared h
    exact ⟨hi, fun k g hg => hg.later hlater⟩

/-- **Own secrets stay**: from a state without devices and login profiles, over any interleaving of
updates in which none that keeps the secret finds another version or kind than it read, and no other
update of a device is committed between a `DELETE` and its commit, every device with credentials of
its own and every login profile has a secret of its kind in its current version, and no device and
no login profile has one in another version. -/
theorem own_secrets_stay (ssh : SshKeys) (db : Db) (clock : Int) (hdevices : db.devices = ∅)
    (hprofiles : db.profiles = ∅) (es : List (Interleave.Event Flight Outside))
    (w : World Shared Flight)
    (hrun : Run.run (Interleave.step (system ssh)) (World.quiet ⟨db, clock, []⟩) es = some w)
    (hfinds : Run.Meets (Interleave.step (system ssh)) (fun w e => finds w e = true)
      (World.quiet ⟨db, clock, []⟩) es) :
    SignsIn w.shared.db := by
  have hdevice : ∀ id row, db.devices.lookup id ≠ some row := by
    intro id row hrow
    rw [hdevices] at hrow
    cases hrow
  have hprofile : ∀ id row, db.profiles.lookup id ≠ some row := by
    intro id row hrow
    rw [hprofiles] at hrow
    cases hrow
  have h0 : Inv ⟨db, clock, []⟩ := by
    refine ⟨⟨fun id row hrow => absurd hrow (hdevice id row),
      fun id row hrow => absurd hrow (hprofile id row)⟩,
      fun id row hrow => absurd hrow (hdevice id row), fun id hid => ?_⟩
    obtain ⟨row, hrow⟩ := Option.isSome_iff_exists.1 (AList.lookup_isSome.2 hid)
    exact absurd hrow (hdevice id row)
  exact ((invariant ssh).run h0 hfinds hrun).shared.toSignsIn

def noKeys : SshKeys := ⟨fun _ _ _ => .error .invalidKey⟩

/-- A folder for the devices. -/
def rack : Db where
  folders := .collect [(1, { parentId := none, name := "Rack", connectorId := none })]

/-- A device that signs in with a password of its own. -/
def switch (name : String) (password : Option String) : DeviceInput :=
  { folderId := 1, name, protocol := "ssh", host := "switch", port := 22, authMode := "device",
    secrets := { password } }

def root : Caller := ⟨⟨∅, true⟩, 0⟩

/-- The device is there; one request renames it, one gives it another password. -/
def twoRequests : List (Interleave.Event Flight Outside) :=
  [.outside (.createDevice root 7 (switch "switch" (some "old"))),
    .start 0 (.device root.subject 7 (switch "core switch" none)),
    .start 1 (.device root.subject 7 (switch "switch" (some "new")))]

/-- The request renames the device, then the other one gives it a password. -/
theorem own_secrets_stay_in_turn :
    ∃ w, Run.run (Interleave.step (system noKeys)) (World.quiet ⟨rack, 0, []⟩)
        (twoRequests ++ List.replicate 16 (.next 0) ++ List.replicate 16 (.next 1)) = some w ∧
      w.shared.commits = [7, 7] ∧ SignsIn w.shared.db := by
  have hrun : (Run.run (Interleave.step (system noKeys)) (World.quiet ⟨rack, 0, []⟩)
      (twoRequests ++ List.replicate 16 (.next 0) ++ List.replicate 16 (.next 1))).map
        (fun w => w.shared.commits) = some [7, 7] := by decide
  obtain ⟨w, hw, hcommits⟩ := Option.map_eq_some_iff.1 hrun
  have hfinds : Run.Meets (Interleave.step (system noKeys)) (fun w e => finds w e = true)
      (World.quiet ⟨rack, 0, []⟩)
      (twoRequests ++ List.replicate 16 (.next 0) ++ List.replicate 16 (.next 1)) := by
    decide
  exact ⟨w, hw, hcommits, own_secrets_stay noKeys rack 0 rfl rfl _ w hw hfinds⟩

/-- Both requests read the device. The one with the new password is committed, then the one that
keeps the password: the device tells of version 1, and there is no secret left. -/
theorem lost_own_secret :
    ∃ w row, Run.run (Interleave.step (system noKeys)) (World.quiet ⟨rack, 0, []⟩)
        (twoRequests ++ (List.replicate 13 [.next 0, .next 1]).flatten ++
          List.replicate 3 (.next 1) ++ List.replicate 3 (.next 0)) = some w ∧
      w.shared.commits = [7, 7] ∧ w.shared.db.devices.lookup 7 = some row ∧
      row.authMode = .device ∧ row.secretVersion = 1 ∧ w.shared.db.secretFields.keys = [] ∧
      ¬SignsIn w.shared.db := by
  have hrun : (Run.run (Interleave.step (system noKeys)) (World.quiet ⟨rack, 0, []⟩)
      (twoRequests ++ (List.replicate 13 [.next 0, .next 1]).flatten ++
        List.replicate 3 (.next 1) ++ List.replicate 3 (.next 0))).map
        (fun w => (w.shared.commits, (w.shared.db.devices.lookup 7).map
          fun row => (row.authMode, row.secretVersion), w.shared.db.secretFields.keys.length)) =
      some ([7, 7], some (.device, 1), 0) := by decide
  obtain ⟨w, hw, hvalues⟩ := Option.map_eq_some_iff.1 hrun
  simp only [Prod.mk.injEq] at hvalues
  obtain ⟨hcommits, hdevice, hnone⟩ := hvalues
  have hkeys := List.length_eq_zero_iff.1 hnone
  obtain ⟨row, hrow, hown⟩ := Option.map_eq_some_iff.1 hdevice
  simp only [Prod.mk.injEq] at hown
  obtain ⟨hmode, hversion⟩ := hown
  refine ⟨w, row, hw, hcommits, hrow, hmode, hversion, hkeys, fun hsigns => ?_⟩
  have hthere := (hsigns.devices 7 row hrow).there hmode
  rw [AList.lookup_isSome, AList.mem_keys, hkeys] at hthere
  cases hthere

end OwnSecrets

end Server
