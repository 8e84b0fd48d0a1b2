import RemoteHub.Server.Profiles
import RemoteHub.Server.Proof.Queries

/-!
# What a successful request did

One lemma for each request: the rows it left and the checks it passed. A request's checks are
read off its do-block with `bind_eq_ok`; nothing else of the development unfolds one.
-/

namespace Server.Db

open Model Except

variable {db db' : Db} {ssh : SshKeys} {caller : Caller}

/-! ## Secrets -/

/-- The tables of folders, devices and profiles are the same. -/
structure SameTables (db db' : Db) : Prop where
  folders : db'.folders = db.folders
  devices : db'.devices = db.devices
  profiles : db'.profiles = db.profiles

theorem SameTables.trans {db₁ db₂ db₃ : Db} (h : SameTables db₁ db₂) (h' : SameTables db₂ db₃) :
    SameTables db₁ db₃ :=
  ⟨h'.1.trans h.1, h'.2.trans h.2, h'.3.trans h.3⟩

theorem store_ok {owner : Uuid} {version : Int} {field plaintext : String}
    (h : db.store owner version field plaintext = .ok db') : SameTables db db' := by
  obtain ⟨-, -, h⟩ := bind_eq_ok.1 h
  cases h
  exact ⟨rfl, rfl, rfl⟩

theorem sealFields_ok {id : Uuid} {version : Int} {fields : List (String × String)}
    (h : fields.foldlM (fun db field => store db id version field.1 field.2) db = .ok db') :
    SameTables db db' := by
  induction fields generalizing db with
  | nil =>
    cases h
    exact ⟨rfl, rfl, rfl⟩
  | cons field fields ih =>
    obtain ⟨mid, hmid, h⟩ := bind_eq_ok.1 h
    exact (store_ok hmid).trans (ih h)

theorem sealNew_ok {id : Uuid} {version : Int} {secrets : Option Secrets}
    (h : db.sealNew id version secrets = .ok db') : SameTables db db' := by
  cases secrets with
  | none =>
    cases h
    exact ⟨rfl, rfl, rfl⟩
  | some secrets => exact sealFields_ok h

/-! ## Checks -/

theorem fetchOne_eq_ok {ρ : Type} {table : Table ρ} {id : Uuid} {row : ρ} :
    fetchOne table id = .ok row ↔ table.lookup id = some row := by
  unfold fetchOne
  cases table.lookup id <;> simp

/-- What a device's use of a login profile was checked for. -/
structure Uses (db : Db) (folder : Uuid) (protocol : Protocol) (profile : Uuid) :
    Prop where
  home : ∀ home, (db.profiles.lookup profile).bind (·.folderId) = some home →
    Chain.Above db.folderParent folder home
  kind : (db.profiles.lookup profile).map (·.secretKind) = some .sshKey → protocol = .ssh

theorem inReach_ok {profile folder : Uuid} {u : Unit}
    (h : inReach (db.catalog caller.now) profile folder = .ok u) {home : Uuid}
    (hhome : (db.profiles.lookup profile).bind (·.folderId) = some home) :
    Chain.Above db.folderParent folder home := by
  have hnot := refuse_eq_ok.1 h
  rw [parent_profile] at hnot
  by_contra habove
  exact hnot ⟨home, hhome, mt isWithin_iff.1 habove⟩

theorem usesProfile_ok {folder : Uuid} {protocol : Protocol} {redirected : Prop}
    [Decidable redirected] {profile : Uuid} {u : Unit}
    (h : db.usesProfile (db.catalog caller.now) caller.subject folder protocol redirected
      (some profile) = .ok u) :
    (redirected → (db.catalog caller.now).authorize caller.subject .connect (.profile profile)) ∧
      Uses db folder protocol profile := by
  obtain ⟨_, hconnect, h⟩ := bind_eq_ok.1 h
  obtain ⟨_, hreach, hfits⟩ := bind_eq_ok.1 h
  refine ⟨fun hr => require_eq_ok.1 (onlyIf_eq_ok.1 hconnect hr), ⟨?_, ?_⟩⟩
  · intro home hhome
    exact inReach_ok hreach hhome
  · intro hkind
    by_contra hssh
    exact refuse_eq_ok.1 hfits ⟨hkind, hssh⟩

/-- The CHECK on a device's row. -/
theorem checkDevice_ok {id : Uuid} {row : DeviceRow} {u : Unit} (h : db.checkDevice id row = .ok u) :
    (row.authMode = .profile ↔ row.profileId.isSome) ∧ ∀ p ∈ row.profileId, p ∈ db.profiles := by
  obtain ⟨_, hmode, h⟩ := bind_eq_ok.1 h
  obtain ⟨_, -, h⟩ := bind_eq_ok.1 h
  obtain ⟨_, -, h⟩ := bind_eq_ok.1 h
  obtain ⟨_, -, h⟩ := bind_eq_ok.1 h
  obtain ⟨_, -, h⟩ := bind_eq_ok.1 h
  refine ⟨not_not.1 (refuse_eq_ok.1 hmode), fun p hp => ?_⟩
  by_contra hnot
  exact refuse_eq_ok.1 h ⟨p, hp, hnot⟩

/-! ## Devices -/

/-- What a device connects to. -/
def target (db : Db) (row : DeviceRow) : Protocol × String × Int × Option (Option Uuid) :=
  (row.protocol, row.host, row.port, db.reachedThrough row)

theorem createDevice_ok {id : Uuid} {input : DeviceInput}
    (h : db.createDevice ssh caller id input = .ok db') :
    ∃ row, id ∉ db.devices ∧ db'.folders = db.folders ∧ db'.profiles = db.profiles ∧
      db'.devices = db.devices.insert id row ∧ row.pins = {} ∧
      (row.authMode = .profile ↔ row.profileId.isSome) ∧
      ∀ p ∈ row.profileId, p ∈ db.profiles ∧
        (db.catalog caller.now).authorize caller.subject .connect (.profile p) ∧
        Uses db row.folderId row.protocol p := by
  obtain ⟨device, -, h⟩ := bind_eq_ok.1 h
  obtain ⟨_, -, h⟩ := bind_eq_ok.1 h
  obtain ⟨_, huses, h⟩ := bind_eq_ok.1 h
  obtain ⟨_, -, h⟩ := bind_eq_ok.1 h
  obtain ⟨_, -, h⟩ := bind_eq_ok.1 h
  obtain ⟨_, hnew, h⟩ := bind_eq_ok.1 h
  obtain ⟨_, hcheck, h⟩ := bind_eq_ok.1 h
  obtain ⟨hfolders, hdevices, hprofiles⟩ := sealNew_ok h
  obtain ⟨hmode, hexists⟩ := checkDevice_ok hcheck
  refine ⟨_, refuse_eq_ok.1 hnew, hfolders, hprofiles, hdevices, rfl, hmode, ?_⟩
  intro p hp
  rw [show device.profileId = some p from hp] at huses
  obtain ⟨hconnect, huse⟩ := usesProfile_ok huses
  exact ⟨hexists p hp, hconnect trivial, huse⟩

/-- `target_changed` of a change that leaves `row` says that the target of `row` is another. -/
theorem decide_target {before : DeviceRow} {reachedBefore reachedAfter : Option Uuid}
    (row : DeviceRow) (hb : db.reachedThrough before = some reachedBefore)
    (ha : db.reachedThrough row = some reachedAfter) :
    decide (before.protocol ≠ row.protocol ∨ before.host ≠ row.host ∨ before.port ≠ row.port ∨
      reachedBefore ≠ reachedAfter) = true ↔ db.target before ≠ db.target row := by
  unfold target
  rw [hb, ha, decide_eq_true_eq]
  simp only [ne_eq, Prod.mk.injEq, Option.some.injEq, not_and_or]

/-- The pins a change leaves: none behind another target. -/
theorem pins_eq {before row : DeviceRow} {changed : Bool}
    (hchanged : changed = true ↔ db.target before ≠ db.target row)
    (hpins : row.pins = if changed then {} else before.pins) :
    row.pins = if db.target before = db.target row then before.pins else {} := by
  rw [hpins]
  by_cases hsame : db.target before = db.target row
  · rw [if_pos hsame, if_neg (fun hc => hchanged.1 hc hsame)]
  · rw [if_neg hsame, if_pos (hchanged.2 hsame)]

theorem updateDevice_ok {id : Uuid} {input : DeviceInput}
    (h : db.updateDevice ssh caller id input = .ok db') :
    ∃ before row, db.devices.lookup id = some before ∧ db'.folders = db.folders ∧
      db'.profiles = db.profiles ∧ db'.devices = db.devices.insert id row ∧
      row.pins = (if db.target before = db.target row then before.pins else {}) ∧
      (row.authMode = .profile ↔ row.profileId.isSome) ∧
      ∀ p ∈ row.profileId, p ∈ db.profiles ∧
        (before.profileId ≠ some p ∨ db.target before ≠ db.target row →
          (db.catalog caller.now).authorize caller.subject .connect (.profile p)) ∧
        Uses db row.folderId row.protocol p := by
  obtain ⟨device, -, h⟩ := bind_eq_ok.1 h
  obtain ⟨_, -, h⟩ := bind_eq_ok.1 h
  obtain ⟨_, -, h⟩ := bind_eq_ok.1 h
  obtain ⟨before, hbefore, h⟩ := bind_eq_ok.1 h
  obtain ⟨reachedBefore, hrb, h⟩ := bind_eq_ok.1 h
  obtain ⟨_, -, h⟩ := bind_eq_ok.1 h
  obtain ⟨reachedAfter, hra, h⟩ := bind_eq_ok.1 h
  obtain ⟨_, huses, h⟩ := bind_eq_ok.1 h
  obtain ⟨version, -, h⟩ := bind_eq_ok.1 h
  obtain ⟨sealed, hsealed, h⟩ := bind_eq_ok.1 h
  obtain ⟨_, hcheck, h⟩ := bind_eq_ok.1 h
  cases h
  rw [fetchOne_eq_ok] at hbefore
  rw [ends_eq_ok] at hrb hra
  obtain ⟨hfolders, hdevices, hprofiles⟩ := sealNew_ok hsealed
  generalize (device.secrets.map Secrets.keyInfo).getD _ = info at hcheck ⊢
  generalize hchanged : decide (before.protocol ≠ device.protocol ∨ before.host ≠ device.host ∨
    before.port ≠ device.port ∨ reachedBefore ≠ reachedAfter) = changed at huses hcheck ⊢
  have hiff : changed = true ↔ db.target before ≠ db.target (device.apply version info changed before)
    := by
    rw [← decide_target (device.apply version info changed before) hrb hra]
    exact Bool.eq_iff_iff.1 hchanged.symm
  obtain ⟨hmode, hexists⟩ := checkDevice_ok hcheck
  refine ⟨before, device.apply version info changed before, hbefore, hfolders, hprofiles, ?_,
    pins_eq hiff rfl, hmode, ?_⟩
  · show sealed.devices.insert id _ = _
    rw [hdevices]
  · intro p hp
    rw [show device.profileId = some p from hp] at huses
    obtain ⟨hconnect, huse⟩ := usesProfile_ok huses
    refine ⟨?_, ?_, huse⟩
    · have := hexists p hp
      rwa [show (sealed.keepVersion id version).profiles = db.profiles from hprofiles] at this
    · intro hne
      exact hconnect (hne.imp_right hiff.2)

/-! ## Moving a device -/

theorem takesProfile_ok {folder : Uuid} {changed : Bool} {profile : Uuid} {u : Unit}
    (h : takesProfile (db.catalog caller.now) caller.subject folder changed (some profile) = .ok u) :
    (∀ home, (db.profiles.lookup profile).bind (·.folderId) = some home →
        Chain.Above db.folderParent folder home) ∧
      (changed = true →
        (db.catalog caller.now).authorize caller.subject .connect (.profile profile)) := by
  obtain ⟨_, hreach, h⟩ := bind_eq_ok.1 h
  refine ⟨fun home hhome => inReach_ok hreach hhome, fun hc => ?_⟩
  exact require_eq_ok.1 (onlyIf_eq_ok.1 h hc)

/-- A move that changes nothing leaves the state as it is; another one puts the device elsewhere. -/
theorem moveDevice_ok {id folder : Uuid} (h : db.moveDevice caller id folder = .ok db') :
    db' = db ∨ ∃ before row, db.devices.lookup id = some before ∧ db'.folders = db.folders ∧
      db'.profiles = db.profiles ∧ db'.devices = db.devices.insert id row ∧
      row.pins = (if db.target before = db.target row then before.pins else {}) ∧
      row.authMode = before.authMode ∧ row.profileId = before.profileId ∧
      row.protocol = before.protocol ∧
      ∀ p ∈ row.profileId,
        (db.target before ≠ db.target row →
          (db.catalog caller.now).authorize caller.subject .connect (.profile p)) ∧
        ∀ home, (db.profiles.lookup p).bind (·.folderId) = some home →
          Chain.Above db.folderParent row.folderId home := by
  obtain ⟨_, -, h⟩ := bind_eq_ok.1 h
  obtain ⟨_, -, h⟩ := bind_eq_ok.1 h
  split at h
  · cases h
    exact .inl rfl
  · obtain ⟨before, hbefore, h⟩ := bind_eq_ok.1 h
    obtain ⟨reachedBefore, hrb, h⟩ := bind_eq_ok.1 h
    obtain ⟨reachedAfter, hra, h⟩ := bind_eq_ok.1 h
    obtain ⟨_, htakes, h⟩ := bind_eq_ok.1 h
    obtain ⟨_, -, h⟩ := bind_eq_ok.1 h
    obtain ⟨_, -, h⟩ := bind_eq_ok.1 h
    cases h
    rw [fetchOne_eq_ok] at hbefore
    rw [ends_eq_ok] at hrb hra
    generalize hchanged : decide (reachedBefore ≠ reachedAfter) = changed at htakes ⊢
    let row := { before with folderId := folder, pins := if changed then {} else before.pins }
    have hiff : changed = true ↔ db.target before ≠ db.target row := by
      rw [← decide_target row hrb hra, ← hchanged]
      simp [row]
    refine .inr ⟨before, row, hbefore, rfl, rfl, rfl, pins_eq hiff rfl, rfl, rfl, rfl, ?_⟩
    intro p hp
    rw [show before.profileId = some p from hp] at htakes
    obtain ⟨hhome, hconnect⟩ := takesProfile_ok htakes
    exact ⟨fun hne => hconnect (hiff.2 hne), hhome⟩

/-! ## Folders -/

theorem createFolder_ok {id : Uuid} {input : NewFolder}
    (h : db.createFolder caller id input = .ok db') :
    ∃ row, id ∉ db.folders ∧ db' = { db with folders := db.folders.insert id row } := by
  obtain ⟨_, -, h⟩ := bind_eq_ok.1 h
  obtain ⟨_, -, h⟩ := bind_eq_ok.1 h
  obtain ⟨_, -, h⟩ := bind_eq_ok.1 h
  obtain ⟨_, hnew, h⟩ := bind_eq_ok.1 h
  obtain ⟨_, -, h⟩ := bind_eq_ok.1 h
  cases h
  exact ⟨_, refuse_eq_ok.1 hnew, rfl⟩

theorem requireMove_ok {id parent : Uuid} {u : Unit}
    (h : requireMove (db.catalog caller.now) caller.subject id (some (some parent)) = .ok u) :
    ¬Chain.Above db.folderParent parent id := by
  obtain ⟨_, -, h⟩ := bind_eq_ok.1 h
  intro habove
  exact refuse_eq_ok.1 h ⟨parent, rfl, isWithin_iff.2 habove⟩

/-- The state after the `UPDATE` of `update_folder`, before the pins go. -/
def withFolder (db : Db) (id : Uuid) (row : FolderRow) : Db :=
  { db with folders := db.folders.insert id row }

theorem updateFolder_ok {id : Uuid} {input : FolderChange}
    (h : db.updateFolder caller id input = .ok db') :
    ∃ old row before after, db.folders.lookup id = some old ∧
      row.parentId = input.parentId.getD old.parentId ∧
      (∀ parent, input.parentId = some (some parent) → ¬Chain.Above db.folderParent parent id) ∧
      db.devicesBelow id = .ok before ∧ (db.withFolder id row).devicesBelow id = .ok after ∧
      (∀ device ∈ retargeted before after, ∀ profile ∈ device.profileId,
        (db.catalog caller.now).authorize caller.subject .connect (.profile profile)) ∧
      (db.withFolder id row).outOfReach = [] ∧
      db' = (db.withFolder id row).forgetPins ((retargeted before after).map (·.id)) := by
  obtain ⟨_, -, h⟩ := bind_eq_ok.1 h
  obtain ⟨name, -, h⟩ := bind_eq_ok.1 h
  obtain ⟨_, hmove, h⟩ := bind_eq_ok.1 h
  obtain ⟨_, -, h⟩ := bind_eq_ok.1 h
  obtain ⟨before, hbefore, h⟩ := bind_eq_ok.1 h
  obtain ⟨old, hold, h⟩ := bind_eq_ok.1 h
  obtain ⟨_, -, h⟩ := bind_eq_ok.1 h
  obtain ⟨after, hafter, h⟩ := bind_eq_ok.1 h
  obtain ⟨_, hrefused, h⟩ := bind_eq_ok.1 h
  obtain ⟨_, hreach, h⟩ := bind_eq_ok.1 h
  cases h
  refine ⟨old, input.apply name old, before, after, fetchOne_eq_ok.1 hold, rfl, ?_, hbefore, hafter,
    ?_, not_not.1 (refuse_eq_ok.1 hreach), rfl⟩
  · intro parent hparent
    rw [hparent] at hmove
    exact requireMove_ok hmove
  · intro device hdevice profile hprofile
    have hnone := not_not.1 (refuse_eq_ok.1 hrefused)
    rw [List.filter_eq_nil_iff] at hnone
    have hok := hnone device hdevice
    rw [hprofile] at hok
    simp only [Option.any_some, Bool.not_eq_true', Bool.not_eq_false] at hok
    cases hreq : require (db.catalog caller.now) caller.subject .connect (.profile profile) with
    | error e => simp [hreq, Except.isOk, Except.toBool] at hok
    | ok u => exact require_eq_ok.1 hreq

theorem deleteFolder_ok {id : Uuid} (h : db.deleteFolder caller id = .ok db') :
    db'.folders = db.folders.erase id ∧ db'.devices = db.devices ∧ db'.profiles = db.profiles ∧
      (∀ x, db.folderParent x ≠ some id) ∧
      (∀ d row, db.devices.lookup d = some row → row.folderId ≠ id) := by
  obtain ⟨_, -, h⟩ := bind_eq_ok.1 h
  obtain ⟨_, hempty, h⟩ := bind_eq_ok.1 h
  cases h
  have hempty := refuse_eq_ok.1 hempty
  refine ⟨rfl, rfl, rfl, ?_, ?_⟩
  · intro x hx
    obtain ⟨row, hrow, hp⟩ := Option.bind_eq_some_iff.1 hx
    exact hempty (.inl ⟨⟨x, row⟩, HashMap.lookup_eq_some.1 hrow, hp⟩)
  · intro d row hd hf
    exact hempty (.inr (.inl ⟨⟨d, row⟩, HashMap.lookup_eq_some.1 hd, hf⟩))

theorem deleteDevice_ok {id : Uuid} (h : db.deleteDevice caller id = .ok db') :
    db'.folders = db.folders ∧ db'.devices = db.devices.erase id ∧ db'.profiles = db.profiles := by
  obtain ⟨_, -, h⟩ := bind_eq_ok.1 h
  cases h
  exact ⟨rfl, rfl, rfl⟩

/-! ## Login profiles -/

theorem createProfile_ok {id : Uuid} {input : ProfileInput}
    (h : db.createProfile ssh caller id input = .ok db') :
    ∃ row, id ∉ db.profiles ∧ db'.folders = db.folders ∧ db'.devices = db.devices ∧
      db'.profiles = db.profiles.insert id row := by
  obtain ⟨_, -, h⟩ := bind_eq_ok.1 h
  obtain ⟨_, -, h⟩ := bind_eq_ok.1 h
  obtain ⟨_, -, h⟩ := bind_eq_ok.1 h
  obtain ⟨_, -, h⟩ := bind_eq_ok.1 h
  obtain ⟨_, -, h⟩ := bind_eq_ok.1 h
  obtain ⟨secrets, -, h⟩ := bind_eq_ok.1 h
  obtain ⟨_, -, h⟩ := bind_eq_ok.1 h
  obtain ⟨_, hnew, h⟩ := bind_eq_ok.1 h
  obtain ⟨_, -, h⟩ := bind_eq_ok.1 h
  obtain ⟨hfolders, hdevices, hprofiles⟩ := sealFields_ok h
  exact ⟨_, refuse_eq_ok.1 hnew, hfolders, hdevices, hprofiles⟩

theorem deviceNames_eq_nil {p : DeviceRow → Bool} :
    db.deviceNames p = [] ↔ ∀ d row, db.devices.lookup d = some row → p row = false := by
  unfold deviceNames byLowerName
  rw [← List.length_eq_zero_iff, List.length_mergeSort, List.length_eq_zero_iff,
    List.map_eq_nil_iff, List.filter_eq_nil_iff]
  constructor
  · intro h d row hd
    exact Bool.eq_false_of_not_eq_true (h ⟨d, row⟩ (HashMap.lookup_eq_some.1 hd))
  · rintro h ⟨d, row⟩ hmem hp
    rw [h d row (HashMap.lookup_eq_some.2 hmem)] at hp
    cases hp

theorem outOfReach_eq_nil (h : db.outOfReach = []) {d p home : Uuid} {row : DeviceRow}
    {profile : ProfileRow} (hd : db.devices.lookup d = some row) (hp : row.profileId = some p)
    (hprofile : db.profiles.lookup p = some profile) (hhome : profile.folderId = some home) :
    Chain.Above db.folderParent row.folderId home := by
  have hrow := deviceNames_eq_nil.1 h d row hd
  simp only [hp, Option.bind_some, hprofile, Option.any_some, hhome, Bool.not_eq_false'] at hrow
  exact above_of_folderWithin hrow

theorem updateProfile_ok {id : Uuid} {input : ProfileInput}
    (h : db.updateProfile ssh caller id input = .ok db') :
    ∃ row, db'.folders = db.folders ∧ db'.devices = db.devices ∧
      db'.profiles = db.profiles.insert id row ∧ db'.outOfReach = [] ∧
      (row.secretKind = .sshKey → ∀ d device, db.devices.lookup d = some device →
        device.profileId = some id → device.protocol = .ssh) := by
  obtain ⟨name, -, h⟩ := bind_eq_ok.1 h
  obtain ⟨username, -, h⟩ := bind_eq_ok.1 h
  obtain ⟨domain, -, h⟩ := bind_eq_ok.1 h
  obtain ⟨kind, -, h⟩ := bind_eq_ok.1 h
  obtain ⟨secrets, -, h⟩ := bind_eq_ok.1 h
  obtain ⟨_, -, h⟩ := bind_eq_ok.1 h
  obtain ⟨_, -, h⟩ := bind_eq_ok.1 h
  obtain ⟨before, -, h⟩ := bind_eq_ok.1 h
  obtain ⟨_, -, h⟩ := bind_eq_ok.1 h
  obtain ⟨_, -, h⟩ := bind_eq_ok.1 h
  obtain ⟨sealed, hsealed, h⟩ := bind_eq_ok.1 h
  obtain ⟨_, hmisfits, h⟩ := bind_eq_ok.1 h
  obtain ⟨_, hreach, h⟩ := bind_eq_ok.1 h
  cases h
  generalize hkept : (if secrets.isSome = true then _ else sealed) = kept at hmisfits hreach ⊢
  have hsame : SameTables sealed kept := by
    rw [← hkept]
    split <;> exact ⟨rfl, rfl, rfl⟩
  obtain ⟨hfolders, hdevices, hprofiles⟩ := (sealNew_ok hsealed).trans hsame
  refine ⟨_, hfolders, hdevices, hprofiles, not_not.1 (refuse_eq_ok.1 hreach), ?_⟩
  intro hkind d device hd hp
  by_contra hssh
  refine refuse_eq_ok.1 hmisfits ⟨hkind, fun hnone => ?_⟩
  rw [← hdevices] at hd
  have := deviceNames_eq_nil.1 hnone d device hd
  simp [hp, hssh] at this

theorem deleteProfile_ok {id : Uuid} (h : db.deleteProfile caller id = .ok db') :
    db'.folders = db.folders ∧ db'.devices = db.devices ∧ db'.profiles = db.profiles.erase id ∧
      ∀ d row, db.devices.lookup d = some row → row.profileId ≠ some id := by
  obtain ⟨_, -, h⟩ := bind_eq_ok.1 h
  obtain ⟨_, husers, h⟩ := bind_eq_ok.1 h
  cases h
  refine ⟨rfl, rfl, rfl, fun d row hd hp => ?_⟩
  have := deviceNames_eq_nil.1 (not_not.1 (refuse_eq_ok.1 husers)) d row hd
  simp [hp] at this

end Server.Db
