import RemoteHub.Server.Proof.Retarget

/-!
# Login profiles are in reach

`Reach db`: a device has a login profile exactly in the mode `profile`; the profile exists, lies at
the top level, in the device's folder or above it, and holds a key only for SSH. Every request keeps
it (`Reach.run`), also for the devices it does not name, so it holds after any requests one after
the other (`reach_after_requests`).
-/

namespace Server.Db

open Model Except

variable {db db' : Db}

/-- The device and its login profile fit. -/
structure ProfileInReach (db : Db) (device : DeviceRow) : Prop where
  mode : device.authMode = .profile ↔ device.profileId.isSome
  profile : ∀ p, device.profileId = some p → ∃ profile, db.profiles.lookup p = some profile ∧
    (∀ home, profile.folderId = some home → Chain.Above db.folderParent device.folderId home) ∧
    (profile.secretKind = .sshKey → device.protocol = .ssh)

def Reach (db : Db) : Prop :=
  ∀ d device, db.devices.lookup d = some device → ProfileInReach db device

/-! ## One device -/

/-- The profile's row and the way up are what counts. -/
theorem ProfileInReach.congr {device : DeviceRow} (h : ProfileInReach db device)
    (hprofiles : ∀ p, device.profileId = some p → db'.profiles.lookup p = db.profiles.lookup p)
    (habove : ∀ home, Chain.Above db.folderParent device.folderId home →
      Chain.Above db'.folderParent device.folderId home) : ProfileInReach db' device where
  mode := h.mode
  profile := by
    intro p hp
    obtain ⟨profile, hprofile, hhome, hkind⟩ := h.profile p hp
    exact ⟨profile, by rw [hprofiles p hp, hprofile], fun home hh => habove home (hhome home hh),
      hkind⟩

theorem folderParent_congr (hfolders : db'.folders = db.folders) :
    db'.folderParent = db.folderParent := by
  unfold folderParent
  rw [hfolders]

theorem Reach.congr (h : Reach db) (hfolders : db'.folders = db.folders)
    (hprofiles : db'.profiles = db.profiles) {d : Uuid} {device : DeviceRow}
    (hd : db.devices.lookup d = some device) : ProfileInReach db' device := by
  refine (h d device hd).congr ?_ ?_
  · intro p _
    rw [hprofiles]
  · intro home hh
    rwa [folderParent_congr hfolders]

/-- What a device's row was checked for when it was written. -/
theorem ProfileInReach.of_checks {device : DeviceRow}
    (hmode : device.authMode = .profile ↔ device.profileId.isSome)
    (huses : ∀ p ∈ device.profileId, p ∈ db.profiles ∧
      Uses db device.folderId device.protocol p) : ProfileInReach db device where
  mode := hmode
  profile := by
    intro p hp
    obtain ⟨hmem, huse⟩ := huses p hp
    obtain ⟨profile, hprofile⟩ := Option.isSome_iff_exists.1 (AList.lookup_isSome.2 hmem)
    refine ⟨profile, hprofile, ?_, ?_⟩
    · intro home hhome
      refine huse.home home ?_
      rw [hprofile]
      exact hhome
    · intro hkind
      refine huse.kind ?_
      rw [hprofile, Option.map_some, hkind]

/-- A request that writes one device keeps the others in reach. -/
theorem Reach.of_insert (h : Reach db) (hfolders : db'.folders = db.folders)
    (hprofiles : db'.profiles = db.profiles) {id : Uuid} {row : DeviceRow}
    (hdevices : db'.devices = db.devices.insert id row) (hrow : ProfileInReach db row) :
    Reach db' := by
  intro d device hd
  rw [hdevices, HashMap.lookup_insert_eq] at hd
  split at hd
  · cases hd
    refine hrow.congr ?_ ?_
    · intro p _
      rw [hprofiles]
    · intro home hh
      rwa [folderParent_congr hfolders]
  · exact h.congr hfolders hprofiles hd

/-! ## The requests -/

variable {ssh : SshKeys} {caller : Caller}

theorem Reach.createDevice (h : Reach db) {id : Uuid} {input : DeviceInput}
    (hrun : db.createDevice ssh caller id input = .ok db') : Reach db' := by
  obtain ⟨row, -, hfolders, hprofiles, hdevices, -, hmode, huses⟩ := createDevice_ok hrun
  refine h.of_insert hfolders hprofiles hdevices (.of_checks hmode ?_)
  intro p hp
  exact ⟨(huses p hp).1, (huses p hp).2.2⟩

theorem Reach.updateDevice (h : Reach db) {id : Uuid} {input : DeviceInput}
    (hrun : db.updateDevice ssh caller id input = .ok db') : Reach db' := by
  obtain ⟨before, row, -, hfolders, hprofiles, hdevices, -, hmode, huses⟩ := updateDevice_ok hrun
  refine h.of_insert hfolders hprofiles hdevices (.of_checks hmode ?_)
  intro p hp
  exact ⟨(huses p hp).1, (huses p hp).2.2⟩

theorem Reach.moveDevice (h : Reach db) {id folder : Uuid}
    (hrun : db.moveDevice caller id folder = .ok db') : Reach db' := by
  rcases moveDevice_ok hrun with rfl | hrun
  · exact h
  · obtain ⟨before, row, hbefore, hfolders, hprofiles, hdevices, -, hmode, hprofile, hprotocol,
      hhomes⟩ := hrun
    have hold := h id before hbefore
    refine h.of_insert hfolders hprofiles hdevices ⟨?_, ?_⟩
    · rw [hmode, hprofile]
      exact hold.mode
    · intro p hp
      obtain ⟨profile, hlookup, -, hkind⟩ := hold.profile p (hprofile ▸ hp)
      refine ⟨profile, hlookup, ?_, ?_⟩
      · intro home hhome
        refine (hhomes p hp).2 home ?_
        rw [hlookup]
        exact hhome
      · intro hk
        rw [hprotocol]
        exact hkind hk

theorem Reach.deleteDevice (h : Reach db) {id : Uuid}
    (hrun : db.deleteDevice caller id = .ok db') : Reach db' := by
  obtain ⟨hfolders, hdevices, hprofiles⟩ := deleteDevice_ok hrun
  intro d device hd
  rw [hdevices] at hd
  exact h.congr hfolders hprofiles (HashMap.of_lookup_erase hd).2

/-- A new folder is on no device's way up. -/
theorem Reach.createFolder (h : Reach db) {id : Uuid} {input : NewFolder}
    (hrun : db.createFolder caller id input = .ok db') : Reach db' := by
  obtain ⟨row, hnew, rfl⟩ := createFolder_ok hrun
  intro d device hd
  refine (h d device hd).congr (fun _ _ => rfl) ?_
  intro home hh
  refine hh.mono fun x y hxy => ?_
  show (db.withFolder id row).folderParent x = some y
  rw [folderParent_withFolder]
  split
  · rename_i hx
    subst hx
    unfold folderParent at hxy
    rw [AList.lookup_eq_none.2 hnew] at hxy
    cases hxy
  · exact hxy

/-- A moved folder may take devices out of reach: `out_of_reach` reads them all. -/
theorem Reach.updateFolder (h : Reach db) {id : Uuid} {input : FolderChange}
    (hrun : db.updateFolder caller id input = .ok db') : Reach db' := by
  obtain ⟨old, row, before, after, -, -, -, -, -, -, hreach, rfl⟩ := updateFolder_ok hrun
  generalize (retargeted before after).map (·.id) = ids
  have hmoved : ∀ d device, db.devices.lookup d = some device →
      ProfileInReach (db.withFolder id row) device := by
    intro d device hd
    refine ⟨(h d device hd).mode, fun p hp => ?_⟩
    obtain ⟨profile, hprofile, -, hkind⟩ := (h d device hd).profile p hp
    refine ⟨profile, hprofile, fun home hhome => ?_, hkind⟩
    exact outOfReach_eq_nil hreach (d := d) hd hp hprofile hhome
  intro d device hd
  rw [lookup_forgetPins, Option.map_eq_some_iff] at hd
  obtain ⟨before, hd, rfl⟩ := hd
  have hold := hmoved d before hd
  -- the pins are no part of it
  split
  · exact ⟨hold.mode, hold.profile⟩
  · exact ⟨hold.mode, hold.profile⟩

/-- A deleted folder was on no device's way up. -/
theorem Reach.deleteFolder (h : Reach db) {id : Uuid}
    (hrun : db.deleteFolder caller id = .ok db') : Reach db' := by
  obtain ⟨hfolders, hdevices, hprofiles, hnoFolder, hnoDevice⟩ := deleteFolder_ok hrun
  intro d device hd
  rw [hdevices] at hd
  refine (h d device hd).congr (fun p _ => by rw [hprofiles]) ?_
  intro home hh
  refine hh.congr (P := (· ≠ id)) ?_ ?_ (hnoDevice d device hd)
  · intro x y _ hxy hy
    exact hnoFolder x (hy ▸ hxy)
  · intro x hx
    unfold folderParent
    rw [hfolders, AList.lookup_erase_ne hx]

theorem Reach.createProfile (h : Reach db) {id : Uuid} {input : ProfileInput}
    (hrun : db.createProfile ssh caller id input = .ok db') : Reach db' := by
  obtain ⟨row, hnew, hfolders, hdevices, hprofiles⟩ := createProfile_ok hrun
  intro d device hd
  rw [hdevices] at hd
  refine (h d device hd).congr ?_ ?_
  · intro p hp
    obtain ⟨profile, hprofile, -⟩ := (h d device hd).profile p hp
    rw [hprofiles, HashMap.lookup_insert_eq, if_neg]
    rintro rfl
    rw [AList.lookup_eq_none.2 hnew] at hprofile
    cases hprofile
  · intro home hh
    rwa [folderParent_congr hfolders]

/-- A changed profile may be out of reach of its devices or hold a key they cannot use. -/
theorem Reach.updateProfile (h : Reach db) {id : Uuid} {input : ProfileInput}
    (hrun : db.updateProfile ssh caller id input = .ok db') : Reach db' := by
  obtain ⟨row, hfolders, hdevices, hprofiles, hreach, hssh⟩ := updateProfile_ok hrun
  intro d device hd
  have hd' := hd
  rw [hdevices] at hd'
  refine ⟨(h d device hd').mode, fun p hp => ?_⟩
  by_cases hid : p = id
  · subst hid
    have hlookup : db'.profiles.lookup p = some row := by
      rw [hprofiles]
      exact AList.lookup_insert _
    exact ⟨row, hlookup, fun home hhome => outOfReach_eq_nil hreach hd hp hlookup hhome,
      fun hk => hssh hk d device hd' hp⟩
  · obtain ⟨profile, hprofile, hhome, hkind⟩ := (h d device hd').profile p hp
    refine ⟨profile, ?_, ?_, hkind⟩
    · rw [hprofiles, HashMap.lookup_insert_eq, if_neg hid, hprofile]
    · rw [folderParent_congr hfolders]
      exact hhome

theorem Reach.deleteProfile (h : Reach db) {id : Uuid}
    (hrun : db.deleteProfile caller id = .ok db') : Reach db' := by
  obtain ⟨hfolders, hdevices, hprofiles, hunused⟩ := deleteProfile_ok hrun
  intro d device hd
  rw [hdevices] at hd
  refine (h d device hd).congr ?_ ?_
  · intro p hp
    rw [hprofiles, AList.lookup_erase_ne]
    rintro rfl
    exact hunused d device hd hp
  · intro home hh
    rwa [folderParent_congr hfolders]

/-! ## One after the other -/

/-- **Every request keeps the login profiles in reach.** -/
theorem Reach.run (h : Reach db) {r : Request} (hrun : r.run ssh db caller = .ok db') :
    Reach db' := by
  cases r with
  | createFolder id input => exact h.createFolder hrun
  | updateFolder id input => exact h.updateFolder hrun
  | deleteFolder id => exact h.deleteFolder hrun
  | createDevice id input => exact h.createDevice hrun
  | updateDevice id input => exact h.updateDevice hrun
  | moveDevice id folder => exact h.moveDevice hrun
  | deleteDevice id => exact h.deleteDevice hrun
  | createProfile id input => exact h.createProfile hrun
  | updateProfile id input => exact h.updateProfile hrun
  | deleteProfile id => exact h.deleteProfile hrun

theorem handle_ok {r : Request} (hrun : r.run ssh db caller = .ok db') :
    db.handle ssh (.request caller r) = db' := by
  simp only [handle, hrun]

theorem handle_error {r : Request} {e : Failure} (hrun : r.run ssh db caller = .error e) :
    db.handle ssh (.request caller r) = db := by
  simp only [handle, hrun]

theorem Reach.event (h : Reach db) (e : Event) : Reach (db.handle ssh e) := by
  cases e with
  | request caller r =>
    cases hrun : r.run ssh db caller with
    | ok db' =>
      rw [handle_ok hrun]
      exact h.run hrun
    | error e =>
      rw [handle_error hrun]
      exact h
  | elsewhere grants connectors collections credentials =>
    intro d device hd
    exact (h d device hd).congr (fun _ _ => rfl) fun _ hh => hh

theorem Reach.events (h : Reach db) (events : List Event) :
    Reach (events.foldl (handle ssh) db) := by
  induction events generalizing db with
  | nil => exact h
  | cons e events ih => exact ih (h.event e)

/-- **Login profiles stay in reach**, whatever requests came one after the other; the next one either
keeps them in reach or is refused, and then no row changes. -/
theorem reach_after_requests (ssh : SshKeys) (events : List Event) (caller : Caller) (r : Request) :
    Reach (events.foldl (handle ssh) {}) ∧
      ((∃ db', r.run ssh (events.foldl (handle ssh) {}) caller = .ok db' ∧ Reach db' ∧
          handle ssh (events.foldl (handle ssh) {}) (.request caller r) = db') ∨
        (∃ e, r.run ssh (events.foldl (handle ssh) {}) caller = .error e ∧
          handle ssh (events.foldl (handle ssh) {}) (.request caller r) =
            events.foldl (handle ssh) {})) := by
  have hempty : Reach {} := by
    intro d device hd
    cases hd
  have hreach : Reach (events.foldl (handle ssh) {}) := hempty.events events
  refine ⟨hreach, ?_⟩
  cases hrun : r.run ssh (events.foldl (handle ssh) {}) caller with
  | ok db' => exact .inl ⟨db', rfl, hreach.run hrun, handle_ok hrun⟩
  | error e => exact .inr ⟨e, rfl, handle_error hrun⟩

example :
    let admin : Caller := ⟨⟨∅, true⟩, 0⟩
    let events : List Event := [
      .request admin (.createFolder 1 { parentId := none, name := "Rack" }),
      .request admin (.createProfile 2
        { folderId := some 1, name := "root", secrets := { password := some "secret" } }),
      .request admin (.createDevice 3
        { folderId := 1, name := "web", protocol := "ssh", host := "web.local", port := 22,
          authMode := "profile", profileId := some 2 })]
    ((events.foldl (handle ⟨fun _ _ _ => .error .invalidKey⟩) {}).devices.lookup 3).map
      (·.profileId) = some (some 2) := by decide

end Server.Db
