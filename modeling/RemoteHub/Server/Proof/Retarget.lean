import RemoteHub.Server.Proof.Requests

/-!
# Login profiles are not redirected

A device's target is its protocol, host and port and the connector it is reached through
(`Db.target`). `update_folder` finds the devices that are reached through another connector by
comparing two recursive queries; `mem_retargeted` shows that it finds exactly the devices whose
target changed, however far below the folder they are.

`profile_not_redirected`: whoever creates a device with a login profile, links another one to it or
gives it another target holds Connect on the profile; and the pins of a device go exactly with its
target.
-/

namespace Server

open Model Except

/-- The requests that can give a device another target. -/
def Request.mayRetarget : Request → Bool
  | .createDevice .. | .updateDevice .. | .moveDevice .. | .updateFolder .. => true
  | _ => false

namespace Db

variable {db db' : Db}

/-! ## One folder's row -/

theorem folderParent_withFolder {id : Uuid} {row : FolderRow} (x : Uuid) :
    (db.withFolder id row).folderParent x =
      if x = id then row.parentId else db.folderParent x := by
  unfold folderParent withFolder
  rw [HashMap.lookup_insert_eq]
  split <;> rfl

theorem lookup_withFolder {id : Uuid} {row : FolderRow} {x : Uuid} (hx : x ≠ id) :
    db.folders.lookup x = (db.withFolder id row).folders.lookup x := by
  unfold withFolder
  rw [HashMap.lookup_insert_eq, if_neg hx]

theorem folderRounds_withFolder {id : Uuid} {row : FolderRow} (hid : id ∈ db.folders) :
    db.folderRounds = (db.withFolder id row).folderRounds := by
  unfold folderRounds withFolder
  rw [HashMap.length_keys_insert hid]

/-- The folders below are the same after the change. -/
theorem above_withFolder {id x : Uuid} {row : FolderRow} :
    Chain.Above (db.withFolder id row).folderParent x id ↔ Chain.Above db.folderParent x id := by
  have hagree : ∀ y, y ≠ id → (db.withFolder id row).folderParent y = db.folderParent y := by
    intro y hy
    rw [folderParent_withFolder, if_neg hy]
  exact ⟨Chain.Above.of_agree hagree, Chain.Above.of_agree fun y hy => (hagree y hy).symm⟩

/-- A device that is not below the folder is reached as before. -/
theorem reachedThrough_withFolder {id : Uuid} {row : FolderRow} {d : DeviceRow}
    (hid : id ∈ db.folders) (hnot : ¬Chain.Above db.folderParent d.folderId id) :
    db.reachedThrough d = (db.withFolder id row).reachedThrough d := by
  unfold reachedThrough deviceConnector
  cases d.connectorMode with
  | inherit =>
    exact folderConnector_congr (fun y hy => lookup_withFolder hy) (folderRounds_withFolder hid) hnot
  | direct => rfl
  | connector => rfl

/-! ## Devices below a folder -/

/-- A device below the folder is listed with the connector it is reached through. -/
theorem exists_of_devicesBelow {folder d : Uuid} {list : List Reached} {row : DeviceRow}
    (h : db.devicesBelow folder = .ok list) (hfolder : folder ∈ db.folders)
    (hd : db.devices.lookup d = some row) (habove : Chain.Above db.folderParent row.folderId folder) :
    ∃ c, db.reachedThrough row = some c ∧ ⟨d, row.name, row.profileId, c⟩ ∈ list := by
  obtain ⟨below, hbelow, h⟩ := bind_eq_ok.1 h
  rw [ends_eq_ok] at hbelow
  have hmem : (⟨d, row⟩ : Sigma fun _ => DeviceRow) ∈
      db.devices.entries.filter (·.2.folderId ∈ below) := by
    rw [List.mem_filter, decide_eq_true_eq, mem_foldersBelow hbelow]
    exact ⟨HashMap.lookup_eq_some.1 hd, hfolder, habove⟩
  obtain ⟨r, hr, hrow⟩ := exists_of_mem_mapM h hmem
  obtain ⟨c, hc, hrow⟩ := bind_eq_ok.1 hrow
  cases hrow
  exact ⟨c, ends_eq_ok.1 hc, hr⟩

/-- What is listed is a device with its row's values. -/
theorem row_of_devicesBelow {folder : Uuid} {list : List Reached}
    (h : db.devicesBelow folder = .ok list) {r : Reached} (hr : r ∈ list) :
    ∃ row, db.devices.lookup r.id = some row ∧ r.profileId = row.profileId ∧
      db.reachedThrough row = some r.reachedThrough := by
  obtain ⟨below, -, h⟩ := bind_eq_ok.1 h
  obtain ⟨⟨d, row⟩, hmem, hrow⟩ := (mem_mapM h).1 hr
  obtain ⟨c, hc, hrow⟩ := bind_eq_ok.1 hrow
  cases hrow
  exact ⟨row, HashMap.lookup_eq_some.2 (List.mem_filter.1 hmem).1, rfl, ends_eq_ok.1 hc⟩

/-- **`update_folder` finds every device it retargets**, and no other. -/
theorem mem_retargeted {id d : Uuid} {row : FolderRow} {before after : List Reached}
    {device : DeviceRow} (hid : id ∈ db.folders) (hbefore : db.devicesBelow id = .ok before)
    (hafter : (db.withFolder id row).devicesBelow id = .ok after)
    (hd : db.devices.lookup d = some device) :
    d ∈ (retargeted before after).map (·.id) ↔
      db.target device ≠ (db.withFolder id row).target device := by
  have htarget : db.target device ≠ (db.withFolder id row).target device ↔
      db.reachedThrough device ≠ (db.withFolder id row).reachedThrough device := by
    simp [target]
  rw [htarget]
  constructor
  · intro h
    obtain ⟨now, hnow, rfl⟩ := List.mem_map.1 h
    unfold retargeted at hnow
    rw [List.mem_filter, List.any_eq_true] at hnow
    obtain ⟨hnow, was, hwas, hdiff⟩ := hnow
    rw [Bool.and_eq_true, decide_eq_true_eq, decide_eq_true_eq] at hdiff
    obtain ⟨wasRow, hwasRow, -, hwasThrough⟩ := row_of_devicesBelow hbefore hwas
    obtain ⟨nowRow, hnowRow, -, hnowThrough⟩ := row_of_devicesBelow hafter hnow
    rw [hdiff.1, hd] at hwasRow
    rw [show (db.withFolder id row).devices.lookup now.id = some device from hd] at hnowRow
    cases hwasRow
    cases hnowRow
    rw [hwasThrough, hnowThrough]
    simpa using hdiff.2
  · intro hne
    -- a device reached otherwise than before is below the folder, before and after
    have habove : Chain.Above db.folderParent device.folderId id := by
      by_contra hnot
      exact hne (reachedThrough_withFolder hid hnot)
    have hid' : id ∈ (db.withFolder id row).folders := by
      unfold withFolder
      simp [AList.mem_insert]
    obtain ⟨c, hc, hwas⟩ := exists_of_devicesBelow hbefore hid hd habove
    obtain ⟨c', hc', hnow⟩ := exists_of_devicesBelow hafter hid' hd (above_withFolder.2 habove)
    refine List.mem_map.2 ⟨⟨d, device.name, device.profileId, c'⟩, ?_, rfl⟩
    unfold retargeted
    rw [List.mem_filter, List.any_eq_true]
    refine ⟨hnow, _, hwas, ?_⟩
    rw [hc, hc'] at hne
    simpa using hne

theorem lookup_forgetPins (ids : List Uuid) (d : Uuid) :
    (db.forgetPins ids).devices.lookup d =
      (db.devices.lookup d).map fun row => if d ∈ ids then { row with pins := {} } else row := by
  unfold forgetPins
  show (ids.foldl _ db.devices).lookup d = _
  generalize db.devices = t
  induction ids generalizing t with
  | nil => simp
  | cons id ids ih =>
    rw [List.foldl_cons, ih, HashMap.lookup_modify]
    by_cases hd : d = id
    · subst hd
      cases t.lookup d <;> simp
    · simp [hd]

/-! ## The requests -/

theorem target_congr (hfolders : db'.folders = db.folders) (row : DeviceRow) :
    db'.target row = db.target row := by
  have hconnector : ∀ n x, db'.folderConnectorFrom n x = db.folderConnectorFrom n x := by
    intro n x
    refine folderConnectorFrom_congr (P := fun _ => True) ?_ ?_ ?_
    · intro y _
      rw [hfolders]
    · intro _ _ _ _
      trivial
    · intro _ _
      trivial
  unfold target reachedThrough deviceConnector folderConnector folderRounds
  rw [hfolders]
  cases row.connectorMode with
  | inherit => simp only [hconnector]
  | direct => rfl
  | connector => rfl

/-- What a request that leads from `db` to `db'` owes the login profiles and the pins. -/
structure NotRedirected (caller : Caller) (db db' : Db) : Prop where
  /-- Who made a device with a login profile, linked it or gave the device another target may use
  the profile. -/
  connect : ∀ d row' profile, db'.devices.lookup d = some row' → row'.profileId = some profile →
    (∀ row, db.devices.lookup d = some row →
      row.profileId ≠ some profile ∨ db.target row ≠ db'.target row') →
    (db.catalog caller.now).authorize caller.subject .connect (.profile profile) = true
  /-- A device keeps its pins exactly as long as it keeps its target. -/
  pins : ∀ d row, db.devices.lookup d = some row → ∃ row', db'.devices.lookup d = some row' ∧
    row'.pins = if db.target row = db'.target row' then row.pins else {}
  /-- A device starts without pins. -/
  fresh : ∀ d row', d ∉ db.devices → db'.devices.lookup d = some row' → row'.pins = {}

/-- A request that writes one device. -/
theorem NotRedirected.of_insert {caller : Caller} {id : Uuid} {row : DeviceRow}
    (hfolders : db'.folders = db.folders) (hdevices : db'.devices = db.devices.insert id row)
    (hconnect : ∀ p ∈ row.profileId,
      (∀ before, db.devices.lookup id = some before →
        before.profileId ≠ some p ∨ db.target before ≠ db.target row) →
      (db.catalog caller.now).authorize caller.subject .connect (.profile p) = true)
    (hpins : ∀ before, db.devices.lookup id = some before →
      row.pins = if db.target before = db.target row then before.pins else {})
    (hfresh : id ∉ db.devices → row.pins = {}) : NotRedirected caller db db' where
  connect := by
    intro d row' profile hd hp hredirects
    rw [hdevices, HashMap.lookup_insert_eq] at hd
    split at hd
    · rename_i hid
      subst hid
      cases hd
      refine hconnect profile hp fun before hbefore => ?_
      rw [← target_congr hfolders row]
      exact hredirects before hbefore
    · rw [target_congr hfolders] at hredirects
      rcases hredirects row' hd with hne | hne
      · exact absurd hp hne
      · exact absurd rfl hne
  pins := by
    intro d before hd
    rw [hdevices]
    by_cases hid : d = id
    · subst hid
      refine ⟨row, AList.lookup_insert _, ?_⟩
      rw [target_congr hfolders]
      exact hpins before hd
    · refine ⟨before, by rw [HashMap.lookup_insert_eq, if_neg hid, hd], ?_⟩
      rw [target_congr hfolders, if_pos rfl]
  fresh := by
    intro d row' hnew hd
    rw [hdevices, HashMap.lookup_insert_eq] at hd
    split at hd
    · rename_i hid
      subst hid
      cases hd
      exact hfresh hnew
    · rw [AList.lookup_eq_none.2 hnew] at hd
      cases hd

theorem NotRedirected.refl (caller : Caller) (db : Db) : NotRedirected caller db db where
  connect := by
    intro d row profile hd hp hredirects
    rcases hredirects row hd with hne | hne
    · exact absurd hp hne
    · exact absurd rfl hne
  pins := by
    intro d row hd
    exact ⟨row, hd, (if_pos rfl).symm⟩
  fresh := by
    intro d row hnew hd
    rw [AList.lookup_eq_none.2 hnew] at hd
    cases hd

variable {ssh : SshKeys} {caller : Caller}

theorem NotRedirected.createDevice {id : Uuid} {input : DeviceInput}
    (h : db.createDevice ssh caller id input = .ok db') : NotRedirected caller db db' := by
  obtain ⟨row, hnew, hfolders, -, hdevices, hpins, -, hprofile⟩ := createDevice_ok h
  refine .of_insert hfolders hdevices ?_ ?_ fun _ => hpins
  · intro p hp _
    exact (hprofile p hp).2.1
  · intro before hbefore
    rw [AList.lookup_eq_none.2 hnew] at hbefore
    cases hbefore

theorem NotRedirected.updateDevice {id : Uuid} {input : DeviceInput}
    (h : db.updateDevice ssh caller id input = .ok db') : NotRedirected caller db db' := by
  obtain ⟨before, row, hbefore, hfolders, -, hdevices, hpins, -, hprofile⟩ := updateDevice_ok h
  refine .of_insert hfolders hdevices ?_ ?_ ?_
  · intro p hp hredirects
    exact (hprofile p hp).2.1 (hredirects before hbefore)
  · intro before' hbefore'
    rw [hbefore] at hbefore'
    cases hbefore'
    exact hpins
  · intro hnew
    rw [AList.lookup_eq_none.2 hnew] at hbefore
    cases hbefore

theorem NotRedirected.moveDevice {id folder : Uuid}
    (h : db.moveDevice caller id folder = .ok db') : NotRedirected caller db db' := by
  rcases moveDevice_ok h with rfl | h
  · exact .refl caller db'
  · obtain ⟨before, row, hbefore, hfolders, -, hdevices, hpins, -, hsame, -, hprofile⟩ := h
    refine .of_insert hfolders hdevices ?_ ?_ ?_
    · intro p hp hredirects
      refine (hprofile p hp).1 ?_
      rcases hredirects before hbefore with hne | hne
      · exact absurd (hsame.symm.trans hp) hne
      · exact hne
    · intro before' hbefore'
      rw [hbefore] at hbefore'
      cases hbefore'
      exact hpins
    · intro hnew
      rw [AList.lookup_eq_none.2 hnew] at hbefore
      cases hbefore

theorem NotRedirected.updateFolder {id : Uuid} {input : FolderChange}
    (h : db.updateFolder caller id input = .ok db') : NotRedirected caller db db' := by
  obtain ⟨old, row, before, after, hold, -, -, hbefore, hafter, hconnect, -, rfl⟩ :=
    updateFolder_ok h
  have hid : id ∈ db.folders := AList.lookup_isSome.1 (by rw [hold]; rfl)
  generalize hids : (retargeted before after).map (·.id) = ids
  have hmem : ∀ d device, db.devices.lookup d = some device →
      (d ∈ ids ↔ db.target device ≠ (db.withFolder id row).target device) := by
    intro d device hd
    rw [← hids]
    exact mem_retargeted hid hbefore hafter hd
  -- pins are no part of a target
  have htarget : ∀ d device, ((db.withFolder id row).forgetPins ids).target
      (if d ∈ ids then { device with pins := {} } else device) =
      (db.withFolder id row).target device := by
    intro d device
    have hfolders : ((db.withFolder id row).forgetPins ids).folders =
        (db.withFolder id row).folders := rfl
    rw [target_congr hfolders]
    split <;> rfl
  have hlookup : ∀ d, ((db.withFolder id row).forgetPins ids).devices.lookup d =
      (db.devices.lookup d).map fun row => if d ∈ ids then { row with pins := {} } else row := by
    intro d
    exact lookup_forgetPins ids d
  refine ⟨?_, ?_, ?_⟩
  · intro d row' profile hd hp hredirects
    rw [hlookup, Option.map_eq_some_iff] at hd
    obtain ⟨device, hd, rfl⟩ := hd
    have hsame : device.profileId = some profile := by
      rw [← hp]
      split <;> rfl
    rcases hredirects device hd with hne | hne
    · exact absurd hsame hne
    · rw [htarget] at hne
      have hd' := (hmem d device hd).2 hne
      rw [← hids] at hd'
      obtain ⟨r, hr, hrd⟩ := List.mem_map.1 hd'
      refine hconnect r hr profile ?_
      obtain ⟨row', hrow', hrp, -⟩ := row_of_devicesBelow hafter (List.mem_filter.1 hr).1
      rw [show (db.withFolder id row).devices.lookup r.id = some device from hrd ▸ hd] at hrow'
      cases hrow'
      rw [hrp]
      exact hsame
  · intro d device hd
    refine ⟨_, by rw [hlookup, hd, Option.map_some], ?_⟩
    rw [htarget]
    by_cases hsame : db.target device = (db.withFolder id row).target device
    · rw [if_pos hsame, if_neg (fun hc => (hmem d device hd).1 hc hsame)]
    · rw [if_neg hsame, if_pos ((hmem d device hd).2 hsame)]
  · intro d row' hnew hd
    rw [hlookup, AList.lookup_eq_none.2 hnew] at hd
    cases hd

/-- **Login profiles are not redirected**: whichever of the four requests succeeds, in any state. -/
theorem profile_not_redirected (ssh : SshKeys) (db db' : Db) (caller : Caller) (r : Request)
    (hop : r.mayRetarget = true) (hrun : r.run ssh db caller = .ok db') :
    NotRedirected caller db db' := by
  cases r with
  | createDevice id input => exact .createDevice hrun
  | updateDevice id input => exact .updateDevice hrun
  | moveDevice id folder => exact .moveDevice hrun
  | updateFolder id input => exact .updateFolder hrun
  | createFolder _ _ => cases hop
  | deleteFolder _ => cases hop
  | deleteDevice _ => cases hop
  | createProfile _ _ => cases hop
  | updateProfile _ _ => cases hop
  | deleteProfile _ => cases hop

/-- A folder `1` with a folder `2` in it, where a device with pins signs in with the profile `4` of
folder `1`. -/
def branchOffice : Db where
  folders := .collect
    [(1, { parentId := none, name := "Branch", connectorId := some 5 }),
      (2, { parentId := some 1, name := "Rack", connectorId := none })]
  devices := .collect
    [(3, { folderId := 2, name := "web", protocol := .ssh, host := "web.local", port := 22,
           authMode := .profile, profileId := some 4, description := "", keyboardLayout := none,
           connectorMode := .inherit, connectorId := none, requiresConfirmation := false,
           username := "", domain := "", secretVersion := 0, secretKind := .password, keyInfo := {},
           pins := { hostKey := some "key", hostKeyPinnedAt := some 10 } })]
  profiles := .collect
    [(4, { folderId := some 1, name := "root", username := "root", domain := "",
           secretKind := .password, secretVersion := 1, keyInfo := {} })]
  grants := .collect
    [(7, { folderId := some 1, deviceId := none, credentialId := none, collectionId := none,
           principalKind := "group", principalSid := "S-1", principalName := "Admins",
           role := .manage, expiresAt := none })]
  connectors := {5, 6}

/-- Another connector two folders above a device is another target. -/
theorem profile_not_redirected_far_below :
    ∃ db', (Request.updateFolder 1 { connectorId := some (some 6) }).run
        ⟨fun _ _ _ => .error .invalidKey⟩ branchOffice ⟨⟨{"S-1"}, false⟩, 20⟩ = .ok db' ∧
      (db'.devices.lookup 3).map (·.pins) = some {} ∧
      NotRedirected ⟨⟨{"S-1"}, false⟩, 20⟩ branchOffice db' := by
  have hpins : (((Request.updateFolder 1 { connectorId := some (some 6) }).run
      ⟨fun _ _ _ => .error .invalidKey⟩ branchOffice ⟨⟨{"S-1"}, false⟩, 20⟩).toOption.bind
      (·.devices.lookup 3)).map (·.pins) = some {} := by decide +kernel
  cases hrun : (Request.updateFolder 1 { connectorId := some (some 6) }).run
      ⟨fun _ _ _ => .error .invalidKey⟩ branchOffice ⟨⟨{"S-1"}, false⟩, 20⟩ with
  | error e =>
    rw [hrun] at hpins
    cases hpins
  | ok db' =>
    rw [hrun] at hpins
    exact ⟨db', rfl, hpins, profile_not_redirected _ _ _ _ _ rfl hrun⟩

end Db

end Server
