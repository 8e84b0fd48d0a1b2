import RemoteHub.Server.Proof.Above
import RemoteHub.Server.Proof.Retarget

/-!
# When a move is accepted

For someone with the rights on what is moved and on the target, `move_device` and `update_folder` may
still refuse: where a login profile would be out of reach, or where what is moved gets another connector
and someone may not use the profile behind it. `moveDevice_accepts_iff` and `updateFolder_accepts_iff` say
exactly when they do, in terms of the state before.
-/

namespace Server.Db

open Model Except

variable {db : Db} {caller : Caller}

/-- Every folder and every device meets the constraints on its row. -/
structure Constrained (db : Db) : Prop where
  folders : ∀ id row, db.folders.lookup id = some row → db.checkFolder id row = .ok ()
  devices : ∀ id row, db.devices.lookup id = some row → db.checkDevice id row = .ok ()

/-- The folder a login profile lies in. -/
def profileHome (db : Db) (profile : Uuid) : Option Uuid :=
  (db.profiles.lookup profile).bind (·.folderId)

theorem checkFolder_eq_ok {id : Uuid} {row : FolderRow} {u : Unit} : db.checkFolder id row = .ok u ↔
    row.parentId ≠ some id ∧
    (∀ e ∈ db.folders.entries, e.1 ≠ id → e.2.parentId = row.parentId → e.2.name ≠ row.name) ∧
    (∀ parent ∈ row.parentId, parent ≠ id → parent ∈ db.folders) ∧
    ∀ connector ∈ row.connectorId, connector ∈ db.connectors := by
  unfold checkFolder
  simp only [bind_eq_ok, refuse_eq_ok, exists_const, not_exists, not_and, not_not, ne_eq]

theorem checkDevice_eq_ok {id : Uuid} {row : DeviceRow} {u : Unit} : db.checkDevice id row = .ok u ↔
    (row.authMode = .profile ↔ row.profileId.isSome) ∧
    (row.connectorMode = .connector ↔ row.connectorId.isSome) ∧
    (∀ e ∈ db.devices.entries, e.1 ≠ id → e.2.folderId = row.folderId → e.2.name ≠ row.name) ∧
    row.folderId ∈ db.folders ∧ (∀ connector ∈ row.connectorId, connector ∈ db.connectors) ∧
    ∀ profile ∈ row.profileId, profile ∈ db.profiles := by
  unfold checkDevice
  simp only [bind_eq_ok, refuse_eq_ok, exists_const, not_exists, not_and, not_not, ne_eq]

theorem Constrained.of_entries (hfolders : ∀ e ∈ db.folders.entries, db.checkFolder e.1 e.2 = .ok ())
    (hdevices : ∀ e ∈ db.devices.entries, db.checkDevice e.1 e.2 = .ok ()) : db.Constrained where
  folders id row hrow := hfolders ⟨id, row⟩ (HashMap.lookup_eq_some.1 hrow)
  devices id row hrow := hdevices ⟨id, row⟩ (HashMap.lookup_eq_some.1 hrow)

theorem Constrained.folderTree (hrows : db.Constrained) (h : Chain.Acyclic db.folderParent) :
    db.FolderTree where
  acyclic := h
  parents := by
    intro x y hxy
    obtain ⟨row, hrow, hp⟩ := Option.bind_eq_some_iff.1 hxy
    obtain ⟨hself, -, hparent, -⟩ := checkFolder_eq_ok.1 (hrows.folders x row hrow)
    refine hparent y hp fun hyx => hself ?_
    rw [hp, hyx]

theorem authorize_of_le {catalog : Catalog} {subject : Subject} {needed needed' : Role} {object : ObjectId}
    (hle : needed ≤ needed') (h : catalog.authorize subject needed' object) :
    catalog.authorize subject needed object := by
  unfold Catalog.authorize at h ⊢
  cases hrole : catalog.effectiveRole subject object with
  | none =>
    rw [hrole] at h
    cases h
  | some role =>
    rw [hrole, Option.any_some, decide_eq_true_eq] at h
    exact decide_eq_true (hle.trans h)

theorem inReach_eq_ok {profile folder : Uuid} {u : Unit} :
    inReach (db.catalog caller.now) profile folder = .ok u ↔
      ∀ home ∈ db.profileHome profile, Chain.Above db.folderParent folder home := by
  unfold inReach
  rw [refuse_eq_ok, parent_profile]
  simp only [isWithin_iff, not_exists, not_and, not_not]
  rfl

theorem takesProfile_eq_ok {folder : Uuid} {changed : Bool} {profile : Option Uuid} {u : Unit} :
    takesProfile (db.catalog caller.now) caller.subject folder changed profile = .ok u ↔
      ∀ p ∈ profile, (∀ home ∈ db.profileHome p, Chain.Above db.folderParent folder home) ∧
        (changed = true → (db.catalog caller.now).authorize caller.subject .connect (.profile p)) := by
  cases profile with
  | none => simp [takesProfile]
  | some p =>
    simp only [takesProfile, bind_eq_ok, inReach_eq_ok, exists_const, onlyIf_eq_ok, require_eq_ok,
      Option.mem_some_iff, forall_eq']

theorem parent_device {now : Int} (device : Uuid) :
    (db.catalog now).parent (.device device) = (db.devices.lookup device).map (·.folderId) := by
  unfold Catalog.parent
  show ((Catalog.new db.objects db.grantList now).container _).map _ = _
  rw [Catalog.container_new]
  show ((db.deviceLinks.reverse.lookup device).map ObjectId.folder).map ObjectId.id = _
  rw [← HashMap.lookup_collect, deviceLinks, HashMap.lookup_collect_entries, Option.map_map]
  exact Option.map_id'

/-! ## A device -/

/-- The device's login profile, if it has one, is in reach in `folder`, and where it is reached through
another connector there, the caller may use the profile. -/
def DeviceFollows (db : Db) (caller : Caller) (device : DeviceRow) (folder : Uuid) : Prop :=
  ∀ p ∈ device.profileId,
    (∀ home ∈ db.profileHome p, Chain.Above db.folderParent folder home) ∧
    (db.reachedThrough device ≠ db.deviceConnector device.connectorMode device.connectorId folder →
      (db.catalog caller.now).authorize caller.subject .connect (.profile p))

/-- **A permitted move of a device** is refused for its login profile only. -/
theorem moveDevice_accepts_iff (hfolders : Chain.Acyclic db.folderParent) (hrows : db.Constrained)
    {id folder : Uuid} {device : DeviceRow} (hdevice : db.devices.lookup id = some device)
    (hedit : (db.catalog caller.now).authorize caller.subject .edit (.device id))
    (hinto : (db.catalog caller.now).authorize caller.subject .edit (.folder folder))
    (hfolder : folder ∈ db.folders) (hother : device.folderId ≠ folder)
    (hname : ∀ e ∈ db.devices.entries, e.1 ≠ id → e.2.folderId = folder → e.2.name ≠ device.name) :
    (∃ db', db.moveDevice caller id folder = .ok db') ↔ db.DeviceFollows caller device folder := by
  obtain ⟨before, hbefore⟩ := Option.isSome_iff_exists.1 (reachedThrough_isSome hfolders device)
  obtain ⟨after, hafter⟩ := Option.isSome_iff_exists.1
    (reachedThrough_isSome hfolders { device with folderId := folder })
  replace hafter : db.deviceConnector device.connectorMode device.connectorId folder = some after := hafter
  have hparent : (db.catalog caller.now).parent (.device id) ≠ some folder := by
    rw [parent_device, hdevice, Option.map_some]
    exact fun h => hother (Option.some.inj h)
  -- who may edit the device may reveal its own secret
  have hreveal : (db.catalog caller.now).authorize caller.subject .reveal (.device id) :=
    authorize_of_le (by decide) hedit
  have hcheck (pins : Pins) : db.checkDevice id { device with folderId := folder, pins } = .ok () := by
    obtain ⟨hmode, hconnector, -, -, hconnectors, hprofiles⟩ :=
      checkDevice_eq_ok.1 (hrows.devices id device hdevice)
    exact checkDevice_eq_ok.2 ⟨hmode, hconnector, hname, hfolder, hconnectors, hprofiles⟩
  have hchanged : (decide (before ≠ after) = true) ↔
      db.reachedThrough device ≠ db.deviceConnector device.connectorMode device.connectorId folder := by
    rw [hbefore, hafter]
    simp
  unfold DeviceFollows
  rw [← hchanged, ← takesProfile_eq_ok (u := ())]
  have hmove : db.moveDevice caller id folder =
      db.moveDeviceTo caller (db.catalog caller.now) id folder := by
    unfold moveDevice
    dsimp only
    rw [require_eq_ok (u := ()).2 hedit, require_eq_ok (u := ()).2 hinto, if_neg hparent]
    rfl
  rw [hmove]
  constructor
  · rintro ⟨db', h⟩
    obtain ⟨row, hrow, h⟩ := bind_eq_ok.1 h
    obtain ⟨c, hc, h⟩ := bind_eq_ok.1 h
    obtain ⟨c', hc', h⟩ := bind_eq_ok.1 h
    obtain ⟨_, htakes, -⟩ := bind_eq_ok.1 h
    rw [fetchOne_eq_ok, hdevice] at hrow
    cases hrow
    rw [ends_eq_ok, hbefore] at hc
    rw [ends_eq_ok, hafter] at hc'
    cases hc
    cases hc'
    exact htakes
  · intro htakes
    have hown : ∀ c : Bool, Except.onlyIf (c = true)
        (require (db.catalog caller.now) caller.subject .reveal (.device id)) = .ok () :=
      fun c => onlyIf_eq_ok.2 fun _ => require_eq_ok.2 hreveal
    exact ⟨_, bind_eq_ok.2 ⟨device, fetchOne_eq_ok.2 hdevice,
      bind_eq_ok.2 ⟨before, ends_eq_ok.2 hbefore,
        bind_eq_ok.2 ⟨after, ends_eq_ok.2 hafter,
          bind_eq_ok.2 ⟨(), htakes, bind_eq_ok.2 ⟨(), hown _, bind_eq_ok.2 ⟨(), hcheck _, rfl⟩⟩⟩⟩⟩⟩⟩

/-! ## A folder -/

/-- What a place passes on to the folders in it. -/
def passedOn (db : Db) (place : Option Uuid) : Option (Option Uuid) :=
  db.folderConnectorFrom db.folderRounds place

/-- A device whose folder is the moved one, or lies below it, has its connector from above it. -/
def InheritsThrough (db : Db) (id : Uuid) (device : DeviceRow) : Prop :=
  device.connectorMode = .inherit ∧ Chain.Through db.folderParent db.connectorOf id device.folderId

/-- After the folder `id` is put into `place`, what lies in it or below has `home` above. -/
def AboveAfter (db : Db) (id : Uuid) (place : Option Uuid) (folder home : Uuid) : Prop :=
  (Chain.Above db.folderParent folder id →
    (Chain.Above db.folderParent folder home ∧ Chain.Above db.folderParent home id) ∨
      ∃ p ∈ place, Chain.Above db.folderParent p home) ∧
  (¬Chain.Above db.folderParent folder id → Chain.Above db.folderParent folder home)

/-- Every device's login profile is in reach after the folder `id` is put into `place`, and where the
devices in it have their connector from above and get another one, the caller may use it. -/
def FolderFollows (db : Db) (caller : Caller) (id : Uuid) (place : Option Uuid) : Prop :=
  ∀ d device, db.devices.lookup d = some device → ∀ p ∈ device.profileId,
    (∀ home ∈ db.profileHome p, db.AboveAfter id place device.folderId home) ∧
    (db.InheritsThrough id device → db.passedOn (db.folderParent id) ≠ db.passedOn place →
      (db.catalog caller.now).authorize caller.subject .connect (.profile p))

/-- The folder `id` is put into `place`, which does not lie within it. -/
structure Moved (db : Db) (id : Uuid) (old : FolderRow) (place : Option Uuid) : Prop where
  acyclic : Chain.Acyclic db.folderParent
  rows : db.Constrained
  row : db.folders.lookup id = some old
  outside : ∀ p ∈ place, p ∈ db.folders ∧ ¬Chain.Above db.folderParent p id

section
variable {id : Uuid} {old : FolderRow} {place : Option Uuid}

/-- The state with the folder's new row. -/
def placed (db : Db) (id : Uuid) (old : FolderRow) (place : Option Uuid) : Db :=
  db.withFolder id { old with parentId := place }

theorem folderParent_unplaced (y : Uuid) (hy : y ≠ id) :
    db.folderParent y = (db.placed id old place).folderParent y := by
  unfold placed
  rw [folderParent_withFolder, if_neg hy]

theorem folderParent_placed : (db.placed id old place).folderParent id = place := by
  unfold placed
  rw [folderParent_withFolder, if_pos rfl]

theorem Moved.next (h : db.Moved id old place) :
    ∀ p ∈ (db.placed id old place).folderParent id, ¬Chain.Above db.folderParent p id := by
  rw [folderParent_placed]
  exact fun p hp => (h.outside p hp).2

theorem Moved.acyclic_placed (h : db.Moved id old place) :
    Chain.Acyclic (db.placed id old place).folderParent := by
  have hiff : Chain.Acyclic (db.placed id old place).folderParent ↔
      ¬(True ∧ ∃ p, (some place).join = some p ∧ Chain.Above db.folderParent p id) :=
    Chain.acyclic_iff_of_changed h.acyclic folderParent_unplaced (fun hn => absurd trivial hn)
      fun _ => folderParent_placed
  refine hiff.2 ?_
  rintro ⟨-, p, hp, habove⟩
  exact (h.outside p hp).2 habove

theorem Moved.connectorOf_placed (h : db.Moved id old place) :
    (db.placed id old place).connectorOf = db.connectorOf := by
  funext x
  unfold connectorOf placed withFolder
  rw [HashMap.lookup_insert_eq]
  split
  · rename_i hx
    subst hx
    rw [h.row]
    rfl
  · rfl

theorem mem_placed (x : Uuid) (h : x ∈ db.folders) : x ∈ (db.placed id old place).folders := by
  unfold placed withFolder
  rw [AList.mem_insert]
  exact .inr h

theorem Moved.folderTree (h : db.Moved id old place) : (db.placed id old place).FolderTree where
  acyclic := h.acyclic_placed
  parents := by
    intro x y hxy
    refine mem_placed y ?_
    by_cases hx : x = id
    · subst hx
      rw [folderParent_placed] at hxy
      exact (h.outside y hxy).1
    · rw [← folderParent_unplaced x hx] at hxy
      exact (h.rows.folderTree h.acyclic).parents x y hxy

/-- What is above a folder after the move. -/
theorem Moved.above_iff (h : db.Moved id old place) (folder home : Uuid) :
    Chain.Above (db.placed id old place).folderParent folder home ↔ db.AboveAfter id place folder home := by
  unfold AboveAfter
  by_cases hf : Chain.Above db.folderParent folder id
  · rw [Chain.above_of_moved h.acyclic h.acyclic_placed folderParent_unplaced h.next hf, folderParent_placed]
    simp [hf]
  · rw [Chain.above_of_unmoved folderParent_unplaced hf]
    simp [hf]

/-- What a folder passes on after the move: what the new place passes on, if the folder itself had it from
above the moved one. -/
theorem Moved.folderConnector (h : db.Moved id old place) (folder : Uuid) :
    (Chain.Through db.folderParent db.connectorOf id folder →
      (db.placed id old place).folderConnector folder = db.passedOn place ∧
        db.folderConnector folder = db.passedOn (db.folderParent id)) ∧
    (¬Chain.Through db.folderParent db.connectorOf id folder →
      (db.placed id old place).folderConnector folder = db.folderConnector folder) := by
  have hafter (out : Option Uuid) := folderConnector_iff h.acyclic_placed folder out
  rw [h.connectorOf_placed] at hafter
  constructor
  · intro hthrough
    constructor
    · ext1 out
      rw [hafter, hthrough.nearest_moved h.acyclic_placed folderParent_unplaced h.next, folderParent_placed,
        ← folderConnectorFrom_iff h.acyclic, passedOn]
    · ext1 out
      rw [folderConnector_iff h.acyclic, hthrough.nearest, ← folderConnectorFrom_iff h.acyclic, passedOn]
  · intro hnot
    ext1 out
    rw [hafter, Chain.nearest_of_not_through h.acyclic h.acyclic_placed folderParent_unplaced hnot,
      ← folderConnector_iff h.acyclic]

/-- A device gets another connector exactly where it has its own from above the moved folder. -/
theorem Moved.reachedThrough_ne (h : db.Moved id old place) (device : DeviceRow) :
    db.reachedThrough device ≠ (db.placed id old place).reachedThrough device ↔
      db.InheritsThrough id device ∧ db.passedOn (db.folderParent id) ≠ db.passedOn place := by
  obtain ⟨hthrough, helse⟩ := h.folderConnector device.folderId
  unfold reachedThrough deviceConnector InheritsThrough
  cases device.connectorMode with
  | connector => simp
  | direct => simp
  | inherit =>
    by_cases hd : Chain.Through db.folderParent db.connectorOf id device.folderId
    · obtain ⟨hnew, hold⟩ := hthrough hd
      simp only [hnew, hold, hd, and_self, true_and]
    · simp only [helse hd, hd, ne_eq, not_true_eq_false, and_false, false_and]

/-- `out_of_reach` finds no device. -/
theorem outOfReach_eq_nil_iff (htree : db.FolderTree)
    (hin : ∀ d device, db.devices.lookup d = some device → device.folderId ∈ db.folders) :
    db.outOfReach = [] ↔ ∀ d device, db.devices.lookup d = some device → ∀ p ∈ device.profileId,
      ∀ home ∈ db.profileHome p, Chain.Above db.folderParent device.folderId home := by
  unfold outOfReach
  rw [deviceNames_eq_nil]
  refine forall_congr' fun d => forall_congr' fun device => forall_congr' fun hd => ?_
  have hwithin (home : Uuid) : db.folderWithin device.folderId home = true ↔
      Chain.Above db.folderParent device.folderId home := by
    have hsame : db.folderWithin device.folderId home = (db.catalog 0).isWithin device.folderId home :=
      folderWithin_eq_isWithin htree.parents (hin d device hd)
    rw [hsame, isWithin_iff]
  unfold profileHome
  simp only [← hwithin]
  cases device.profileId with
  | none => simp
  | some p =>
    cases hp : db.profiles.lookup p with
    | none => simp [hp]
    | some profile => cases hhome : profile.folderId <;> simp [hp, hhome]

theorem exists_devicesBelow (h : Chain.Acyclic db.folderParent) (folder : Uuid) :
    ∃ list, db.devicesBelow folder = .ok list := by
  cases hlist : db.devicesBelow folder with
  | ok list => exact ⟨list, rfl⟩
  | error e =>
    rw [endless_of_devicesBelow hlist] at hlist
    exact (Ends.devicesBelow h folder hlist).elim

/-- Whom `update_folder` refuses: those who may not use a profile behind another connector. -/
theorem Moved.refused_eq_nil_iff (h : db.Moved id old place) {before after : List Reached}
    (hbefore : db.devicesBelow id = .ok before)
    (hafter : (db.placed id old place).devicesBelow id = .ok after) :
    ((retargeted before after).filter fun device => device.profileId.any fun profile =>
        !(require (db.catalog caller.now) caller.subject .connect (.profile profile)).isOk) = [] ↔
      ∀ d device, db.devices.lookup d = some device → ∀ p ∈ device.profileId,
        db.InheritsThrough id device → db.passedOn (db.folderParent id) ≠ db.passedOn place →
          (db.catalog caller.now).authorize caller.subject .connect (.profile p) := by
  have hid : id ∈ db.folders := AList.lookup_isSome.1 (by rw [h.row]; rfl)
  have hmem {d : Uuid} {device : DeviceRow} (hd : db.devices.lookup d = some device) :
      d ∈ (retargeted before after).map (·.id) ↔
        db.InheritsThrough id device ∧ db.passedOn (db.folderParent id) ≠ db.passedOn place := by
    rw [mem_retargeted hid hbefore hafter hd, ← h.reachedThrough_ne]
    simp [target, placed]
  have hallowed (p : Uuid) :
      (require (db.catalog caller.now) caller.subject .connect (.profile p)).isOk = true ↔
        (db.catalog caller.now).authorize caller.subject .connect (.profile p) = true := by
    rw [← require_eq_ok (u := ())]
    cases require (db.catalog caller.now) caller.subject .connect (.profile p) <;>
      simp [Except.isOk, Except.toBool]
  have hrow {r : Reached} (hr : r ∈ retargeted before after) :
      ∃ device, db.devices.lookup r.id = some device ∧ r.profileId = device.profileId := by
    obtain ⟨device, hdevice, hprofile, -⟩ := row_of_devicesBelow hafter (List.mem_filter.1 hr).1
    exact ⟨device, hdevice, hprofile⟩
  rw [List.filter_eq_nil_iff]
  constructor
  · intro hnone d device hd p hp hthrough hne
    obtain ⟨r, hr, rfl⟩ := List.mem_map.1 ((hmem hd).2 ⟨hthrough, hne⟩)
    obtain ⟨device', hdevice, hprofile⟩ := hrow hr
    cases hd.symm.trans hdevice
    have hok := hnone r hr
    rw [hprofile, hp, Option.any_some, Bool.not_eq_true', Bool.not_eq_false] at hok
    exact (hallowed p).1 hok
  · intro hall r hr hany
    obtain ⟨device, hdevice, hprofile⟩ := hrow hr
    obtain ⟨hthrough, hne⟩ := (hmem hdevice).1 (List.mem_map.2 ⟨r, hr, rfl⟩)
    rw [hprofile] at hany
    cases hp : device.profileId with
    | none =>
      rw [hp] at hany
      cases hany
    | some p =>
      rw [hp, Option.any_some, (hallowed p).2 (hall r.id device hdevice p hp hthrough hne)] at hany
      cases hany

/-- **A permitted move of a folder** is refused for the login profiles of the devices only. -/
theorem updateFolder_accepts_iff (h : db.Moved id old place)
    (hmanage : (db.catalog caller.now).authorize caller.subject .manage (.folder id))
    (hmove : requireMove (db.catalog caller.now) caller.subject id (some place) = .ok ())
    (hname : ∀ e ∈ db.folders.entries, e.1 ≠ id → e.2.parentId = place → e.2.name ≠ old.name) :
    (∃ db', db.updateFolder caller id { parentId := some place } = .ok db') ↔
      db.FolderFollows caller id place := by
  obtain ⟨before, hbefore⟩ := exists_devicesBelow h.acyclic id
  obtain ⟨after, hafter⟩ := exists_devicesBelow h.acyclic_placed id
  have hin : ∀ d device, (db.placed id old place).devices.lookup d = some device →
      device.folderId ∈ (db.placed id old place).folders := fun d device hd =>
    mem_placed _ (checkDevice_eq_ok.1 (h.rows.devices d device hd)).2.2.2.1
  have hfollows : db.FolderFollows caller id place ↔
      ((retargeted before after).filter fun device => device.profileId.any fun profile =>
        !(require (db.catalog caller.now) caller.subject .connect (.profile profile)).isOk) = [] ∧
      (db.placed id old place).outOfReach = [] := by
    rw [h.refused_eq_nil_iff hbefore hafter, outOfReach_eq_nil_iff h.folderTree hin]
    simp only [h.above_iff]
    constructor
    · intro hf
      refine ⟨fun d device hd p hp => (hf d device hd p hp).2, fun d device hd p hp => ?_⟩
      exact (hf d device hd p hp).1
    · rintro ⟨hconnect, hreach⟩ d device hd p hp
      exact ⟨hreach d device hd p hp, hconnect d device hd p hp⟩
  have hcheck : db.checkFolder id { old with parentId := place } = .ok () := by
    obtain ⟨-, -, -, hconnectors⟩ := checkFolder_eq_ok.1 (h.rows.folders id old h.row)
    refine checkFolder_eq_ok.2 ⟨fun hp => ?_, hname, fun p hp _ => (h.outside p hp).1, hconnectors⟩
    exact (h.outside id hp).2 (.refl id)
  rw [hfollows]
  constructor
  · rintro ⟨db', hdb'⟩
    obtain ⟨_, -, hdb'⟩ := bind_eq_ok.1 hdb'
    obtain ⟨name, hnone, hdb'⟩ := bind_eq_ok.1 hdb'
    obtain ⟨_, -, hdb'⟩ := bind_eq_ok.1 hdb'
    obtain ⟨_, -, hdb'⟩ := bind_eq_ok.1 hdb'
    obtain ⟨before', hbefore', hdb'⟩ := bind_eq_ok.1 hdb'
    obtain ⟨row, hrow, hdb'⟩ := bind_eq_ok.1 hdb'
    obtain ⟨_, -, hdb'⟩ := bind_eq_ok.1 hdb'
    obtain ⟨after', hafter', hdb'⟩ := bind_eq_ok.1 hdb'
    obtain ⟨_, hrefused, hdb'⟩ := bind_eq_ok.1 hdb'
    obtain ⟨_, hreach, -⟩ := bind_eq_ok.1 hdb'
    rw [fetchOne_eq_ok, h.row] at hrow
    cases hrow
    cases hnone
    cases hbefore.symm.trans hbefore'
    cases (show Except.ok after = Except.ok after' from hafter.symm.trans hafter')
    exact ⟨not_not.1 (refuse_eq_ok.1 hrefused), not_not.1 (refuse_eq_ok.1 hreach)⟩
  · rintro ⟨hrefused, hreach⟩
    exact ⟨_, bind_eq_ok.2 ⟨(), require_eq_ok.2 hmanage,
      bind_eq_ok.2 ⟨none, rfl, bind_eq_ok.2 ⟨(), hmove, bind_eq_ok.2 ⟨(), rfl,
        bind_eq_ok.2 ⟨before, hbefore, bind_eq_ok.2 ⟨old, fetchOne_eq_ok.2 h.row,
        bind_eq_ok.2 ⟨(), hcheck, bind_eq_ok.2 ⟨after, hafter,
          bind_eq_ok.2 ⟨(), refuse_eq_ok.2 (not_not.2 hrefused),
            bind_eq_ok.2 ⟨(), refuse_eq_ok.2 (not_not.2 hreach), rfl⟩⟩⟩⟩⟩⟩⟩⟩⟩⟩⟩

end

end Server.Db
