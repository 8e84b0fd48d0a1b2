import RemoteHub.Server.Proof.Accepts
import RemoteHub.Web.Proof.Tree

/-!
# Where something may be dropped

`takes` asks for the rights on what is moved and on the target, and that a folder does not go below
itself; with these (`rights_device`, `rights_folder`) the server refuses a move for the login profiles
only. `takes_iff` says when it accepts what the client offers, on every tree it has given.
-/

namespace Web.Tree

open Model Server Except

variable {db : Db} {caller : Caller} {tree : Server.Tree} {id : Uuid} {target : Option Uuid}

theorem allows_eq (role : Option Role) (needed : Role) : allows role needed = role.any (needed ≤ ·) := by
  cases role with
  | none => rfl
  | some role => cases role <;> cases needed <;> decide

/-! ## Rights -/

theorem authorize_of_allows (htree : db.tree caller = .ok tree) {f : TreeFolder} (hf : f ∈ tree.folders)
    {needed : Role} (h : allows f.role needed = true) :
    f.id ∈ db.folders ∧ (db.catalog caller.now).authorize caller.subject needed (.folder f.id) := by
  obtain ⟨row, hrow, -, hfrow⟩ := (Db.mem_tree_folders htree f).1 hf
  refine ⟨AList.lookup_isSome.1 (by rw [hrow]; rfl), ?_⟩
  rw [allows_eq, hfrow] at h
  exact h

theorem of_find {T : Type} {p : T → Prop} [DecidablePred p] {items : List T} {x : T}
    (h : items.find? (decide <| p ·) = some x) : x ∈ items ∧ p x :=
  ⟨List.mem_of_find?_eq_some h, by simpa using List.find?_some h⟩

/-- The folder a tree finds under an id. -/
theorem of_find_folder {f : TreeFolder} (h : tree.folders.find? (some ·.id = target) = some f) :
    f ∈ tree.folders ∧ target = some f.id :=
  ⟨(of_find h).1, (of_find h).2.symm⟩

/-- What `takes` says about a device. -/
theorem rights_device (htree : db.tree caller = .ok tree) (h : takes tree (.device id) target = true) :
    ∃ folder ∈ target, ∃ device, db.devices.lookup id = some device ∧ device.folderId ≠ folder ∧
      (db.catalog caller.now).authorize caller.subject .edit (.device id) ∧
      folder ∈ db.folders ∧ (db.catalog caller.now).authorize caller.subject .edit (.folder folder) := by
  unfold takes at h
  dsimp only at h
  split at h
  · rename_i device into hdevice hinto
    rw [Bool.and_eq_true, Bool.and_eq_true, decide_eq_true_eq] at h
    obtain ⟨⟨hother, hedit⟩, hallows⟩ := h
    obtain ⟨hmem, rfl⟩ := of_find_folder hinto
    obtain ⟨hfolder, hinto⟩ := authorize_of_allows htree hmem hallows
    obtain ⟨hshown, hid⟩ := of_find hdevice
    obtain ⟨row, hrow, hrole, -, hin, -⟩ := (Db.mem_tree_devices htree device).1 hshown
    rw [hid] at hrow hrole
    refine ⟨into.id, rfl, row, hrow, fun hsame => hother ?_, ?_, hfolder, hinto⟩
    · rw [hin, hsame]
    · rw [allows_eq] at hedit
      unfold Catalog.authorize
      rwa [hrole]
  · cases h

/-- What `takes` says about a folder. -/
theorem rights_folder (hdb : db.FolderTree) (htree : db.tree caller = .ok tree)
    (h : takes tree (.folder id) target = true) :
    ∃ old, db.folders.lookup id = some old ∧
      (db.catalog caller.now).authorize caller.subject .manage (.folder id) ∧
      requireMove (db.catalog caller.now) caller.subject id (some target) = .ok () ∧
      ∀ p ∈ target, p ∈ db.folders ∧ ¬Chain.Above db.folderParent p id := by
  unfold takes at h
  dsimp only at h
  split at h
  · cases h
  · rename_i folder hfolder
    obtain ⟨hmem, rfl⟩ := of_find hfolder
    obtain ⟨row, hrow, -, -⟩ := (Db.mem_tree_folders htree folder).1 hmem
    split at h
    · cases h
    · rename_i hmanage
      rw [Bool.or_eq_true, not_or, Bool.not_eq_true', Bool.not_eq_false] at hmanage
      obtain ⟨-, hmanage⟩ := authorize_of_allows htree hmem hmanage.1
      refine ⟨row, hrow, hmanage, ?_⟩
      cases target with
      | none =>
        rw [if_pos rfl, Db.mayCreateTopLevel_tree htree] at h
        have htop : ¬(!(db.catalog caller.now).mayCreateTopLevel caller.subject) = true := by
          rw [Catalog.mayCreateTopLevel, h]
          decide
        refine ⟨bind_eq_ok.2 ⟨(), refuse_eq_ok.2 htop, refuse_eq_ok.2 ?_⟩, fun p hp => by cases hp⟩
        rintro ⟨p, hp, -⟩
        cases hp
      | some p =>
        rw [if_neg (by simp), Bool.and_eq_true, Option.any_eq_true] at h
        obtain ⟨⟨into, hinto, hallows⟩, hpath⟩ := h
        obtain ⟨hin, hp⟩ := of_find_folder hinto
        cases hp
        obtain ⟨hexists, hmanageInto⟩ := authorize_of_allows htree hin hallows
        have hwithin : (db.catalog caller.now).isWithin into.id folder.id = false := by
          rw [← Bool.not_eq_true, ← mem_pathTo hdb htree hin]
          simpa using hpath
        refine ⟨bind_eq_ok.2 ⟨(), require_eq_ok.2 hmanageInto, refuse_eq_ok.2 ?_⟩, ?_⟩
        · rintro ⟨p, hp, hnot⟩
          cases hp
          rw [hwithin] at hnot
          cases hnot
        · rintro _ ⟨⟩
          exact ⟨hexists, fun habove => by rw [Db.isWithin_iff.2 habove] at hwithin; cases hwithin⟩

/-! ## Drops -/

/-- No sibling in the target has the name of what is moved. -/
def NameFree (db : Db) (item : Dragged) (target : Option Uuid) : Prop :=
  match item with
  | .device id => ∀ device, db.devices.lookup id = some device → ∀ e ∈ db.devices.entries, e.1 ≠ id →
      some e.2.folderId = target → e.2.name ≠ device.name
  | .folder id => ∀ folder, db.folders.lookup id = some folder → ∀ e ∈ db.folders.entries, e.1 ≠ id →
      e.2.parentId = target → e.2.name ≠ folder.name

/-- The login profiles follow: in reach from where the devices go, and for someone who may use them where
a device gets another connector. -/
def Follows (db : Db) (caller : Caller) (item : Dragged) (target : Option Uuid) : Prop :=
  match item with
  | .device id => ∀ device, db.devices.lookup id = some device → ∀ folder ∈ target,
      db.DeviceFollows caller device folder
  | .folder id => db.FolderFollows caller id target

/-- **What the client offers, the server accepts exactly where the login profiles follow.** -/
theorem takes_iff (hfolders : Chain.Acyclic db.folderParent) (hrows : db.Constrained) {item : Dragged}
    (htree : db.tree caller = .ok tree) (htakes : takes tree item target = true)
    (hname : NameFree db item target) :
    (∃ db', moveTo db caller item target = .ok db') ↔ Follows db caller item target := by
  cases item with
  | device id =>
    obtain ⟨folder, htarget, device, hdevice, hother, hedit, hfolder, hinto⟩ := rights_device htree htakes
    cases htarget
    have haccepts := Db.moveDevice_accepts_iff hfolders hrows hdevice hedit hinto hfolder hother
      fun e he hid hsame => hname device hdevice e he hid (congrArg some hsame)
    refine haccepts.trans ?_
    constructor
    · rintro h device' hdevice' _ ⟨⟩
      cases hdevice.symm.trans hdevice'
      exact h
    · intro h
      exact h device hdevice folder rfl
  | folder id =>
    obtain ⟨old, hold, hmanage, hmove, houtside⟩ := rights_folder (hrows.folderTree hfolders) htree htakes
    exact Db.updateFolder_accepts_iff ⟨hfolders, hrows, hold, houtside⟩ hmanage hmove (hname old hold)

/-- Two racks; the first has a login profile and a device that signs in with it. -/
def racks : Db where
  folders := .collect
    [(1, { parentId := none, name := "Rack A", connectorId := none }),
      (2, { parentId := none, name := "Rack B", connectorId := none })]
  profiles := .collect
    [(5, { folderId := some 1, name := "root", username := "root", domain := "", secretKind := .password,
           secretVersion := 1, keyInfo := {} })]
  devices := .collect
    [(3, { folderId := 1, name := "web1", protocol := .ssh, host := "10.0.0.3", port := 22,
           authMode := .profile, profileId := some 5, description := "", keyboardLayout := none,
           connectorMode := .inherit, connectorId := none, requiresConfirmation := false,
           username := "", domain := "", secretVersion := 0, secretKind := .password, keyInfo := {},
           pins := {} })]

def admin : Caller := ⟨⟨∅, true⟩, 0⟩

theorem racks_constrained : racks.Constrained := by
  refine .of_entries ?_ ?_ <;> decide

theorem racks_tree : racks.FolderTree := .of_order (by decide)

/-- The rack goes into the other one, with the profile in it. -/
theorem takes_iff_rack : ∃ tree, racks.tree admin = .ok tree ∧ takes tree (.folder 1) (some 2) = true ∧
    ∃ db', moveTo racks admin (.folder 1) (some 2) = .ok db' := by
  obtain ⟨tree, htree⟩ := Db.exists_tree racks_tree.acyclic admin
  have htakes : (racks.tree admin).toOption.map (takes · (.folder 1) (some 2)) = some true := by
    decide +kernel
  rw [htree] at htakes
  refine ⟨tree, htree, Option.some.inj htakes,
    (takes_iff racks_tree.acyclic racks_constrained htree (Option.some.inj htakes) ?_).2 ?_⟩
  · have hempty : ∀ e ∈ racks.folders.entries, e.2.parentId ≠ some 2 := by decide
    exact fun folder _ e he _ hin => absurd hin (hempty e he)
  · intro d device hd p hp
    have hrows : ∀ e ∈ racks.devices.entries, e.2.folderId = 1 ∧ e.2.profileId = some 5 := by decide
    have hhome : racks.profileHome 5 = some 1 := by decide
    obtain ⟨hin, hprofile⟩ := hrows ⟨d, device⟩ (HashMap.lookup_eq_some.1 hd)
    cases hprofile.symm.trans hp
    refine ⟨fun home hmem => ?_, fun _ hne => absurd (by decide) hne⟩
    cases hhome.symm.trans hmem
    rw [show device.folderId = 1 from hin]
    exact ⟨fun h => .inl ⟨h, h⟩, fun h => absurd (.refl 1) h⟩

/-- The device is offered the other rack, where its profile is out of reach. -/
theorem takes_strands : ∃ tree, racks.tree admin = .ok tree ∧
    takes tree (.device 3) (some 2) = true ∧ NameFree racks (.device 3) (some 2) ∧
    moveTo racks admin (.device 3) (some 2) = .error (.of .profileOutOfReach) := by
  obtain ⟨tree, htree⟩ := Db.exists_tree racks_tree.acyclic admin
  have htakes : (racks.tree admin).toOption.map (takes · (.device 3) (some 2)) = some true := by
    decide +kernel
  have hempty : ∀ e ∈ racks.devices.entries, e.2.folderId ≠ 2 := by decide
  have hrefused : (moveTo racks admin (.device 3) (some 2)).map (fun _ => ()) =
      .error (.of .profileOutOfReach) := by decide
  rw [htree] at htakes
  refine ⟨tree, htree, Option.some.inj htakes, ?_, ?_⟩
  · exact fun device _ e he _ hin => absurd (Option.some.inj hin) (hempty e he)
  · cases hmove : moveTo racks admin (.device 3) (some 2) with
    | ok db' =>
      rw [hmove] at hrefused
      cases hrefused
    | error e =>
      rw [hmove] at hrefused
      injection hrefused with he
      rw [he]

end Web.Tree
