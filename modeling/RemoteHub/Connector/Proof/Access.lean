import RemoteHub.Connector.Access

/-!
# The access file and the list agree

Whatever is called, one call after another, and whichever of its writes fail:

- `Sound`: what `access.json` names is on the list, and the names on it are unique. `Effect` says what a
  call can have done with the files, wherever it ended; `Effect.sound` that it keeps `Sound`.
- `Effect.answered`: what was just added is closed, a refused call has changed nothing, and a call opens
  nothing but the scope it names.
-/

namespace Connector

open Model Except Command

/-! ## What a call does -/

/-- What a call has done with the files where it ended. -/
inductive Effect (lower : String → String) (now : OffsetDateTime) (f : Files) :
    Call → Except ChangeError Unit → Files → Prop
  | refused (call : Call) (e : InventoryError) : Effect lower now f call (.error (.inventory e)) f
  | failed (call : Call) : Effect lower now f call (.error .io) f
  | changed {scope : Scope} {access : Access} {who : Changer} {file : AccessFile}
      (h : changed f.inventory f.access scope access who now = .ok file) :
      Effect lower now f (.change scope access who) (.ok ()) { f with access := file }
  | approved (request : CustomerRequest) (ends : OffsetDateTime) (who : Changer) :
      Effect lower now f (.approve request ends who) (.ok ())
        { f with access := approved f.access request ends who now }
  | deviceAdded {device : Device} {list : Inventory}
      (h : f.inventory.addDevice lower device = .ok list) :
      Effect lower now f (.addDevice device) (.ok ()) { f with inventory := list }
  | deviceRemoved {name : String} {list : Inventory} (h : f.inventory.removeDevice name = .ok list) :
      Effect lower now f (.removeDevice name) (.ok ())
        ⟨{ f.access with devices := f.access.devices.erase name }, list⟩
  | deviceClosed (name : String) :
      Effect lower now f (.removeDevice name) (.error .io)
        { f with access := { f.access with devices := f.access.devices.erase name } }
  | groupAdded {name name' : String} {list : Inventory} (hname : validName name = .ok name')
      (h : f.inventory.addGroup lower name' = .ok list) :
      Effect lower now f (.addGroup name) (.ok ()) { f with inventory := list }
  | groupRemoved {name : String} {list : Inventory} (h : f.inventory.removeGroup name = .ok list) :
      Effect lower now f (.removeGroup name) (.ok ())
        ⟨{ f.access with groups := f.access.groups.erase name }, list⟩
  | groupClosed (name : String) :
      Effect lower now f (.removeGroup name) (.error .io)
        { f with access := { f.access with groups := f.access.groups.erase name } }

/-- How a command ended and what it left of the files. -/
def Command.outcome {α : Type} (c : Command α) (f : Files) (failing : List Bool) :
    Except ChangeError α × Files :=
  ((c ⟨f, failing⟩).1, (c ⟨f, failing⟩).2.files)

section
variable {f : Files} {failing : List Bool}

@[simp] theorem outcome_loadInventory {α : Type} (k : Inventory → Command α) :
    (loadInventory >>= k).outcome f failing = (k f.inventory).outcome f failing := rfl

@[simp] theorem outcome_loadAccess {α : Type} (k : AccessFile → Command α) :
    (loadAccess >>= k).outcome f failing = (k f.access).outcome f failing := rfl

@[simp] theorem outcome_lift_ok {α β : Type} (a : β) (k : β → Command α) :
    (Command.lift (.ok a) >>= k).outcome f failing = (k a).outcome f failing := rfl

@[simp] theorem outcome_lift_error {α β : Type} (e : InventoryError) (k : β → Command α) :
    (Command.lift (.error e) >>= k).outcome f failing = (.error (.inventory e), f) := rfl

/-- A write fails, or is there. -/
theorem outcome_write (g : Files → Files) :
    (write g).outcome f failing = (.error .io, f) ∨ (write g).outcome f failing = (.ok (), g f) := by
  match failing with
  | true :: _ => exact .inl rfl
  | false :: _ => exact .inr rfl
  | [] => exact .inr rfl

theorem outcome_write_bind {α : Type} (g : Files → Files) (k : Unit → Command α) :
    (write g >>= k).outcome f failing = (.error .io, f) ∨
      ∃ failing', (write g >>= k).outcome f failing = (k ()).outcome (g f) failing' := by
  match failing with
  | true :: _ => exact .inl rfl
  | false :: failing' => exact .inr ⟨failing', rfl⟩
  | [] => exact .inr ⟨[], rfl⟩

end

/-- **A call's effect**, wherever it ended. -/
theorem run_effect (lower : String → String) (now : OffsetDateTime) (call : Call) (f : Files)
    (failing : List Bool) :
    Effect lower now f call ((call.run lower now).outcome f failing).1
      ((call.run lower now).outcome f failing).2 := by
  cases call with
  | change scope access who =>
    simp only [Call.run, change, outcome_loadInventory, outcome_loadAccess]
    cases h : changed f.inventory f.access scope access who now with
    | error e => exact .refused _ e
    | ok file =>
      rw [outcome_lift_ok, saveAccess]
      rcases outcome_write (f := f) fun files => { files with access := file } with
        hw | hw <;> rw [hw]
      · exact .failed _
      · exact .changed h
  | approve request ends who =>
    simp only [Call.run, approve, outcome_loadAccess, saveAccess]
    rcases outcome_write (f := f) fun files =>
      { files with access := approved f.access request ends who now } with hw | hw <;> rw [hw]
    · exact .failed _
    · exact .approved request ends who
  | addDevice device =>
    simp only [Call.run, addDevice, outcome_loadInventory]
    cases h : f.inventory.addDevice lower device with
    | error e => exact .refused _ e
    | ok list =>
      rw [outcome_lift_ok, saveInventory]
      rcases outcome_write (f := f) fun files =>
        { files with inventory := list } with hw | hw <;> rw [hw]
      · exact .failed _
      · exact .deviceAdded h
  | removeDevice name =>
    simp only [Call.run, removeDevice, outcome_loadInventory]
    cases h : f.inventory.removeDevice name with
    | error e => exact .refused _ e
    | ok list =>
      simp only [outcome_lift_ok, outcome_loadAccess, saveAccess, saveInventory]
      rcases outcome_write_bind (f := f)
        (fun files => { files with access := { f.access with devices := f.access.devices.erase name } })
        (fun _ => write fun files => { files with inventory := list }) with hw | ⟨failing', hw⟩ <;>
        rw [hw]
      · exact .failed _
      · -- the access is written, the list is next
        rcases outcome_write fun files =>
          { files with inventory := list } with hw | hw <;> rw [hw]
        · exact .deviceClosed name
        · exact .deviceRemoved h
  | addGroup name =>
    simp only [Call.run, addGroup]
    cases hname : validName name with
    | error e => exact .refused _ e
    | ok name' =>
      rw [outcome_lift_ok, outcome_loadInventory]
      cases h : f.inventory.addGroup lower name' with
      | error e => exact .refused _ e
      | ok list =>
        rw [outcome_lift_ok, saveInventory]
        rcases outcome_write (f := f) fun files =>
          { files with inventory := list } with hw | hw <;> rw [hw]
        · exact .failed _
        · exact .groupAdded hname h
  | removeGroup name =>
    simp only [Call.run, removeGroup, outcome_loadInventory]
    cases h : f.inventory.removeGroup name with
    | error e => exact .refused _ e
    | ok list =>
      simp only [outcome_lift_ok, outcome_loadAccess, saveAccess, saveInventory]
      rcases outcome_write_bind (f := f)
        (fun files => { files with access := { f.access with groups := f.access.groups.erase name } })
        (fun _ => write fun files => { files with inventory := list }) with hw | ⟨failing', hw⟩ <;>
        rw [hw]
      · exact .failed _
      · rcases outcome_write fun files =>
          { files with inventory := list } with hw | hw <;> rw [hw]
        · exact .groupClosed name
        · exact .groupRemoved h

/-! ## The list -/

namespace Inventory

variable {lower : String → String} {list list' : Inventory} {name : String} {device : Device}

theorem device_isSome : (list.device name).isSome = true ↔ name ∈ list.devices.map (·.name) := by
  simp [device, List.find?_isSome]

theorem hasGroup_iff : list.hasGroup name = true ↔ name ∈ list.groups := by
  simp [hasGroup]

theorem hasGroup_eq_false : list.hasGroup name = false ↔ name ∉ list.groups := by
  rw [← hasGroup_iff, Bool.not_eq_true]

theorem perm_sortByName {α : Type} (key : α → String) (xs : List α) :
    (sortByName lower key xs).Perm xs := List.perm_insertionSort _ xs

theorem addDevice_eq_ok (h : list.addDevice lower device = .ok list') :
    device.name ∉ list.devices.map (·.name) ∧ (∀ group ∈ device.groups, group ∈ list.groups) ∧
      list'.groups = list.groups ∧ list'.devices.Perm (device :: list.devices) := by
  obtain ⟨_, hname, h⟩ := bind_eq_ok.1 h
  obtain ⟨_, -, h⟩ := bind_eq_ok.1 h
  rw [refuse_eq_ok, device_isSome] at hname
  split at h
  · cases h
  · rename_i hgroups
    cases h
    refine ⟨hname, fun group hgroup => ?_, rfl, ?_⟩
    · have hfound := List.find?_eq_none.1 hgroups group hgroup
      rw [Bool.not_eq_true, Bool.not_eq_false'] at hfound
      exact hasGroup_iff.1 hfound
    · exact (perm_sortByName Device.name _).trans (List.perm_append_singleton device list.devices)

theorem removeDevice_eq_ok (h : list.removeDevice name = .ok list') :
    ∃ before d after, list.devices = before ++ d :: after ∧ d.name = name ∧
      list' = { list with devices := before ++ after } := by
  unfold removeDevice at h
  split at h
  · cases h
  · rename_i index hindex
    cases h
    obtain ⟨hlt, hname, -⟩ := List.findIdx?_eq_some_iff_getElem.1 hindex
    refine ⟨list.devices.take index, list.devices[index], list.devices.drop (index + 1), ?_,
      of_decide_eq_true hname, ?_⟩
    · rw [List.getElem_cons_drop, List.take_append_drop]
    · rw [List.eraseIdx_eq_take_drop_succ]

theorem addGroup_eq_ok (h : list.addGroup lower name = .ok list') :
    name ∉ list.groups ∧ list'.devices = list.devices ∧ list'.groups.Perm (name :: list.groups) := by
  obtain ⟨_, hname, h⟩ := bind_eq_ok.1 h
  rw [refuse_eq_ok, hasGroup_iff] at hname
  cases h
  exact ⟨hname, rfl, (perm_sortByName id _).trans (List.perm_append_singleton name list.groups)⟩

theorem removeGroup_eq_ok (h : list.removeGroup name = .ok list') :
    list' =
      { groups := list.groups.filter (· ≠ name)
        devices := list.devices.map fun d =>
          { d with groups := d.groups.filter (· ≠ name) } } := by
  obtain ⟨_, -, h⟩ := bind_eq_ok.1 h
  cases h
  rfl

end Inventory

/-! ## The access file -/

namespace AccessFile

variable {file : AccessFile} {stored : Stored} {scope scope' : Scope} {name : String}

/-- Only the scope that is set changes. -/
theorem get_set_ne (h : scope' ≠ scope) : (file.set stored scope).get scope' = file.get scope' := by
  cases scope with
  | network =>
    cases scope' with
    | network => exact absurd rfl h
    | _ => rfl
  | device a =>
    cases scope' with
    | device b =>
      have hne : b ≠ a := fun heq => h (by rw [heq])
      simp only [set, get, AList.lookup_insert_ne hne]
    | _ => rfl
  | group a =>
    cases scope' with
    | group b =>
      have hne : b ≠ a := fun heq => h (by rw [heq])
      simp only [set, get, AList.lookup_insert_ne hne]
    | _ => rfl
  | request a =>
    simp only [set]
    split
    · cases scope' with
      | request b =>
        have hne : b ≠ a := fun heq => h (by rw [heq])
        simp only [get, AList.lookup_erase_ne hne]
      | _ => rfl
    · cases scope' with
      | request b =>
        have hne : b ≠ a := fun heq => h (by rw [heq])
        simp only [get, HashMap.lookup_modify, if_neg hne]
      | _ => rfl

theorem mem_devices_set :
    name ∈ (file.set stored scope).devices ↔ scope = .device name ∨ name ∈ file.devices := by
  cases scope with
  | device a => simp [set, eq_comm]
  | request a => simp only [set]; split <;> simp
  | _ => simp [set]

theorem mem_groups_set :
    name ∈ (file.set stored scope).groups ↔ scope = .group name ∨ name ∈ file.groups := by
  cases scope with
  | group a => simp [set, eq_comm]
  | request a => simp only [set]; split <;> simp
  | _ => simp [set]

theorem get_device_of_not_mem (h : name ∉ file.devices) : file.get (.device name) = {} := by
  rw [get, AList.lookup_eq_none.2 h, Option.getD_none]

theorem get_group_of_not_mem (h : name ∉ file.groups) : file.get (.group name) = {} := by
  rw [get, AList.lookup_eq_none.2 h, Option.getD_none]

/-- Without a device, every other scope is as before. -/
theorem get_erase_device :
    ({ file with devices := file.devices.erase name } : AccessFile).get scope =
      if scope = .device name then {} else file.get scope := by
  cases scope with
  | device a =>
    by_cases heq : a = name
    · subst heq
      simp [get, AList.lookup_erase]
    · simp [get, AList.lookup_erase_ne heq, heq]
  | _ => rfl

theorem get_erase_group :
    ({ file with groups := file.groups.erase name } : AccessFile).get scope =
      if scope = .group name then {} else file.get scope := by
  cases scope with
  | group a =>
    by_cases heq : a = name
    · subst heq
      simp [get, AList.lookup_erase]
    · simp [get, AList.lookup_erase_ne heq, heq]
  | _ => rfl

end AccessFile

theorem changed_eq_ok {list : Inventory} {file file' : AccessFile} {scope : Scope} {access : Access}
    {who : Changer} {now : OffsetDateTime} (h : changed list file scope access who now = .ok file') :
    known list file scope = true ∧
      file' = file.set ⟨access.seconds, some who, some (seconds now)⟩ scope := by
  obtain ⟨_, hknown, h⟩ := bind_eq_ok.1 h
  rw [refuse_eq_ok, Bool.not_eq_false] at hknown
  cases h
  exact ⟨hknown, rfl⟩

theorem approved_get_ne {file : AccessFile} {request : CustomerRequest} {ends now : OffsetDateTime}
    {who : Changer} {scope : Scope} (h : scope ≠ .request request.id) :
    (approved file request ends who now).get scope = file.get scope := by
  cases scope with
  | request id =>
    have hne : id ≠ request.id := fun heq => h (by rw [heq])
    simp only [approved, AccessFile.get, AList.lookup_insert_ne hne]
  | _ => rfl

/-! ## The invariant -/

/-- The names of the list are unique, and its devices' groups are on it. -/
structure Inventory.Whole (list : Inventory) : Prop where
  deviceNames : (list.devices.map (·.name)).Nodup
  groupNames : list.groups.Nodup
  members : ∀ d ∈ list.devices, ∀ group ∈ d.groups, group ∈ list.groups

/-- What the access file names is on the list. -/
structure Sound (f : Files) : Prop where
  list : f.inventory.Whole
  devices : ∀ name ∈ f.access.devices, name ∈ f.inventory.devices.map (·.name)
  groups : ∀ name ∈ f.access.groups, name ∈ f.inventory.groups

namespace Inventory.Whole

variable {lower : String → String} {list list' : Inventory} {name : String} {device : Device}

theorem addDevice (hw : list.Whole) (h : list.addDevice lower device = .ok list') : list'.Whole := by
  obtain ⟨hname, hmembers, hgroups, hperm⟩ := addDevice_eq_ok h
  refine ⟨?_, by rw [hgroups]; exact hw.groupNames, fun d hd group hgroup => ?_⟩
  · rw [(hperm.map (·.name)).nodup_iff]
    exact List.nodup_cons.2 ⟨hname, hw.deviceNames⟩
  · rw [hgroups]
    rcases List.mem_cons.1 (hperm.mem_iff.1 hd) with rfl | hd
    · exact hmembers group hgroup
    · exact hw.members d hd group hgroup

theorem removeDevice (hw : list.Whole) (h : list.removeDevice name = .ok list') : list'.Whole := by
  obtain ⟨before, d, after, hsplit, -, rfl⟩ := removeDevice_eq_ok h
  have hsub : (before ++ after).Sublist list.devices := by
    rw [hsplit]
    exact (List.sublist_cons_self d after).append_left before
  exact ⟨hw.deviceNames.sublist (hsub.map _), hw.groupNames, fun d hd => hw.members d (hsub.subset hd)⟩

theorem addGroup (hw : list.Whole) (h : list.addGroup lower name = .ok list') : list'.Whole := by
  obtain ⟨hname, hdevices, hperm⟩ := addGroup_eq_ok h
  refine ⟨by rw [hdevices]; exact hw.deviceNames, ?_, fun d hd group hgroup => ?_⟩
  · rw [hperm.nodup_iff]
    exact List.nodup_cons.2 ⟨hname, hw.groupNames⟩
  · rw [hdevices] at hd
    exact hperm.mem_iff.2 (List.mem_cons_of_mem _ (hw.members d hd group hgroup))

theorem removeGroup (hw : list.Whole) (h : list.removeGroup name = .ok list') : list'.Whole := by
  rw [removeGroup_eq_ok h]
  refine ⟨?_, hw.groupNames.filter _, fun d hd group hgroup => ?_⟩
  · rw [List.map_map]
    exact hw.deviceNames
  · obtain ⟨d', hd', rfl⟩ := List.mem_map.1 hd
    obtain ⟨hgroup, hne⟩ := List.mem_filter.1 hgroup
    exact List.mem_filter.2 ⟨hw.members d' hd' group hgroup, hne⟩

end Inventory.Whole

section
variable {lower : String → String} {list list' : Inventory} {name name' : String} {device : Device}

theorem addDevice_names (h : list.addDevice lower device = .ok list') :
    name ∈ list'.devices.map (·.name) ↔ name = device.name ∨ name ∈ list.devices.map (·.name) := by
  obtain ⟨-, -, -, hperm⟩ := Inventory.addDevice_eq_ok h
  rw [(hperm.map (·.name)).mem_iff, List.map_cons, List.mem_cons]

theorem removeDevice_names (h : list.removeDevice name = .ok list') (hne : name' ≠ name)
    (hmem : name' ∈ list.devices.map (·.name)) : name' ∈ list'.devices.map (·.name) := by
  obtain ⟨before, d, after, hsplit, hd, rfl⟩ := Inventory.removeDevice_eq_ok h
  rw [hsplit, List.map_append, List.map_cons, List.mem_append, List.mem_cons] at hmem
  rw [List.map_append, List.mem_append]
  rcases hmem with hmem | rfl | hmem
  · exact .inl hmem
  · exact absurd hd hne
  · exact .inr hmem

end

theorem Effect.sound {lower : String → String} {now : OffsetDateTime} {f f' : Files} {call : Call}
    {r : Except ChangeError Unit} (hs : Sound f) (h : Effect lower now f call r f') : Sound f' := by
  cases h with
  | refused | failed => exact hs
  | changed h =>
    obtain ⟨hknown, rfl⟩ := changed_eq_ok h
    refine ⟨hs.list, fun name hname => ?_, fun name hname => ?_⟩
    · rcases AccessFile.mem_devices_set.1 hname with rfl | hname
      · exact Inventory.device_isSome.1 hknown
      · exact hs.devices name hname
    · rcases AccessFile.mem_groups_set.1 hname with rfl | hname
      · exact Inventory.hasGroup_iff.1 hknown
      · exact hs.groups name hname
  | approved request ends who => exact ⟨hs.list, hs.devices, hs.groups⟩
  | deviceAdded h =>
    obtain ⟨-, -, hgroups, -⟩ := Inventory.addDevice_eq_ok h
    refine ⟨hs.list.addDevice h, fun name hname => ?_, fun name hname => ?_⟩
    · exact (addDevice_names h).2 (.inr (hs.devices name hname))
    · simp only [hgroups]
      exact hs.groups name hname
  | deviceRemoved h =>
    refine ⟨hs.list.removeDevice h, fun name' hname => ?_, fun name' hname => ?_⟩
    · obtain ⟨hne, hname⟩ := AList.mem_erase.1 hname
      exact removeDevice_names h hne (hs.devices name' hname)
    · obtain ⟨_, _, _, -, -, rfl⟩ := Inventory.removeDevice_eq_ok h
      exact hs.groups name' hname
  | deviceClosed name =>
    exact ⟨hs.list, fun name' hname => hs.devices name' (AList.mem_erase.1 hname).2, hs.groups⟩
  | groupAdded hname h =>
    obtain ⟨-, hdevices, hperm⟩ := Inventory.addGroup_eq_ok h
    refine ⟨hs.list.addGroup h, fun name hname => ?_, fun name hname => ?_⟩
    · simp only [hdevices]
      exact hs.devices name hname
    · exact hperm.mem_iff.2 (List.mem_cons_of_mem _ (hs.groups name hname))
  | groupRemoved h =>
    refine ⟨hs.list.removeGroup h, fun name' hname => ?_, fun name' hname => ?_⟩
    · rw [Inventory.removeGroup_eq_ok h, List.map_map]
      exact hs.devices name' hname
    · obtain ⟨hne, hname⟩ := AList.mem_erase.1 hname
      rw [Inventory.removeGroup_eq_ok h]
      exact List.mem_filter.2 ⟨hs.groups name' hname, decide_eq_true hne⟩
  | groupClosed name =>
    exact ⟨hs.list, hs.devices, fun name' hname => hs.groups name' (AList.mem_erase.1 hname).2⟩

/-! ## What a call answers for -/

/-- The scope that a call can open. -/
def Call.opens : Call → Option Scope
  | .change scope .. => some scope
  | .approve request .. => some (.request request.id)
  | _ => none

/-- What a call with the result `r` has not done to the files `f`. -/
structure Answered (f : Files) (call : Call) (r : Except ChangeError Unit) (f' : Files) : Prop where
  deviceAdded : ∀ device, call = .addDevice device → r = .ok () →
    f'.access.get (.device device.name) = {}
  groupAdded : ∀ name name', call = .addGroup name → validName name = .ok name' → r = .ok () →
    f'.access.get (.group name') = {}
  refused : ∀ e, r = .error (.inventory e) → f' = f
  opened : ∀ scope, call.opens ≠ some scope →
    (f'.access.get scope).access = (f.access.get scope).access ∨
      (f'.access.get scope).access = .closed

section
variable {f f' : Files} {call : Call}

/-- A scope that is taken out of the file is closed, another is as before. -/
theorem closed_or_kept {stored stored' : Stored} {p : Prop} [Decidable p]
    (h : stored' = if p then {} else stored) :
    stored'.access = stored.access ∨ stored'.access = .closed := by
  rw [h]
  split
  · exact .inr rfl
  · exact .inl rfl

/-- A call that fails has added nothing. -/
theorem Answered.of_error {e : ChangeError} (hrefused : ∀ e', e = .inventory e' → f' = f)
    (hopened : ∀ scope, call.opens ≠ some scope →
      (f'.access.get scope).access = (f.access.get scope).access ∨
        (f'.access.get scope).access = .closed) : Answered f call (.error e) f' where
  deviceAdded _ _ h := by cases h
  groupAdded _ _ _ _ h := by cases h
  refused e' h := hrefused e' (Except.error.inj h)
  opened := hopened

/-- A call that adds nothing. -/
theorem Answered.of_ok (hdevice : ∀ device, call ≠ .addDevice device)
    (hgroup : ∀ name, call ≠ .addGroup name)
    (hopened : ∀ scope, call.opens ≠ some scope →
      (f'.access.get scope).access = (f.access.get scope).access ∨
        (f'.access.get scope).access = .closed) : Answered f call (.ok ()) f' where
  deviceAdded device h := absurd h (hdevice device)
  groupAdded name _ h := absurd h (hgroup name)
  refused _ h := by cases h
  opened := hopened

end

theorem Effect.answered {lower : String → String} {now : OffsetDateTime} {f f' : Files} {call : Call}
    {r : Except ChangeError Unit} (hs : Sound f) (h : Effect lower now f call r f') :
    Answered f call r f' := by
  cases h with
  | refused => exact .of_error (fun _ _ => rfl) fun _ _ => .inl rfl
  | failed => exact .of_error (fun _ h => by cases h) fun _ _ => .inl rfl
  | changed h =>
    obtain ⟨-, rfl⟩ := changed_eq_ok h
    refine .of_ok (fun _ h => by cases h) (fun _ h => by cases h) fun scope hscope => .inl ?_
    rw [AccessFile.get_set_ne]
    rintro rfl
    exact hscope rfl
  | approved request ends who =>
    refine .of_ok (fun _ h => by cases h) (fun _ h => by cases h) fun scope hscope => .inl ?_
    rw [approved_get_ne]
    rintro rfl
    exact hscope rfl
  | deviceAdded h =>
    refine ⟨fun device hcall _ => ?_, fun _ _ hcall => (by cases hcall), fun _ hr => (by cases hr),
      fun _ _ => .inl rfl⟩
    cases hcall
    obtain ⟨hname, -⟩ := Inventory.addDevice_eq_ok h
    exact AccessFile.get_device_of_not_mem fun hmem => hname (hs.devices _ hmem)
  | groupAdded hname h =>
    refine ⟨fun _ hcall => (by cases hcall), fun name name' hcall hname' _ => ?_,
      fun _ hr => (by cases hr), fun _ _ => .inl rfl⟩
    cases hcall
    cases hname.symm.trans hname'
    obtain ⟨hname, -⟩ := Inventory.addGroup_eq_ok h
    exact AccessFile.get_group_of_not_mem fun hmem => hname (hs.groups _ hmem)
  | deviceRemoved =>
    refine .of_ok (fun _ h => by cases h) (fun _ h => by cases h) fun scope _ => ?_
    exact closed_or_kept AccessFile.get_erase_device
  | deviceClosed =>
    refine .of_error (fun _ h => by cases h) fun scope _ => ?_
    exact closed_or_kept AccessFile.get_erase_device
  | groupRemoved =>
    refine .of_ok (fun _ h => by cases h) (fun _ h => by cases h) fun scope _ => ?_
    exact closed_or_kept AccessFile.get_erase_group
  | groupClosed =>
    refine .of_error (fun _ h => by cases h) fun scope _ => ?_
    exact closed_or_kept AccessFile.get_erase_group

/-! ## Runs -/

/-- A call, when it is made and which of its writes fail. -/
structure Made where
  call : Call
  now : OffsetDateTime
  failing : List Bool

/-- How the call ends, and the files after it. -/
def Made.outcome (lower : String → String) (made : Made) (f : Files) :
    Except ChangeError Unit × Files :=
  (made.call.run lower made.now).outcome f made.failing

/-- The files after one call after another. -/
def after (lower : String → String) (f : Files) (calls : List Made) : Files :=
  calls.foldl (fun f made => (made.outcome lower f).2) f

theorem sound_after (lower : String → String) (calls : List Made) (f : Files) (hs : Sound f) :
    Sound (after lower f calls) := by
  induction calls generalizing f with
  | nil => exact hs
  | cons made calls ih => exact ih _ ((run_effect lower made.now made.call f made.failing).sound hs)

theorem sound_empty : Sound {} := by
  refine ⟨⟨.nil, .nil, ?_⟩, ?_, ?_⟩
  · intro d hd
    cases hd
  · intro name hname
    cases hname
  · intro name hname
    cases hname

/-- **The files stay sound**: after any calls from empty files, whichever of their writes failed, and
what every further call answers for. -/
theorem files_stay_sound (lower : String → String) (calls : List Made) :
    Sound (after lower {} calls) ∧
      ∀ made : Made, Answered (after lower {} calls) made.call
        (made.outcome lower (after lower {} calls)).1 (made.outcome lower (after lower {} calls)).2 :=
  have hs : Sound (after lower {} calls) := sound_after lower calls {} sound_empty
  ⟨hs, fun made => (run_effect lower made.now made.call _ made.failing).answered hs⟩

end Connector
