import RemoteHub.Lib.Nearest
import RemoteHub.Model.Proof.Visible
import RemoteHub.Server.Proof.Ends
import RemoteHub.Server.Tree

/-!
# What is above a folder

`folder_connector` gives the connector of the nearest folder above that names one
(`folderConnector_iff`), and `device_connector` that or the device's own (`reachedThrough_iff`). What a
user is shown has a row, with their role on it or on the way to something with a role
(`mem_tree_folders` and its siblings).
-/

namespace Server.Db

open Model Except

variable {db : Db}

/-- The connector a folder names. -/
def connectorOf (db : Db) (folder : Uuid) : Option Uuid :=
  (db.folders.lookup folder).bind (·.connectorId)

/-- The folders form a tree: no loops, and every parent exists (`parent_id REFERENCES folders`). -/
structure FolderTree (db : Db) : Prop where
  acyclic : Chain.Acyclic db.folderParent
  parents : ∀ x y, db.folderParent x = some y → y ∈ db.folders

/-- Parents with smaller ids form no loop. -/
theorem FolderTree.of_order (h : ∀ e ∈ db.folders.entries,
    e.2.parentId.all fun p => p.toNat < e.1.toNat ∧ p ∈ db.folders) : db.FolderTree := by
  have hparent : ∀ x y, db.folderParent x = some y → y.toNat < x.toNat ∧ y ∈ db.folders := by
    intro x y hxy
    obtain ⟨row, hrow, hp⟩ := Option.bind_eq_some_iff.1 hxy
    have hrow := h ⟨x, row⟩ (HashMap.lookup_eq_some.1 hrow)
    simpa only [hp, Option.all_some, decide_eq_true_eq] using hrow
  exact ⟨.of_lt BitVec.toNat fun x y hxy => (hparent x y hxy).1, fun x y hxy => (hparent x y hxy).2⟩

/-! ## Connectors -/

theorem nearest_of_folderConnectorFrom (h : Chain.Acyclic db.folderParent) {n : Nat} {start : Option Uuid}
    {out : Option Uuid} (hout : db.folderConnectorFrom n start = some out) :
    Chain.Nearest db.folderParent db.connectorOf start out := by
  induction n generalizing start with
  | zero =>
    cases start with
    | none =>
      cases hout
      exact Chain.nearest_none.2 rfl
    | some folder => cases hout
  | succ n ih =>
    cases start with
    | none =>
      cases hout
      exact Chain.nearest_none.2 rfl
    | some folder =>
      have hnamed : db.connectorOf folder = (db.folders.lookup folder).bind (·.connectorId) := rfl
      have hparent : db.folderParent folder = (db.folders.lookup folder).bind (·.parentId) := rfl
      rw [folderConnectorFrom] at hout
      cases hrow : db.folders.lookup folder with
      | none =>
        simp only [hrow] at hout hnamed hparent
        cases hout
        rw [Chain.nearest_of_none hnamed, hparent]
        exact Chain.nearest_none.2 rfl
      | some row =>
        simp only [hrow, Option.bind_some] at hout hnamed hparent
        cases hc : row.connectorId with
        | some c =>
          simp only [hc] at hout
          cases hout
          exact (Chain.nearest_of_value h (hnamed.trans hc)).2 rfl
        | none =>
          simp only [hc] at hout
          rw [Chain.nearest_of_none (hnamed.trans hc), hparent]
          exact ih hout

theorem folderConnectorFrom_isSome_of_acyclic (h : Chain.Acyclic db.folderParent) (start : Option Uuid) :
    (db.folderConnectorFrom db.folderRounds start).isSome := by
  cases start with
  | none => rfl
  | some folder => exact folderConnector_isSome h folder

/-- **What is passed on from `start`**: the connector of the nearest folder that names one. -/
theorem folderConnectorFrom_iff (h : Chain.Acyclic db.folderParent) (start out : Option Uuid) :
    db.folderConnectorFrom db.folderRounds start = some out ↔
      Chain.Nearest db.folderParent db.connectorOf start out := by
  refine ⟨nearest_of_folderConnectorFrom h, fun hout => ?_⟩
  obtain ⟨out', hout'⟩ := Option.isSome_iff_exists.1 (folderConnectorFrom_isSome_of_acyclic h start)
  rw [hout', (nearest_of_folderConnectorFrom h hout').unique hout]

/-- **`folder_connector`**. -/
theorem folderConnector_iff (h : Chain.Acyclic db.folderParent) (folder : Uuid) (out : Option Uuid) :
    db.folderConnector folder = some out ↔
      Chain.Nearest db.folderParent db.connectorOf (some folder) out :=
  folderConnectorFrom_iff h (some folder) out

/-- **`device_connector`** follows the mode. -/
theorem deviceConnector_iff (h : Chain.Acyclic db.folderParent) (mode : ConnectorMode)
    (own : Option Uuid) (folder : Uuid) (out : Option Uuid) :
    db.deviceConnector mode own folder = some out ↔
      (mode = .connector ∧ out = own) ∨ (mode = .direct ∧ out = none) ∨
        (mode = .inherit ∧ Chain.Nearest db.folderParent db.connectorOf (some folder) out) := by
  unfold deviceConnector
  cases mode with
  | connector => simp [eq_comm]
  | direct => simp [eq_comm]
  | inherit => simp [folderConnector_iff h]

theorem reachedThrough_isSome (h : Chain.Acyclic db.folderParent) (d : DeviceRow) :
    (db.reachedThrough d).isSome := by
  unfold reachedThrough deviceConnector
  cases d.connectorMode with
  | inherit => exact folderConnector_isSome h _
  | direct => rfl
  | connector => rfl

/-! ## The tree -/

theorem mem_rowsByName {ρ : Type} {table : Table ρ} {name : ρ → String} {id : Uuid} {row : ρ} :
    (id, row) ∈ rowsByName table name ↔ table.lookup id = some row := by
  unfold rowsByName
  rw [List.mem_insertionSort, HashMap.lookup_eq_some, List.mem_map]
  constructor
  · rintro ⟨e, he, heq⟩
    cases heq
    exact he
  · intro h
    exact ⟨⟨id, row⟩, h, rfl⟩

theorem exists_mapM_of_forall {α β : Type} {g : α → Answer β} {xs : List α}
    (h : ∀ x ∈ xs, ∃ y, g x = .ok y) : ∃ ys, xs.mapM g = .ok ys := by
  cases hxs : xs.mapM g with
  | ok ys => exact ⟨ys, rfl⟩
  | error e =>
    obtain ⟨x, hx, he⟩ := exists_error_of_mapM hxs
    obtain ⟨y, hy⟩ := h x hx
    cases he.symm.trans hy

section
variable {caller : Caller} {tree : Tree}

/-- The tree is given where the folders form one. -/
theorem exists_tree (h : Chain.Acyclic db.folderParent) (caller : Caller) :
    ∃ tree, db.tree caller = .ok tree := by
  have hreached : ∀ e ∈ rowsByName db.devices (·.name), ∃ y,
      (do return (e, ← ends (db.reachedThrough e.2)) : Answer _) = .ok y := by
    intro e _
    obtain ⟨c, hc⟩ := Option.isSome_iff_exists.1 (reachedThrough_isSome h e.2)
    exact ⟨(e, c), by rw [hc]; rfl⟩
  obtain ⟨devices, hdevices⟩ := exists_mapM_of_forall hreached
  unfold Db.tree
  dsimp only
  rw [hdevices]
  exact ⟨_, rfl⟩

theorem mem_tree_folders (h : db.tree caller = .ok tree) (f : TreeFolder) :
    f ∈ tree.folders ↔ ∃ row, db.folders.lookup f.id = some row ∧
      ((db.catalog caller.now).visible caller.subject).Shown (.folder f.id) ∧
      f = { id := f.id, parentId := row.parentId, name := row.name,
            role := (db.catalog caller.now).effectiveRole caller.subject (.folder f.id),
            connectorId := row.connectorId } := by
  obtain ⟨devices, -, h⟩ := bind_eq_ok.1 h
  cases h
  have hshown (id : Uuid) : ((db.catalog caller.now).visible caller.subject).Shown (.folder id) ↔
      (((db.catalog caller.now).visible caller.subject).roles.lookup (.folder id)).isSome ∨
        id ∈ ((db.catalog caller.now).visible caller.subject).pathOnly := by
    rw [AList.lookup_isSome]
    rfl
  simp only [List.mem_filterMap, Option.ite_none_right_eq_some, ← hshown, Option.some.injEq]
  constructor
  · rintro ⟨⟨id, row⟩, hrow, hs, rfl⟩
    exact ⟨row, mem_rowsByName.1 hrow, hs, by rw [Catalog.lookup_visible_roles]⟩
  · rintro ⟨row, hrow, hs, hf⟩
    refine ⟨(f.id, row), mem_rowsByName.2 hrow, hs, ?_⟩
    rw [hf, Catalog.lookup_visible_roles]

theorem mem_tree_devices (h : db.tree caller = .ok tree) (d : TreeDevice) :
    d ∈ tree.devices ↔ ∃ row, db.devices.lookup d.id = some row ∧
      (db.catalog caller.now).effectiveRole caller.subject (.device d.id) = some d.role ∧
      db.reachedThrough row = some d.reachedThrough ∧ d.folderId = row.folderId ∧ d.name = row.name := by
  obtain ⟨devices, hdevices, h⟩ := bind_eq_ok.1 h
  cases h
  have hmem (e : Uuid × DeviceRow) (c : Option Uuid) : (e, c) ∈ devices ↔
      e ∈ rowsByName db.devices (·.name) ∧ db.reachedThrough e.2 = some c := by
    rw [mem_mapM hdevices]
    constructor
    · rintro ⟨e', he', h⟩
      obtain ⟨c', hc', h⟩ := bind_eq_ok.1 h
      cases h
      exact ⟨he', ends_eq_ok.1 hc'⟩
    · rintro ⟨he, hc⟩
      exact ⟨e, he, by rw [hc]; rfl⟩
  simp only [List.mem_filterMap, Option.map_eq_some_iff, Catalog.lookup_visible_roles]
  constructor
  · rintro ⟨⟨⟨id, row⟩, c⟩, he, role, hrole, rfl⟩
    obtain ⟨hrow, hc⟩ := (hmem _ _).1 he
    exact ⟨row, mem_rowsByName.1 hrow, hrole, hc, rfl, rfl⟩
  · rintro ⟨row, hrow, hrole, hc, hfolder, hname⟩
    refine ⟨((d.id, row), d.reachedThrough), (hmem _ _).2 ⟨mem_rowsByName.2 hrow, hc⟩, d.role, hrole, ?_⟩
    rw [← hfolder, ← hname]

theorem mem_tree_profiles (h : db.tree caller = .ok tree) (p : TreeProfile) :
    p ∈ tree.profiles ↔ ∃ row, db.profiles.lookup p.id = some row ∧
      (db.catalog caller.now).effectiveRole caller.subject (.profile p.id) = some p.role ∧
      p.folderId = row.folderId ∧ p.name = row.name := by
  obtain ⟨devices, -, h⟩ := bind_eq_ok.1 h
  cases h
  simp only [List.mem_filterMap, Option.map_eq_some_iff, Catalog.lookup_visible_roles]
  constructor
  · rintro ⟨⟨id, row⟩, hrow, role, hrole, rfl⟩
    exact ⟨row, mem_rowsByName.1 hrow, hrole, rfl, rfl⟩
  · rintro ⟨row, hrow, hrole, hfolder, hname⟩
    refine ⟨(p.id, row), mem_rowsByName.2 hrow, p.role, hrole, ?_⟩
    rw [← hfolder, ← hname]

theorem mayCreateTopLevel_tree (h : db.tree caller = .ok tree) :
    tree.mayCreateTopLevel = caller.subject.admin := by
  obtain ⟨devices, -, h⟩ := bind_eq_ok.1 h
  cases h
  rfl

end

end Server.Db
