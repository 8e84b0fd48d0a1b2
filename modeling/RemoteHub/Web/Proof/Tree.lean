import RemoteHub.Server.Proof.Above
import RemoteHub.Web.Tree

/-!
# One notion of above

The web client walks up the folders it was shown. What is above a shown folder is shown, so the path it
finds is the folder's chain of parents in the database, to the top (`path_pathTo`); the connector it
shows and the profiles it offers are then those the server decides on (`one_notion_of_above`).
-/

namespace Web.Tree

open Model Server

section
variable {T : Type} [DecidableEq T] {id : T → Uuid} {parentId : T → Option Uuid} {items : List T}

omit [DecidableEq T] in
theorem lookup_byId (hid : ∀ x ∈ items, ∀ y ∈ items, id x = id y → x = y) {k : Uuid} {x : T} :
    (byId id items).lookup k = some x ↔ x ∈ items ∧ id x = k := by
  unfold byId
  rw [HashMap.lookup_collect, ← List.map_reverse]
  have hrows : ∀ l : List T, (∀ x ∈ l, ∀ y ∈ l, id x = id y → x = y) →
      ((l.map fun item => (id item, item)).lookup k = some x ↔ x ∈ l ∧ id x = k) := by
    intro l hl
    induction l with
    | nil => simp
    | cons y l ih =>
      rw [List.map_cons, List.lookup_cons]
      by_cases hk : k = id y
      · simp only [hk, beq_self_eq_true, Option.some.injEq]
        constructor
        · rintro rfl
          exact ⟨List.mem_cons_self, rfl⟩
        · rintro ⟨hx, hxy⟩
          exact (hl x hx y List.mem_cons_self hxy).symm
      · rw [beq_eq_false_iff_ne.2 hk]
        simp only [ih fun a ha b hb => hl a (List.mem_cons_of_mem y ha) b (List.mem_cons_of_mem y hb),
          List.mem_cons]
        constructor
        · rintro ⟨hx, hxk⟩
          exact ⟨.inr hx, hxk⟩
        · rintro ⟨rfl | hx, hxk⟩
          · exact (hk hxk.symm).elim
          · exact ⟨hx, hxk⟩
  rw [hrows items.reverse (by simpa using hid), List.mem_reverse]

/-- The item above one of the list. -/
def above (id : T → Uuid) (parentId : T → Option Uuid) (items : List T) (item : T) : Option T :=
  if item ∈ items then (parentId item).bind (byId id items).lookup else none

theorem above_eq_some (hid : ∀ x ∈ items, ∀ y ∈ items, id x = id y → x = y) {x y : T} :
    above id parentId items x = some y ↔ x ∈ items ∧ y ∈ items ∧ parentId x = some (id y) := by
  unfold above
  rw [Option.ite_none_right_eq_some, Option.bind_eq_some_iff]
  simp only [lookup_byId hid]
  constructor
  · rintro ⟨hx, k, hk, hy, rfl⟩
    exact ⟨hx, hy, hk⟩
  · rintro ⟨hx, hy, hk⟩
    exact ⟨hx, id y, hk, hy, rfl⟩

/-- **What `walk` gives**: the chain from the item to its end, turned round. -/
theorem path_walk (hid : ∀ x ∈ items, ∀ y ∈ items, id x = id y → x = y)
    (h : Chain.Acyclic (above id parentId items)) (start : Option Uuid) :
    Chain.Path (above id parentId items) (start.bind (byId id items).lookup)
      (walk id parentId items start).reverse := by
  have hstart : ∀ x ∈ start.bind (byId id items).lookup, x ∈ items := by
    intro x hx
    obtain ⟨k, -, hk⟩ := Option.bind_eq_some_iff.1 hx
    exact ((lookup_byId hid).1 hk).1
  have hin : ∀ x y, x ∈ items → above id parentId items x = some y → y ∈ items :=
    fun x y _ hxy => ((above_eq_some hid).1 hxy).2.1
  have hends : (Chain.walk (above id parentId items) (items.length + 1) [] ∅
      (start.bind (byId id items).lookup)).isSome := by
    refine Chain.walk_isSome items.toFinset (fun x hx => ?_) ?_
    · obtain ⟨y, hy⟩ := Option.isSome_iff_exists.1 hx
      exact List.mem_toFinset.2 ((above_eq_some hid).1 hy).1
    · rw [Finset.sdiff_empty]
      exact Nat.add_le_add_right (List.toFinset_card_le _) 1
  obtain ⟨out, hout⟩ := Option.isSome_iff_exists.1 hends
  obtain ⟨l, rfl, hl⟩ := h.path_walk (fun y hy => absurd hy (Finset.notMem_empty y)) hout
  have hwalk : Chain.walk (above id parentId items) (items.length + 1) [] ∅
        (start.bind (byId id items).lookup) =
      Chain.walk (fun item => (parentId item).bind (byId id items).lookup) (items.length + 1) [] ∅
        (start.bind (byId id items).lookup) :=
    Chain.walk_congr hin (fun x hx => by rw [above, if_pos hx]) hstart
  unfold walk
  rw [← hwalk, hout]
  exact (List.reverse_reverse _).symm ▸ hl

end

/-! ## Folders -/

variable {db : Db} {caller : Caller} {tree : Server.Tree} {f : TreeFolder}

theorem eq_of_folders (htree : db.tree caller = .ok tree) :
    ∀ x ∈ tree.folders, ∀ y ∈ tree.folders, x.id = y.id → x = y := by
  intro x hx y hy hid
  obtain ⟨row, hrow, -, hxrow⟩ := (Db.mem_tree_folders htree x).1 hx
  obtain ⟨row', hrow', -, hyrow⟩ := (Db.mem_tree_folders htree y).1 hy
  rw [hid, hrow', Option.some.injEq] at hrow
  rw [hxrow, hyrow, hid, hrow]

/-- A folder that is shown has its parent and its connector from its row. -/
theorem row_of_folder (htree : db.tree caller = .ok tree) (hf : f ∈ tree.folders) :
    db.folderParent f.id = f.parentId ∧ db.connectorOf f.id = f.connectorId := by
  obtain ⟨row, hrow, -, hfrow⟩ := (Db.mem_tree_folders htree f).1 hf
  unfold Db.folderParent Db.connectorOf
  rw [hrow]
  exact ⟨(congrArg (·.parentId) hfrow).symm, (congrArg (·.connectorId) hfrow).symm⟩

/-- **What is above a shown folder is shown.** -/
theorem exists_parent (hdb : db.FolderTree) (htree : db.tree caller = .ok tree) (hf : f ∈ tree.folders)
    {p : Uuid} (hp : f.parentId = some p) : ∃ g ∈ tree.folders, g.id = p := by
  obtain ⟨row, hrow, hshown, -⟩ := (Db.mem_tree_folders htree f).1 hf
  have hparent : db.folderParent f.id = some p := (row_of_folder htree hf).1.trans hp
  obtain ⟨above, habove⟩ := Option.isSome_iff_exists.1 (AList.lookup_isSome.2 (hdb.parents _ _ hparent))
  have hup : Chain.Above (db.catalog caller.now).container (.folder f.id) (.folder p) := by
    refine Relation.ReflTransGen.single ?_
    rw [Chain.Up, Db.container_folder, hparent]
    rfl
  have hpshown := (db.catalog caller.now).shown_above caller.subject hshown hup
  let g : TreeFolder :=
    { id := p, parentId := above.parentId, name := above.name,
      role := (db.catalog caller.now).effectiveRole caller.subject (.folder p),
      connectorId := above.connectorId }
  exact ⟨g, (Db.mem_tree_folders htree g).2 ⟨above, habove, hpshown, rfl⟩, rfl⟩

/-- One step up in the tree is one step up in the database. -/
theorem folderParent_above (hdb : db.FolderTree) (htree : db.tree caller = .ok tree)
    (hf : f ∈ tree.folders) : db.folderParent f.id =
      (above TreeFolder.id TreeFolder.parentId tree.folders f).map TreeFolder.id := by
  rw [(row_of_folder htree hf).1]
  cases hp : f.parentId with
  | none => rw [above, if_pos hf, hp]; rfl
  | some p =>
    obtain ⟨g, hg, rfl⟩ := exists_parent hdb htree hf hp
    rw [(above_eq_some (eq_of_folders htree)).2 ⟨hf, hg, hp⟩]
    rfl

theorem acyclic_above (hdb : db.FolderTree) (htree : db.tree caller = .ok tree) :
    Chain.Acyclic (above TreeFolder.id TreeFolder.parentId tree.folders) := by
  intro x hx
  refine hdb.acyclic x.id (Relation.TransGen.lift TreeFolder.id (fun y z hyz => ?_) x x hx)
  have hy := ((above_eq_some (eq_of_folders htree)).1 hyz).1
  show db.folderParent y.id = some z.id
  rw [folderParent_above hdb htree hy, show above _ _ _ y = some z from hyz]
  rfl

/-- **`pathTo`** of a shown folder is its chain of parents, from the top down. -/
theorem path_pathTo (hdb : db.FolderTree) (htree : db.tree caller = .ok tree) (hf : f ∈ tree.folders) :
    Chain.Path db.folderParent (some f.id) ((pathTo tree (some f.id)).reverse.map (·.id)) ∧
      ∀ g ∈ pathTo tree (some f.id), g ∈ tree.folders := by
  have hid := eq_of_folders htree
  have hlookup : (some f.id).bind (byId TreeFolder.id tree.folders).lookup = some f :=
    (lookup_byId hid).2 ⟨hf, rfl⟩
  have hpath := path_walk hid (acyclic_above hdb htree) (some f.id)
  rw [hlookup] at hpath
  have hin : ∀ x y, x ∈ tree.folders →
      above TreeFolder.id TreeFolder.parentId tree.folders x = some y → y ∈ tree.folders :=
    fun x y _ hxy => ((above_eq_some hid).1 hxy).2.1
  refine ⟨hpath.map hin (fun x hx => folderParent_above hdb htree hx) fun x hx => ?_, fun g hg => ?_⟩
  · cases hx
    exact hf
  · obtain ⟨x, hx, hxg⟩ := (hpath.mem_iff g).1 (List.mem_reverse.2 hg)
    cases hx
    exact hxg.closed (P := (· ∈ tree.folders)) hin hf

/-- The folders `pathTo` lists are those that `is_within` finds. -/
theorem mem_pathTo (hdb : db.FolderTree) (htree : db.tree caller = .ok tree) (hf : f ∈ tree.folders)
    (ancestor : Uuid) : ancestor ∈ (pathTo tree (some f.id)).map (·.id) ↔
      (db.catalog caller.now).isWithin f.id ancestor = true := by
  rw [Db.isWithin_iff, ← List.mem_reverse, ← List.map_reverse, (path_pathTo hdb htree hf).1.mem_iff]
  simp

/-- **`folderConnector`** of a shown folder. -/
theorem folderConnector_eq (hdb : db.FolderTree) (htree : db.tree caller = .ok tree)
    (hf : f ∈ tree.folders) : db.folderConnector f.id = some (folderConnector tree (some f.id)) := by
  obtain ⟨hpath, hin⟩ := path_pathTo hdb htree hf
  have hnamed : (pathTo tree (some f.id)).reverse.map (db.connectorOf ·.id) =
      (pathTo tree (some f.id)).reverse.map (·.connectorId) := by
    refine List.map_congr_left fun g hg => ?_
    exact (row_of_folder htree (hin g (List.mem_reverse.1 hg))).2
  have hfirst := congrArg (List.findSome? fun named => named) hnamed
  rw [List.findSome?_map, List.findSome?_map] at hfirst
  rw [Db.folderConnector_iff hdb.acyclic, hpath.nearest hdb.acyclic, List.findSome?_map]
  exact hfirst

/-- **`profilesWithin`** of a shown folder. -/
theorem profilesWithin_eq (hdb : db.FolderTree) (htree : db.tree caller = .ok tree)
    (hf : f ∈ tree.folders) : profilesWithin tree f.id =
      tree.profiles.filter fun p => (inReach (db.catalog caller.now) p.id f.id).isOk := by
  unfold profilesWithin
  refine List.filter_congr fun p hp => ?_
  obtain ⟨row, hrow, -, hfolder, -⟩ := (Db.mem_tree_profiles htree p).1 hp
  have hparent : (db.catalog caller.now).parent (.profile p.id) = p.folderId := by
    rw [Db.parent_profile, hrow, hfolder]
    rfl
  have hmem := fun home => mem_pathTo hdb htree hf home
  unfold inReach Except.refuse
  rw [hparent]
  cases hfolder' : p.folderId with
  | none => rfl
  | some home =>
    simp only [Option.all_some, Option.mem_some_iff, exists_eq_left', hmem home]
    cases (db.catalog caller.now).isWithin f.id home <;> rfl

/-- **One notion of above**, in SQL, in the server and in the web client, on every tree of folders: the
connector of a folder is that of the nearest one that names one, what lies within a folder is the same in
SQL and in the catalog, and of what a user is shown the client finds the same. -/
theorem one_notion_of_above (hdb : db.FolderTree) (now : Int) :
    (∀ folder, (db.folderConnector folder).isSome ∧ ∀ out, db.folderConnector folder = some out ↔
      Chain.Nearest db.folderParent db.connectorOf (some folder) out) ∧
    (∀ mode own folder out, db.deviceConnector mode own folder = some out ↔
      (mode = .connector ∧ out = own) ∨ (mode = .direct ∧ out = none) ∨
        (mode = .inherit ∧ Chain.Nearest db.folderParent db.connectorOf (some folder) out)) ∧
    (∀ folder ∈ db.folders, ∀ ancestor,
      db.folderWithin folder ancestor = (db.catalog now).isWithin folder ancestor) ∧
    ∀ subject, ∃ tree, db.tree ⟨subject, now⟩ = .ok tree ∧ ∀ f ∈ tree.folders,
      db.folderConnector f.id = some (folderConnector tree (some f.id)) ∧
      profilesWithin tree f.id =
        tree.profiles.filter fun p => (inReach (db.catalog now) p.id f.id).isOk := by
  refine ⟨fun folder => ⟨?_, ?_⟩, Db.deviceConnector_iff hdb.acyclic, ?_, fun subject => ?_⟩
  · exact Db.folderConnector_isSome hdb.acyclic folder
  · exact Db.folderConnector_iff hdb.acyclic folder
  · exact fun folder hfolder ancestor => Db.folderWithin_eq_isWithin hdb.parents hfolder
  · obtain ⟨tree, htree⟩ := Db.exists_tree hdb.acyclic ⟨subject, now⟩
    refine ⟨tree, htree, fun f hf => ⟨folderConnector_eq hdb htree hf, ?_⟩⟩
    exact profilesWithin_eq hdb htree hf

/-- A customer's folders, reached through the customer's connector; the helpdesk may only connect to what
is in the innermost. -/
def customer : Db where
  folders := .collect
    [(1, { parentId := none, name := "Nord", connectorId := some 9 }),
      (2, { parentId := some 1, name := "Rack", connectorId := none }),
      (3, { parentId := some 2, name := "Linux", connectorId := none })]
  profiles := .collect
    [(5, { folderId := some 3, name := "root", username := "root", domain := "", secretKind := .password,
           secretVersion := 1, keyInfo := {} })]
  grants := .collect
    [(6, { folderId := some 3, deviceId := none, credentialId := none, collectionId := none,
           principalKind := "group", principalSid := "S-helpdesk", principalName := "Helpdesk",
           role := .connect, expiresAt := none })]
  connectors := {9}

theorem one_notion_of_above_helpdesk : ∃ tree,
    customer.tree ⟨⟨{"S-helpdesk"}, false⟩, 0⟩ = .ok tree ∧
    tree.folders.map (fun f => (f.id, f.role)) = [(3, some .connect), (1, none), (2, none)] ∧
    (∀ f ∈ tree.folders, customer.folderConnector f.id = some (folderConnector tree (some f.id)) ∧
      profilesWithin tree f.id =
        tree.profiles.filter fun p => (inReach (customer.catalog 0) p.id f.id).isOk) ∧
    customer.folderConnector 3 = some (some 9) ∧
    customer.folderWithin 3 1 = (customer.catalog 0).isWithin 3 1 := by
  obtain ⟨-, -, hwithin, hweb⟩ := one_notion_of_above (.of_order (by decide) : customer.FolderTree) 0
  obtain ⟨tree, htree, hfolders⟩ := hweb ⟨{"S-helpdesk"}, false⟩
  have hshown : (customer.tree ⟨⟨{"S-helpdesk"}, false⟩, 0⟩).toOption.map
      (fun tree => tree.folders.map fun f => (f.id, f.role)) =
        some [(3, some .connect), (1, none), (2, none)] := by decide +kernel
  rw [htree] at hshown
  exact ⟨tree, htree, Option.some.inj hshown, hfolders, by decide, hwithin 3 (by decide) 1⟩

end Web.Tree
