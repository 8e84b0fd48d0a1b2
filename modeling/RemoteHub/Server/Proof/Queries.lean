import RemoteHub.Model.Proof.EffectiveRole
import RemoteHub.Server.Queries

/-!
# What the recursive queries compute

All in terms of the chain of parents `Db.folderParent`:

* `mem_foldersBelow`: `devices_below` looks at the folders whose chain leads to the folder.
* `folderConnector_congr`: `folder_connector` reads nothing but the rows on the chain.
* `above_of_folderWithin`, `above_of_isWithin`: what the check in SQL and the check on the loaded
  catalog both say; where every parent exists they say the same (`folderWithin_eq_isWithin`).
-/

namespace Server.Db

open Model

variable {db db' : Db}

/-- The parent a folder's row names. -/
def folderParent (db : Db) (folder : Uuid) : Option Uuid :=
  (db.folders.lookup folder).bind (·.parentId)

/-! ## Below a folder -/

theorem mem_foldersIn {frontier : List Uuid} {x : Uuid} :
    x ∈ db.foldersIn frontier ↔ ∃ b ∈ frontier, db.folderParent x = some b := by
  unfold foldersIn folderParent
  simp only [List.mem_flatMap, List.mem_map, List.mem_filter, decide_eq_true_eq]
  refine exists_congr fun b => and_congr_right fun _ => ?_
  constructor
  · rintro ⟨⟨k, row⟩, ⟨hmem, hrow⟩, rfl⟩
    rw [HashMap.lookup_eq_some.2 hmem]
    exact hrow
  · intro h
    obtain ⟨row, hrow, hp⟩ := Option.bind_eq_some_iff.1 h
    exact ⟨⟨x, row⟩, ⟨HashMap.lookup_eq_some.1 hrow, hp⟩, rfl⟩

theorem mem_belowFrom {n : Nat} {frontier below out : List Uuid}
    (h : db.belowFrom n frontier below = some out) (x : Uuid) :
    x ∈ out ↔ x ∈ below ∨ ∃ b ∈ frontier, Chain.Above db.folderParent x b := by
  induction n generalizing frontier below with
  | zero =>
    cases frontier with
    | nil =>
      cases h
      simp
    | cons b bs => cases h
  | succ n ih =>
    cases frontier with
    | nil =>
      cases h
      simp
    | cons b bs =>
      change db.belowFrom n (db.foldersIn (b :: bs)) (below ++ b :: bs) = some out at h
      rw [ih h, List.mem_append, or_assoc]
      refine or_congr_right ?_
      constructor
      · rintro (hx | ⟨c, hc, hxc⟩)
        · exact ⟨x, hx, .refl x⟩
        · obtain ⟨d, hd, hcd⟩ := mem_foldersIn.1 hc
          exact ⟨d, hd, Relation.ReflTransGen.tail hxc hcd⟩
      · rintro ⟨d, hd, hxd⟩
        -- the last step up to the frontier comes from its level below
        rcases Relation.ReflTransGen.cases_tail hxd with rfl | ⟨c, hxc, hcd⟩
        · exact .inl hd
        · exact .inr ⟨c, mem_foldersIn.2 ⟨d, hd, hcd⟩, hxc⟩

/-- **The folders below a folder**: those whose chain of parents leads to it. -/
theorem mem_foldersBelow {folder : Uuid} {below : List Uuid}
    (h : db.foldersBelow folder = some below) (x : Uuid) :
    x ∈ below ↔ folder ∈ db.folders ∧ Chain.Above db.folderParent x folder := by
  unfold foldersBelow at h
  rw [mem_belowFrom h]
  by_cases hf : folder ∈ db.folders <;> simp [hf]

/-! ## The connector of a folder -/

/-- **Only the rows on the chain count**, and only as far as the chain goes. -/
theorem folderConnectorFrom_congr {P : Uuid → Prop} {n : Nat} {x : Option Uuid}
    (hrows : ∀ y, P y → db.folders.lookup y = db'.folders.lookup y)
    (hP : ∀ y z, P y → db.folderParent y = some z → P z) (hx : ∀ y ∈ x, P y) :
    db.folderConnectorFrom n x = db'.folderConnectorFrom n x := by
  induction n generalizing x with
  | zero => cases x <;> rfl
  | succ n ih =>
    cases x with
    | none => rfl
    | some y =>
      have hy := hx y rfl
      unfold folderConnectorFrom
      rw [← hrows y hy]
      cases hrow : db.folders.lookup y with
      | none => rfl
      | some row =>
        cases hc : row.connectorId with
        | some c => simp [hc]
        | none =>
          simp only [hc]
          refine ih fun z hz => hP y z hy ?_
          unfold folderParent
          rw [hrow]
          exact hz

theorem folderConnector_congr {a folder : Uuid}
    (hrows : ∀ y, y ≠ a → db.folders.lookup y = db'.folders.lookup y)
    (hrounds : db.folderRounds = db'.folderRounds)
    (hnot : ¬Chain.Above db.folderParent folder a) :
    db.folderConnector folder = db'.folderConnector folder := by
  unfold folderConnector
  rw [hrounds]
  refine folderConnectorFrom_congr (P := fun y => ¬Chain.Above db.folderParent y a) ?_ ?_ ?_
  · intro y hy
    apply hrows
    rintro rfl
    exact hy (.refl y)
  · intro y z hy hyz hz
    exact hy (Relation.ReflTransGen.head hyz hz)
  · intro y hy
    cases hy
    exact hnot

/-! ## Within a folder -/

theorem folderUp_eq_some {x y : Uuid} :
    db.folderUp x = some y ↔ db.folderParent x = some y ∧ y ∈ db.folders := by
  unfold folderUp folderParent
  rw [Option.filter_eq_some_iff]
  simp

/-- The loop of `folder_within` ends. -/
theorem foldersUp_isSome (folder : Uuid) : (db.foldersUp folder).isSome := by
  refine Chain.walk_isSome db.folders.keys.toFinset ?_ ?_
  · intro x hx
    obtain ⟨y, hy⟩ := Option.isSome_iff_exists.1 hx
    obtain ⟨row, hrow, -⟩ := Option.bind_eq_some_iff.1 (folderUp_eq_some.1 hy).1
    rw [List.mem_toFinset, ← AList.mem_keys]
    exact AList.lookup_isSome.1 (by rw [hrow]; rfl)
  · rw [Finset.sdiff_empty]
    exact Nat.add_le_add_right (List.toFinset_card_le _) 1

/-- **`folder_within`**: the ancestor is on the folder's chain of existing rows. -/
theorem folderWithin_iff {folder ancestor : Uuid} :
    db.folderWithin folder ancestor = true ↔
      folder ∈ db.folders ∧ Chain.Above db.folderUp folder ancestor := by
  obtain ⟨out, hout⟩ := Option.isSome_iff_exists.1 (db.foldersUp_isSome folder)
  unfold folderWithin
  rw [hout, Option.getD_some, decide_eq_true_eq]
  unfold foldersUp at hout
  rw [Chain.mem_walk (fun x hx => absurd hx (Finset.notMem_empty x)) (by simp) hout]
  simp only [List.not_mem_nil, false_or, Option.filter_eq_some_iff, decide_eq_true_eq]
  constructor
  · rintro ⟨x, ⟨hx, hmem⟩, h⟩
    cases hx
    exact ⟨hmem, h⟩
  · rintro ⟨hmem, h⟩
    exact ⟨folder, ⟨rfl, hmem⟩, h⟩

theorem above_of_folderWithin {folder ancestor : Uuid}
    (h : db.folderWithin folder ancestor = true) :
    Chain.Above db.folderParent folder ancestor :=
  (folderWithin_iff.1 h).2.mono fun _ _ hxy => (folderUp_eq_some.1 hxy).1

/-! ## On the loaded catalog -/

theorem lookup_folderLinks (x : Uuid) :
    db.folderLinks.reverse.lookup x = (db.folders.lookup x).map (·.parentId) := by
  rw [← HashMap.lookup_collect, folderLinks, HashMap.lookup_collect_entries]

theorem container_folder {now : Int} (x : Uuid) :
    (db.catalog now).container (.folder x) = (db.folderParent x).map .folder := by
  show (Catalog.new db.objects db.grantList now).container (.folder x) = _
  rw [Catalog.container_new]
  show (db.folderLinks.reverse.lookup x).join.map ObjectId.folder = _
  rw [lookup_folderLinks, folderParent]
  cases db.folders.lookup x <;> rfl

/-- **`is_within`**: the ancestor is on the folder's chain of parents. -/
theorem isWithin_iff {now : Int} {folder ancestor : Uuid} :
    (db.catalog now).isWithin folder ancestor = true ↔
      Chain.Above db.folderParent folder ancestor := by
  unfold Catalog.isWithin
  rw [decide_eq_true_eq, Catalog.mem_path, Chain.above_map container_folder]
  simp

/-- The parent a collection's row names. -/
def collectionParent (db : Db) (collection : Uuid) : Option Uuid :=
  (db.collections.lookup collection).bind (·.parentId)

theorem container_collection {now : Int} (x : Uuid) :
    (db.catalog now).container (.collection x) = (db.collectionParent x).map .collection := by
  show (Catalog.new db.objects db.grantList now).container (.collection x) = _
  rw [Catalog.container_new]
  show (db.collectionLinks.reverse.lookup x).join.map ObjectId.collection = _
  rw [← HashMap.lookup_collect, collectionLinks, HashMap.lookup_collect_entries, collectionParent]
  cases db.collections.lookup x <;> rfl

/-- **`is_within_collection`**: the ancestor is on the collection's chain of parents. -/
theorem isWithinCollection_iff {now : Int} {collection ancestor : Uuid} :
    (db.catalog now).isWithinCollection collection ancestor = true ↔
      Chain.Above db.collectionParent collection ancestor := by
  unfold Catalog.isWithinCollection
  rw [decide_eq_true_eq, Catalog.mem_path, Chain.above_map container_collection]
  simp

/-- Where every folder's parent exists, both checks are the same. -/
theorem folderWithin_eq_isWithin {now : Int} {folder ancestor : Uuid}
    (hparents : ∀ x y, db.folderParent x = some y → y ∈ db.folders) (hfolder : folder ∈ db.folders) :
    db.folderWithin folder ancestor = (db.catalog now).isWithin folder ancestor := by
  rw [Bool.eq_iff_iff, folderWithin_iff, isWithin_iff]
  constructor
  · rintro ⟨-, h⟩
    exact h.mono fun x y hxy => (folderUp_eq_some.1 hxy).1
  · intro h
    exact ⟨hfolder, h.mono fun x y hxy => folderUp_eq_some.2 ⟨hxy, hparents x y hxy⟩⟩

/-- The folder a profile lies in, on the loaded catalog. -/
theorem parent_profile {now : Int} (profile : Uuid) :
    (db.catalog now).parent (.profile profile) = (db.profiles.lookup profile).bind (·.folderId) := by
  unfold Catalog.parent
  show ((Catalog.new db.objects db.grantList now).container _).map _ = _
  rw [Catalog.container_new]
  show ((db.profileLinks.reverse.lookup profile).join.map ObjectId.folder).map ObjectId.id = _
  rw [← HashMap.lookup_collect, profileLinks, HashMap.lookup_collect_entries]
  cases h : db.profiles.lookup profile with
  | none => rfl
  | some row => cases hf : row.folderId <;> simp [hf, ObjectId.id]

end Server.Db
