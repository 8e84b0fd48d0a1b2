import RemoteHub.Server.Grants
import RemoteHub.Model.Proof.Visible

/-!
# What explains a role

`effectiveRole` takes its maximum over the roles of `reasons` (`effectiveRole_eq_reasons`), and the rows
that are listed for an object are the grants that `grantsAlong` finds: the same ones
(`mem_shown_iff`), and where the object does not lie above itself each as often (`shown_perm`).
-/

namespace Model.Catalog

variable {c : Catalog} {subject : Subject} {object : ObjectId} {now : Int}

/-- The role is the greatest of the reasons'. -/
theorem effectiveRole_eq_reasons (hsubject : subject.admin = false) (hobject : c.contains object = true) :
    c.effectiveRole subject object = ((c.reasons subject object).map (·.2.2)).max? := by
  have hroles : ∀ path : List ObjectId,
      ((path.filterMap fun o => c.grants.lookup o).flatten.filter fun g => g.1 ∈ subject.sids).map (·.2) =
        ((path.flatMap fun on => ((c.grants.lookup on).getD []).map fun g => (on, g.1, g.2)).filter
          fun g => g.2.1 ∈ subject.sids).map (·.2.2) := by
    intro path
    induction path with
    | nil => rfl
    | cons on path ih =>
      rw [List.flatMap_cons, List.filter_append, List.map_append, ← ih, List.filterMap_cons]
      cases c.grants.lookup on with
      | none => rfl
      | some grants =>
        simp only [List.flatten_cons, List.filter_append, List.map_append, Option.getD_some,
          List.filter_map, List.map_map]
        rfl
  rw [effectiveRole, hobject, hsubject, reasons, grantsAlong, ← hroles]
  rfl

theorem reasons_eq_nil (hsubject : subject.admin = false) (hobject : c.contains object = true) :
    c.reasons subject object = [] ↔ c.effectiveRole subject object = none := by
  rw [effectiveRole_eq_reasons hsubject hobject, List.max?_eq_none_iff, List.map_eq_nil_iff]

theorem path_eq (c : Catalog) (object : ObjectId) :
    c.path object = object :: Server.containersAbove c object := by
  have h := c.walk_rounds object (Nat.le_refl _)
  rw [← List.append_nil [object], Chain.walk_append, Option.map_eq_some_iff] at h
  obtain ⟨above, hwalk, hpath⟩ := h
  rw [← hpath, Server.containersAbove, hwalk]
  rfl

/-- The grants that are kept for an object, in their order. -/
theorem lookup_foldl_addGrant (now : Int) (gs : List Grant) (m : HashMap ObjectId (List (String × Role)))
    (o : ObjectId) : ((gs.foldl (addGrant now) m).lookup o).getD [] = (m.lookup o).getD [] ++
      ((gs.filter fun g => !g.expired now).filter (·.object = o)).map fun g => (g.principal, g.role) := by
  induction gs generalizing m with
  | nil => simp
  | cons g gs ih =>
    rw [List.foldl_cons, ih]
    unfold addGrant
    by_cases hexpired : g.expired now = true
    · simp [hexpired]
    · rw [if_neg hexpired, HashMap.getD_lookup_pushAt]
      by_cases ho : g.object = o
      · subst ho
        simp [hexpired]
      · simp [hexpired, ho, Ne.symm ho]

end Model.Catalog

namespace Server

open Model Except

variable {db : Db} {now : Int} {subject : Subject} {kind : String} {id : Uuid} {target : ObjectId}
  {row : GrantRow} {grants : Grants}

/-! ## The catalog's grants -/

/-- What a grant says: where it lies, whom it names and which role it gives. -/
def grantShown (g : Grant) : ObjectId × String × Role := (g.object, g.principal, g.role)

theorem parse_asStr (role : Role) : Role.parse role.asStr = some role := by cases role <;> decide

theorem GrantRow.grant_eq (row : GrantRow) :
    row.grant = row.object.map fun on => ⟨on, row.principalSid, row.role, row.expiresAt⟩ := by
  unfold GrantRow.grant
  rw [parse_asStr]
  cases row.object <;> rfl

theorem grantsAlong_eq (db : Db) (now : Int) (target : ObjectId) : (db.catalog now).grantsAlong target =
    ((db.catalog now).path target).flatMap fun on =>
      ((db.grantList.filter fun g => !g.expired now).filter (·.object = on)).map grantShown := by
  rw [Catalog.grantsAlong]
  refine List.flatMap_congr fun on _ => ?_
  have hkept := Catalog.lookup_foldl_addGrant now db.grantList ∅ on
  rw [AList.lookup_empty, Option.getD_none, List.nil_append] at hkept
  have hlookup : ((db.catalog now).grants.lookup on).getD [] = _ := hkept
  rw [hlookup, List.map_map]
  refine List.map_congr_left fun g hg => ?_
  have hobject := of_decide_eq_true (List.mem_filter.1 hg).2
  rw [← hobject]
  rfl

/-- Grouped by different objects, or filtered by them. -/
theorem flatMap_filter_perm {α β : Type} [DecidableEq β] {bs : List β} (hbs : bs.Nodup) (as : List α) (f : α → β) :
    (bs.flatMap fun b => as.filter (f · = b)).Perm (as.filter (f · ∈ bs)) := by
  induction bs with
  | nil => simp
  | cons b bs ih =>
    obtain ⟨hb, hbs⟩ := List.nodup_cons.1 hbs
    have hsplit := List.filter_append_perm (f · = b) (as.filter (f · ∈ b :: bs))
    have hown : (as.filter (f · ∈ b :: bs)).filter (f · = b) = as.filter (f · = b) := by
      rw [List.filter_filter]
      exact List.filter_congr fun a _ => by simp +contextual
    have hother : (as.filter (f · ∈ b :: bs)).filter (fun a => !decide (f a = b)) = as.filter (f · ∈ bs) := by
      rw [List.filter_filter]
      refine List.filter_congr fun a _ => ?_
      by_cases ha : f a = b
      · simp [ha, hb]
      · simp [ha]
    rw [hown, hother] at hsplit
    rw [List.flatMap_cons]
    exact ((ih hbs).append_left _).trans hsplit

/-! ## The rows that are listed -/

/-- What a row says, if it lies on an object. -/
def GrantRow.shown (row : GrantRow) : Option (ObjectId × String × Role) :=
  row.object.map fun on => (on, row.principalSid, row.role)

/-- The row lies on the target or above it. -/
def GrantRow.lists (row : GrantRow) (path : List ObjectId) : Bool := row.object.any (· ∈ path)

/-- The column that names the object. -/
theorem GrantRow.of_object {on : ObjectId} (h : row.object = some on) :
    match on with
    | .folder id => row.folderId = some id
    | .device id => row.deviceId = some id
    | .credential id => row.credentialId = some id
    | .collection id => row.collectionId = some id
    | .profile _ => False := by
  unfold GrantRow.object grantObject at h
  split at h <;> first | (cases h; assumption) | cases h

theorem mem_containersAbove {c : Catalog} {object on : ObjectId} :
    on ∈ containersAbove c object ↔ Chain.StrictlyAbove c.container object on := by
  obtain ⟨above, hpath, habove⟩ := c.path_eq_cons object
  rw [c.path_eq, List.cons.injEq] at hpath
  rw [hpath.2]
  exact habove on

/-- The wide net of the query holds every row that lies on the target or above it. -/
theorem in_net {c : Catalog} (htarget : objectOf kind id = .ok target)
    (hrow : row.lists (target :: containersAbove c target) = true) :
    (row.folderId.any (· ∈ (containersAbove c target).map ObjectId.id) ||
      row.collectionId.any (· ∈ (containersAbove c target).map ObjectId.id) || row.folderId = some id ||
      row.deviceId = some id || row.credentialId = some id || row.collectionId = some id) = true := by
  obtain ⟨on, hobject, hon⟩ := (Option.any_eq_true ..).1 hrow
  have hcolumn := GrantRow.of_object hobject
  rcases List.mem_cons.1 (of_decide_eq_true hon) with rfl | habove
  · unfold objectOf at htarget
    split at htarget <;> cases htarget <;> simp [show _ = some id from hcolumn]
  · rcases c.strictlyAbove_kind (mem_containersAbove.1 habove) with ⟨id', rfl⟩ | ⟨id', rfl⟩
    · have hnet : row.folderId.any (· ∈ (containersAbove c target).map ObjectId.id) = true := by
        rw [show row.folderId = some id' from hcolumn]
        exact decide_eq_true (List.mem_map.2 ⟨_, habove, rfl⟩)
      simp only [hnet, Bool.true_or]
    · have hnet : row.collectionId.any (· ∈ (containersAbove c target).map ObjectId.id) = true := by
        rw [show row.collectionId = some id' from hcolumn]
        exact decide_eq_true (List.mem_map.2 ⟨_, habove, rfl⟩)
      simp only [hnet, Bool.true_or, Bool.or_true]

/-- The rows that count are the catalog's grants. -/
theorem filterMap_shown (rows : List (Uuid × GrantRow)) (path : List ObjectId) :
    (rows.filter fun row => row.2.lists path && row.2.expiresAt.all (now < ·)).filterMap (·.2.shown) =
      (((rows.filterMap (·.2.grant)).filter fun g => !g.expired now).filter (·.object ∈ path)).map grantShown := by
  induction rows with
  | nil => rfl
  | cons row rows ih =>
    rw [List.filterMap_cons, List.filter_cons, GrantRow.grant_eq]
    cases hobject : row.2.object with
    | none =>
      have hlists : row.2.lists path = false := by rw [GrantRow.lists, hobject]; rfl
      rw [hlists]
      exact ih
    | some on =>
      have hlists : row.2.lists path = decide (on ∈ path) := by rw [GrantRow.lists, hobject]; rfl
      have hlive : row.2.expiresAt.all (fun t => decide (now < t)) =
          !(Grant.mk on row.2.principalSid row.2.role row.2.expiresAt).expired now := by
        cases hends : row.2.expiresAt with
        | none => rfl
        | some t => simp only [Option.all_some, Grant.expired, Option.any_some, ← decide_not, not_le]
      have hshown : row.2.shown = some (grantShown ⟨on, row.2.principalSid, row.2.role, row.2.expiresAt⟩) := by
        rw [GrantRow.shown, hobject]
        rfl
      rw [hlists, hlive, Option.map_some]
      by_cases hon : on ∈ path <;>
        cases hexpired : (Grant.mk on row.2.principalSid row.2.role row.2.expiresAt).expired now <;>
        simp [hon, hexpired, hshown, ih]

/-- The rows on the target, and those above it. -/
theorem sorted_parts (rows : List (Uuid × GrantRow)) (target : ObjectId) (above : List ObjectId) :
    let sorted := rows.filterMap fun row => do
      let on ← row.2.object
      if on = target ∨ on ∈ above then some (decide (on = target), row) else none
    (sorted.partition (·.1)).1.map (·.2) = rows.filter (·.2.lists [target]) ∧
      (sorted.partition (·.1)).2.map (·.2) =
        rows.filter fun row => !row.2.lists [target] && row.2.lists above := by
  simp only [List.partition_eq_filter_filter]
  induction rows with
  | nil => exact ⟨rfl, rfl⟩
  | cons row rows ih =>
    rw [List.filterMap_cons, List.filter_cons, List.filter_cons, GrantRow.lists, GrantRow.lists]
    cases hobject : row.2.object with
    | none => simpa using ih
    | some on =>
      by_cases htarget : on = target
      · simpa [htarget] using ih
      · by_cases habove : on ∈ above
        · simpa [htarget, habove] using ih
        · simpa [htarget, habove] using ih

/-- What `list_grants` went through. -/
theorem listGrants_eq_ok (h : db.listGrants now subject kind id = .ok grants) :
    ∃ target, objectOf kind id = .ok target ∧
      grants.direct = (db.grantRows ((containersAbove (db.catalog now) target).map ObjectId.id) id now).filter
        (·.2.lists [target]) ∧
      grants.inherited = (db.grantRows ((containersAbove (db.catalog now) target).map ObjectId.id) id now).filter
        fun row => !row.2.lists [target] && row.2.lists (containersAbove (db.catalog now) target) := by
  unfold Db.listGrants at h
  obtain ⟨target, htarget, h⟩ := bind_eq_ok.1 h
  obtain ⟨_, -, h⟩ := bind_eq_ok.1 h
  refine ⟨target, htarget, ?_⟩
  rw [← pure_eq_ok.1 h]
  exact sorted_parts _ target (containersAbove (db.catalog now) target)

/-- The table's rows, with their ids. -/
def Db.grantTable (db : Db) : List (Uuid × GrantRow) := db.grants.entries.map fun e => (e.1, e.2)

/-- Each row that counts is listed once. -/
theorem listed_perm (db : Db) (now : Int) {c : Catalog} (htarget : objectOf kind id = .ok target) :
    let rows := db.grantRows ((containersAbove c target).map ObjectId.id) id now
    (rows.filter (·.2.lists [target]) ++
        rows.filter fun row => !row.2.lists [target] && row.2.lists (containersAbove c target)).Perm
      (db.grantTable.filter fun row =>
        row.2.lists (c.path target) && row.2.expiresAt.all (now < ·)) := by
  intro rows
  have hparts := List.filter_append_perm (fun row : Uuid × GrantRow => row.2.lists [target])
    (rows.filter fun row => row.2.lists (target :: containersAbove c target))
  have hcons : ∀ row : GrantRow, row.lists (target :: containersAbove c target) =
      (row.lists [target] || row.lists (containersAbove c target)) := by
    intro row
    unfold GrantRow.lists
    cases row.object with
    | none => rfl
    | some on => simp
  rw [List.filter_filter, List.filter_filter] at hparts
  have hdirect : (rows.filter fun row =>
      row.2.lists [target] && row.2.lists (target :: containersAbove c target)) =
      rows.filter (·.2.lists [target]) :=
    List.filter_congr fun row _ => by rw [hcons]; cases row.2.lists [target] <;> simp
  have hinherited : (rows.filter fun row =>
      !row.2.lists [target] && row.2.lists (target :: containersAbove c target)) =
      rows.filter fun row => !row.2.lists [target] && row.2.lists (containersAbove c target) :=
    List.filter_congr fun row _ => by rw [hcons]; cases row.2.lists [target] <;> simp
  rw [hdirect, hinherited] at hparts
  refine hparts.trans (((List.perm_insertionSort _ _).filter _).trans (.of_eq ?_))
  rw [List.filter_filter, c.path_eq]
  refine List.filter_congr fun row _ => ?_
  cases hlists : row.2.lists (target :: containersAbove c target) with
  | false => rfl
  | true =>
    simp only [in_net htarget hlists, Bool.true_and]

theorem nodup_path {c : Catalog} {object : ObjectId} (h : ¬Chain.StrictlyAbove c.container object object) :
    (c.path object).Nodup := by
  have hwalk := c.walk_rounds object (Nat.le_refl _)
  rw [← List.append_nil [object], Chain.walk_append, Option.map_eq_some_iff] at hwalk
  obtain ⟨above, hwalk, -⟩ := hwalk
  have hnodup := Chain.nodup_walk (fun x hx => absurd hx List.not_mem_nil) .nil hwalk
  rw [c.path_eq, List.nodup_cons, mem_containersAbove]
  refine ⟨h, ?_⟩
  rw [containersAbove, hwalk]
  exact hnodup

theorem shown_perm_live (h : db.listGrants now subject kind id = .ok grants)
    (htarget : objectOf kind id = .ok target) :
    ((grants.direct ++ grants.inherited).filterMap (·.2.shown)).Perm
      (((db.grantList.filter fun g => !g.expired now).filter
        (·.object ∈ (db.catalog now).path target)).map grantShown) := by
  obtain ⟨target', htarget', hdirect, hinherited⟩ := listGrants_eq_ok h
  cases htarget.symm.trans htarget'
  have hrows : db.grantTable.filterMap (·.2.grant) = db.grantList := List.filterMap_map
  rw [← hrows, ← filterMap_shown, hdirect, hinherited]
  exact (listed_perm db now htarget).filterMap _

theorem mem_shown_iff (h : db.listGrants now subject kind id = .ok grants)
    (htarget : objectOf kind id = .ok target) (x : ObjectId × String × Role) :
    x ∈ (grants.direct ++ grants.inherited).filterMap (·.2.shown) ↔
      x ∈ (db.catalog now).grantsAlong target := by
  rw [(shown_perm_live h htarget).mem_iff, grantsAlong_eq]
  simp only [List.mem_map, List.mem_flatMap, List.mem_filter, decide_eq_true_eq]
  constructor
  · rintro ⟨g, ⟨hlive, hpath⟩, rfl⟩
    exact ⟨g.object, hpath, g, ⟨hlive, rfl⟩, rfl⟩
  · rintro ⟨on, hpath, g, ⟨hlive, rfl⟩, rfl⟩
    exact ⟨g, ⟨hlive, hpath⟩, rfl⟩

theorem shown_perm (h : db.listGrants now subject kind id = .ok grants)
    (htarget : objectOf kind id = .ok target)
    (hloop : ¬Chain.StrictlyAbove (db.catalog now).container target target) :
    ((grants.direct ++ grants.inherited).filterMap (·.2.shown)).Perm
      ((db.catalog now).grantsAlong target) := by
  refine (shown_perm_live h htarget).trans ?_
  rw [grantsAlong_eq]
  have hgrouped := flatMap_filter_perm (nodup_path hloop) (db.grantList.filter fun g => !g.expired now)
    (·.object)
  have hmap := hgrouped.map grantShown
  rw [List.map_flatMap] at hmap
  exact hmap.symm

/-- Where the rows lie, and that they are rows of the table. -/
theorem of_listed (h : db.listGrants now subject kind id = .ok grants)
    (htarget : objectOf kind id = .ok target) :
    (∀ row ∈ grants.direct, row.2.object = some target) ∧
      (∀ row ∈ grants.inherited, ∃ on, row.2.object = some on ∧ on ≠ target ∧
        Chain.StrictlyAbove (db.catalog now).container target on) ∧
      (∀ row ∈ grants.direct ++ grants.inherited, db.grants.lookup row.1 = some row.2) ∧
      ((grants.direct ++ grants.inherited).map (·.1)).Nodup := by
  obtain ⟨target', htarget', hdirect, hinherited⟩ := listGrants_eq_ok h
  cases htarget.symm.trans htarget'
  have hperm := listed_perm db now (c := db.catalog now) htarget
  simp only at hperm
  rw [← hdirect, ← hinherited] at hperm
  refine ⟨fun row hrow => ?_, fun row hrow => ?_, fun row hrow => ?_, ?_⟩
  · rw [hdirect] at hrow
    obtain ⟨on, hobject, hon⟩ := (Option.any_eq_true ..).1 (List.mem_filter.1 hrow).2
    rw [hobject, List.mem_singleton.1 (of_decide_eq_true hon)]
  · rw [hinherited] at hrow
    obtain ⟨hother, habove⟩ := Bool.and_eq_true_iff.1 (List.mem_filter.1 hrow).2
    obtain ⟨on, hobject, hon⟩ := (Option.any_eq_true ..).1 habove
    refine ⟨on, hobject, fun heq => ?_, mem_containersAbove.1 (of_decide_eq_true hon)⟩
    rw [GrantRow.lists, hobject, heq] at hother
    simp at hother
  · have hmem := (List.mem_filter.1 (hperm.mem_iff.1 hrow)).1
    obtain ⟨e, he, rfl⟩ := List.mem_map.1 hmem
    exact HashMap.lookup_eq_some.2 he
  · refine (hperm.map (·.1)).nodup_iff.2 ?_
    have htable : (db.grantTable.map (·.1)).Nodup := by
      rw [Db.grantTable, List.map_map]
      exact db.grants.nodupKeys
    exact htable.sublist (List.filter_sublist.map _)

/-- **What explains a role is what decides**: the role is the greatest of the reasons, and the rows that
are listed for an object are the grants along it. -/
theorem explanations_true (c : Catalog) (subject : Subject) (object : ObjectId)
    (hsubject : subject.admin = false) (hobject : c.contains object = true) :
    (c.effectiveRole subject object = ((c.reasons subject object).map (·.2.2)).max? ∧
      (c.reasons subject object = [] ↔ c.effectiveRole subject object = none)) ∧
    ∀ (db : Db) (now : Int) (viewer : Subject) (kind : String) (id : Uuid) (target : ObjectId)
      (grants : Grants), objectOf kind id = .ok target → db.listGrants now viewer kind id = .ok grants →
      (∀ x, x ∈ (grants.direct ++ grants.inherited).filterMap (·.2.shown) ↔
        x ∈ (db.catalog now).grantsAlong target) ∧
      (¬Chain.StrictlyAbove (db.catalog now).container target target →
        ((grants.direct ++ grants.inherited).filterMap (·.2.shown)).Perm
          ((db.catalog now).grantsAlong target)) ∧
      (∀ row ∈ grants.direct, row.2.object = some target) ∧
      (∀ row ∈ grants.inherited, ∃ on, row.2.object = some on ∧ on ≠ target ∧
        Chain.StrictlyAbove (db.catalog now).container target on) ∧
      (∀ row ∈ grants.direct ++ grants.inherited, db.grants.lookup row.1 = some row.2) ∧
      ((grants.direct ++ grants.inherited).map (·.1)).Nodup :=
  ⟨⟨Catalog.effectiveRole_eq_reasons hsubject hobject, Catalog.reasons_eq_nil hsubject hobject⟩,
    fun _ _ _ _ _ _ _ htarget h =>
      ⟨mem_shown_iff h htarget, shown_perm h htarget, of_listed h htarget⟩⟩

/-- A grant of a folder and one of a collection with the folder's id. -/
def folderGrant : GrantRow := ⟨some 1, none, none, none, "group", "S-1-5-21-1", "Staff", .connect, none⟩

def collectionGrant : GrantRow := ⟨none, none, none, some 1, "group", "S-1-5-21-1", "Staff", .manage, none⟩

def deviceGrant : GrantRow := ⟨none, some 7, none, none, "user", "S-1-5-21-2", "alice", .reveal, some 60⟩

def sharedId : Db where
  folders := .collect [(1, ⟨none, "Servers", none⟩)]
  collections := .collect [(1, ⟨none, "Servers"⟩)]
  devices := .collect [(7, ⟨1, "web01", .ssh, "web01", 22, .ask, none, "", none, .inherit, none, false, "", "",
    0, .password, {}, {}⟩)]
  grants := .collect [(11, folderGrant), (12, collectionGrant), (13, deviceGrant)]

theorem explanations_true_shared_id :
    ((sharedId.catalog 0).effectiveRole ⟨{"S-1-5-21-1"}, false⟩ (.device 7) =
      (((sharedId.catalog 0).reasons ⟨{"S-1-5-21-1"}, false⟩ (.device 7)).map (·.2.2)).max?) ∧
    ∀ x, x ∈ [(13, deviceGrant), (11, folderGrant)].filterMap
        (fun row : Uuid × GrantRow => row.2.shown) ↔ x ∈ (sharedId.catalog 0).grantsAlong (.device 7) :=
  have hexplained := explanations_true (sharedId.catalog 0) ⟨{"S-1-5-21-1"}, false⟩ (.device 7) rfl
    (by decide)
  ⟨hexplained.1.1, (hexplained.2 sharedId 0 ⟨∅, true⟩ "device" 7 (.device 7) ⟨[(13, deviceGrant)], [(11, folderGrant)]⟩
    rfl (by decide +kernel)).1⟩

end Server
