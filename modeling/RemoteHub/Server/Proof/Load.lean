import RemoteHub.Server.Load
import RemoteHub.Model.Proof.TwoRuns

/-!
# What a loaded catalog allows

`load` reads the trees before the grants, so a move it misses and a grant it sees can meet in its
catalog though no state of the database had both (`load_mixes_states`).

The folders' tree and the collections' tree decide apart (`Tree`). `World.pending w r`: what the
`load` has or will have of the table `r`. As long as every change the `load` still sees in a tree is
committed while what it has read of that tree is current (`Orderly`), some state of the run has the
tree of the catalog and at least its grants (`Matches`, `matches_step`), so nothing is allowed that
was allowed in no state (`load_from_state`).
-/

namespace Server.Load

open Model Chain

/-! ## Tables and trees -/

/-- The folders' tree, with devices and login profiles, and the collections', with credentials. -/
inductive Tree
  | folders | collections
  deriving DecidableEq

instance : Fintype Tree := ⟨{.folders, .collections}, fun t => by cases t <;> simp⟩

/-- The tables of a tree. -/
def Tree.tables : Tree → List Read
  | .folders => [.folders, .devices, .profiles]
  | .collections => [.collections, .credentials]

def objectTree : ObjectId → Tree
  | .folder _ | .device _ | .profile _ => .folders
  | .collection _ | .credential _ => .collections

/-- The table with an object's row. -/
def objectTable : ObjectId → Read
  | .folder _ => .folders
  | .collection _ => .collections
  | .device _ => .devices
  | .credential _ => .credentials
  | .profile _ => .profiles

/-- The containers of a tree. -/
def Tree.container : Tree → Uuid → ObjectId
  | .folders => .folder
  | .collections => .collection

/-- The rows of a table: ids with what contains them. -/
def links (objects : Objects) : Read → List (Uuid × Option Uuid)
  | .folders => objects.folders
  | .collections => objects.collections
  | .devices => objects.devices.map fun e => (e.1, some e.2)
  | .credentials => objects.credentials.map fun e => (e.1, some e.2)
  | .profiles => objects.profiles
  | .now | .grants => []

theorem objectTable_mem (o : ObjectId) : objectTable o ∈ (objectTree o).tables := by
  cases o <;> simp [objectTable, objectTree, Tree.tables]

theorem lookup_map_some (l : List (Uuid × Uuid)) (k : Uuid) :
    (l.map fun e => (e.1, some e.2)).reverse.lookup k = (l.reverse.lookup k).map some := by
  rw [← List.map_reverse]
  induction l.reverse with
  | nil => rfl
  | cons e l ih =>
    obtain ⟨a, b⟩ := e
    simp only [List.map_cons, List.lookup_cons, ih]
    cases k == a <;> rfl

/-- The container of an object, read off its table. -/
theorem container_eq_links (objects : Objects) (o : ObjectId) :
    objects.container o =
      ((links objects (objectTable o)).reverse.lookup o.id).join.map (objectTree o).container := by
  cases o with
  | folder | collection | profile => rfl
  | device id | credential id =>
    simp only [Objects.container, objectTable, links, lookup_map_some, ObjectId.id]
    cases List.lookup id _ <;> rfl

theorem has_iff_links (objects : Objects) (o : ObjectId) :
    objects.Has o ↔ o.id ∈ (links objects (objectTable o)).map (·.1) := by
  cases o <;> simp [Objects.Has, objectTable, links, ObjectId.id]

theorem container_tree {objects : Objects} {o p : ObjectId} (h : objects.container o = some p) :
    objectTree p = objectTree o := by
  rw [container_eq_links, Option.map_eq_some_iff] at h
  obtain ⟨id, -, rfl⟩ := h
  cases objectTree o <;> rfl

/-- Everything above an object is in its tree. -/
theorem above_tree {objects : Objects} {o p : ObjectId} (h : Above objects.container o p) :
    objectTree p = objectTree o :=
  h.closed (P := fun p => objectTree p = objectTree o)
    (fun _ _ hx hxy => (container_tree hxy).trans hx) rfl

/-- **The role in a tree needs its tables and its grants only**: the same tables and more grants
keep it. -/
theorem effectiveRole_of_tree {objects objects' : Objects} {grants grants' : List Grant} {now : Int}
    {subject : Subject} {o : ObjectId}
    (hlinks : ∀ r ∈ (objectTree o).tables, links objects r = links objects' r)
    (hgrants : ∀ g ∈ grants, objectTree g.object = objectTree o → g ∈ grants') {r : Role}
    (hr : (Catalog.new objects grants now).effectiveRole subject o = some r) :
    ∃ r', (Catalog.new objects' grants' now).effectiveRole subject o = some r' ∧ r ≤ r' := by
  have hsame (x : ObjectId) (hx : objectTree x = objectTree o) :
      links objects (objectTable x) = links objects' (objectTable x) :=
    hlinks _ (hx ▸ objectTable_mem x)
  refine Catalog.effectiveRole_mono id ?_ (fun g hg => ?_) hr
  · rw [has_iff_links, has_iff_links, hsame o rfl]
    exact id
  · refine ⟨hgrants g hg.mem (above_tree hg.above), hg.live, hg.principal, ?_⟩
    refine hg.above.congr (P := fun x => objectTree x = objectTree o)
      (fun x y hx hxy => (container_tree hxy).trans hx) (fun x hx => ?_) rfl
    rw [container_eq_links, container_eq_links, hsame x hx]

/-! ## What a change does -/

/-- The table a move changes. -/
def Change.table : Change → Option Read
  | .moveFolder .. => some .folders
  | .moveCollection .. => some .collections
  | .moveDevice .. => some .devices
  | .moveCredential .. => some .credentials
  | .moveProfile .. => some .profiles
  | .addGrant .. | .removeGrant .. => none

/-- The tree of the grant an `add_grant` adds. -/
def Change.granted : Change → Option Tree
  | .addGrant _ row => row.object.map objectTree
  | _ => none

/-- A move leaves the other tables as they are. -/
theorem links_apply {c : Change} {r : Read} (h : c.table ≠ some r) (db : Db) :
    links (c.apply db).objects r = links db.objects r := by
  cases c with
  | addGrant id row =>
    simp only [Change.apply]
    split <;> cases r <;> rfl
  | removeGrant => cases r <;> rfl
  | moveFolder | moveCollection | moveDevice | moveCredential | moveProfile =>
    cases r <;> first | rfl | exact absurd rfl h

theorem mem_grantList {db : Db} {g : Grant} :
    g ∈ db.grantList ↔ ∃ id row, db.grants.lookup id = some row ∧ row.grant = some g := by
  simp only [Db.grantList, List.mem_filterMap]
  constructor
  · rintro ⟨⟨id, row⟩, he, hg⟩
    exact ⟨id, row, HashMap.lookup_eq_some.2 he, hg⟩
  · rintro ⟨id, row, he, hg⟩
    exact ⟨⟨id, row⟩, HashMap.lookup_eq_some.1 he, hg⟩

theorem grant_object {row : GrantRow} {g : Grant} (h : row.grant = some g) :
    row.object = some g.object := by
  simp only [GrantRow.grant, Option.pure_def, Option.bind_eq_bind, Option.bind_eq_some_iff] at h
  obtain ⟨o, ho, r, -, hg⟩ := h
  cases hg
  exact ho

/-- The row an `add_grant` changes is on the same object. -/
theorem permanentGrant_object {db : Db} {row : GrantRow} {id : Uuid}
    (h : db.permanentGrant row = some id) :
    ∃ old, db.grants.lookup id = some old ∧ old.object = row.object := by
  unfold Db.permanentGrant at h
  split at h
  · cases h
  · obtain ⟨⟨id', old⟩, hf, rfl⟩ := Option.map_eq_some_iff.1 h
    refine ⟨old, HashMap.lookup_eq_some.2 (List.mem_of_find?_eq_some hf), ?_⟩
    have := List.find?_some hf
    simp only [Bool.and_eq_true, decide_eq_true_eq] at this
    exact this.1.2

/-- A change adds grants in the tree it grants in, and nowhere else. -/
theorem grants_apply {c : Change} {t : Tree} (h : c.granted ≠ some t) {db : Db} {g : Grant}
    (hg : g ∈ (c.apply db).grantList) (ht : objectTree g.object = t) : g ∈ db.grantList := by
  cases c with
  | moveFolder | moveCollection | moveDevice | moveCredential | moveProfile => exact hg
  | removeGrant id =>
    obtain ⟨id', row, hl, hrow⟩ := mem_grantList.1 hg
    refine mem_grantList.2 ⟨id', row, ?_, hrow⟩
    by_cases hid : id' = id
    · subst hid
      simp [Change.apply] at hl
    · rwa [Change.apply, AList.lookup_erase_ne hid] at hl
  | addGrant id row =>
    have hne : ∀ row' : GrantRow, row'.object = row.object → row'.grant ≠ some g := by
      intro row' ho hg'
      rw [grant_object hg'] at ho
      rw [Change.granted, ← ho, Option.map_some, ht] at h
      exact h rfl
    obtain ⟨id', row', hl, hrow⟩ := mem_grantList.1 hg
    refine mem_grantList.2 ⟨id', row', ?_, hrow⟩
    simp only [Change.apply] at hl
    split at hl
    · rename_i id₀ hp
      obtain ⟨old, hold, ho⟩ := permanentGrant_object hp
      rw [HashMap.lookup_modify] at hl
      split at hl
      · subst id'
        rw [hold, Option.map_some, Option.some.injEq] at hl
        subst hl
        exact absurd hrow (hne _ ho)
      · exact hl
    · rw [HashMap.lookup_insert_eq] at hl
      split at hl
      · cases hl
        exact absurd hrow (hne _ rfl)
      · exact hl

/-! ## The invariant -/

namespace World

/-- What the `load` has of a table, or reads next if nothing changes. -/
def pending (w : World) (r : Read) : List (Uuid × Option Uuid) :=
  if r ∈ w.loading.todo then links w.db.objects r else links w.loading.objects r

/-- What the `load` has read of the tree is what the database holds. -/
def Current (w : World) (t : Tree) : Prop :=
  ∀ r ∈ t.tables, w.pending r = links w.db.objects r

instance (w : World) (t : Tree) : Decidable (w.Current t) :=
  inferInstanceAs (Decidable (∀ r ∈ t.tables, _))

end World

/-- The condition on a step: a change that the `load` still sees in a tree, a move in a table it has
not read yet or a grant added, is committed only while what it has read of that tree is current. -/
def Orderly (w : World) : Event → Prop
  | .change c =>
    (∀ r ∈ c.table, r ∈ w.loading.todo → ∀ t, r ∈ Tree.tables t → w.Current t) ∧
      ∀ t ∈ c.granted, w.Current t
  | .tick _ | .read => True

instance : ∀ (w : World) (e : Event), Decidable (Orderly w e)
  | _, .change _ => inferInstanceAs (Decidable (_ ∧ _))
  | _, .tick _ | _, .read => .isTrue trivial

/-- The state `db` has the tables of the tree that the `load` gets, and at least its grants. -/
structure Matches (w : World) (t : Tree) (db : Db) : Prop where
  tables : ∀ r ∈ t.tables, links db.objects r = w.pending r
  grants : ∀ g ∈ w.db.grantList, objectTree g.object = t → g ∈ db.grantList

theorem matches_of_current {w : World} {t : Tree} (h : w.Current t) : Matches w t w.db :=
  ⟨fun r hr => (h r hr).symm, fun _ hg _ => hg⟩

/-- A change of a table of another tree, or of one already read, does not touch what the `load`
gets. -/
theorem pending_change {w : World} {c : Change} {r : Read}
    (h : c.table = some r → r ∉ w.loading.todo) :
    World.pending { w with db := c.apply w.db } r = w.pending r := by
  unfold World.pending
  by_cases hr : r ∈ w.loading.todo
  · rw [if_pos hr, if_pos hr, links_apply fun hc => h hc hr]
  · rw [if_neg hr, if_neg hr]

/-- After a change, the database is current again if it was before and the `load` sees it. -/
theorem current_change {w : World} {c : Change} {t : Tree} (hcur : w.Current t)
    (hseen : ∀ r, c.table = some r → r ∈ t.tables → r ∈ w.loading.todo) :
    World.Current { w with db := c.apply w.db } t := by
  intro r hr
  by_cases hc : c.table = some r
  · rw [World.pending, if_pos (hseen r hc hr)]
  · rw [pending_change fun h => absurd h hc, hcur r hr, links_apply hc]

/-- **A change keeps a matching state**, or the new state is one. -/
theorem matches_change {w : World} {c : Change} {t : Tree} {db : Db} (h : Matches w t db)
    (ho : Orderly w (.change c)) :
    Matches { w with db := c.apply w.db } t db ∨
      Matches { w with db := c.apply w.db } t (c.apply w.db) := by
  by_cases hg : c.granted = some t
  · -- A grant is added in this tree: the new state has everything.
    have hnone : c.table = none := by cases c <;> first | rfl | cases hg
    refine .inr (matches_of_current (current_change (ho.2 t hg) fun r hr => ?_))
    rw [hnone] at hr
    cases hr
  · by_cases hseen : ∃ r, c.table = some r ∧ r ∈ t.tables ∧ r ∈ w.loading.todo
    · -- A move in this tree that the `load` sees.
      obtain ⟨r, hc, hrt, hr⟩ := hseen
      refine .inr (matches_of_current (current_change (ho.1 r hc hr t hrt) fun r' hc' _ => ?_))
      rw [hc] at hc'
      cases hc'
      exact hr
    · refine .inl ⟨fun r hr => ?_, fun g hg' ht => h.grants g (grants_apply hg hg' ht) ht⟩
      rw [pending_change fun hc hin => hseen ⟨r, hc, hr, hin⟩]
      exact h.tables r hr

theorem links_read (l : Loading) (db : Db) (clock : Int) (r r' : Read) :
    links (l.read db clock r).objects r' =
      if r' = r then links db.objects r else links l.objects r' := by
  cases r <;> cases r' <;> rfl

/-- A statement of the `load` gets what was pending. -/
theorem pending_read {w : World} {r : Read} {todo : List Read}
    (htodo : w.loading.todo = r :: todo) (hnd : r ∉ todo) (r' : Read) :
    World.pending { w with loading := { w.loading.read w.db w.clock r with todo } } r' =
      w.pending r' := by
  simp only [World.pending, htodo, List.mem_cons, links_read]
  by_cases hrr : r' = r
  · subst hrr
    simp [hnd]
  · simp [hrr]

/-- How far a running `load` can be: it has read the grants when, and only when, it is done. -/
structure Progress (w : World) : Prop where
  suffix : w.loading.todo <:+ ({} : Loading).todo
  done : w.loading.todo = [] → w.loading.grants = w.db.grantList

theorem Progress.nodup {w : World} (h : Progress w) : w.loading.todo.Nodup :=
  h.suffix.sublist.nodup (by decide)

/-- What a step does. -/
theorem step_cases {w w' : World} {e : Event} (h : w.step e = some w') :
    w.loading.todo ≠ [] ∧
      ((∃ c, e = .change c ∧ w' = { w with db := c.apply w.db }) ∨
        (∃ clock, e = .tick clock ∧ w' = { w with clock }) ∨
        ∃ r todo, e = .read ∧ w.loading.todo = r :: todo ∧
          w' = { w with loading := { w.loading.read w.db w.clock r with todo } }) := by
  unfold World.step at h
  split at h
  · cases h
  · cases h
    exact ⟨by simp [*], .inl ⟨_, rfl, rfl⟩⟩
  · cases h
    exact ⟨by simp [*], .inr (.inl ⟨_, rfl, rfl⟩)⟩
  · cases h
    exact ⟨by simp [*], .inr (.inr ⟨_, _, rfl, ‹_›, rfl⟩)⟩

theorem progress_step {w w' : World} {e : Event} (hp : Progress w) (h : w.step e = some w') :
    Progress w' := by
  obtain ⟨hne, ⟨c, rfl, rfl⟩ | ⟨clock, rfl, rfl⟩ | ⟨r, todo, rfl, htodo, rfl⟩⟩ := step_cases h
  · exact ⟨hp.suffix, fun hd => absurd hd hne⟩
  · exact ⟨hp.suffix, fun hd => absurd hd hne⟩
  · have hs : r :: todo <:+ ({} : Loading).todo := htodo ▸ hp.suffix
    refine ⟨(List.suffix_cons r todo).trans hs, fun hd => ?_⟩
    -- The last statement is the one that reads the grants.
    have hr : r = .grants := by
      simp only at hd
      subst hd
      obtain ⟨pre, hpre⟩ := hs
      have := congrArg List.getLast? hpre
      simpa using this
    subst hr
    rfl

/-! ## Whole runs -/

/-- The property: every role of the finished `load`'s catalog is at most the role in some state the
run went through, judged at the time the `load` read. -/
def FromState (w₀ : World) (es : List Event) (w : World) : Prop :=
  ∀ subject o r, w.loading.catalog.effectiveRole subject o = some r →
    ∃ v r', Run.Visits World.step w₀ es v ∧
      (v.db.catalog w.loading.now).effectiveRole subject o = some r' ∧ r ≤ r'

/-- Some state of the run matches, for each tree. -/
theorem exists_matches {w₀ w : World} {es : List Event} (h0 : w₀.loading = {})
    (hm : Run.Meets World.step Orderly w₀ es) (hr : Run.run World.step w₀ es = some w) :
    Progress w ∧ ∀ t, ∃ v, Run.Visits World.step w₀ es v ∧ Matches w t v.db := by
  refine Run.inv_of_meets (I := fun es w => Progress w ∧
    ∀ t, ∃ v, Run.Visits World.step w₀ es v ∧ Matches w t v.db) ?_ ?_ hm hr
  · refine ⟨⟨by rw [h0], by rw [h0]; simp⟩, fun t => ⟨w₀, .last rfl, ?_⟩⟩
    refine matches_of_current fun r hr => ?_
    rw [World.pending, h0, if_pos]
    cases t <;> revert r <;> decide
  · rintro es u e u' hu ho hstep ⟨hp, hmatch⟩
    refine ⟨progress_step hp hstep, fun t => ?_⟩
    obtain ⟨v, hv, hmv⟩ := hmatch t
    have hu' : Run.run World.step w₀ (es ++ [e]) = some u' := Run.run_concat.2 ⟨u, hu, hstep⟩
    obtain ⟨hne, ⟨c, rfl, rfl⟩ | ⟨clock, rfl, rfl⟩ | ⟨r, todo, rfl, htodo, rfl⟩⟩ := step_cases hstep
    · rcases matches_change hmv ho with h | h
      · exact ⟨v, hv.concat _, h⟩
      · exact ⟨_, .last hu', h⟩
    · exact ⟨v, hv.concat _, ⟨hmv.tables, hmv.grants⟩⟩
    · refine ⟨v, hv.concat _, ⟨fun r' hr' => ?_, hmv.grants⟩⟩
      have hnd := hp.nodup
      rw [htodo] at hnd
      rw [pending_read htodo (List.nodup_cons.1 hnd).1]
      exact hmv.tables r' hr'

/-- **A load allows nothing that was allowed in no state**, in every run whose steps are orderly. -/
theorem load_from_state (w₀ w : World) (es : List Event) (h0 : w₀.loading = {})
    (hm : Run.Meets World.step Orderly w₀ es) (hr : Run.run World.step w₀ es = some w)
    (hdone : w.loading.todo = []) : FromState w₀ es w := by
  intro subject o r hrole
  obtain ⟨hp, hmatch⟩ := exists_matches h0 hm hr
  obtain ⟨v, hv, hmv⟩ := hmatch (objectTree o)
  have hlinks : ∀ r ∈ (objectTree o).tables, links w.loading.objects r = links v.db.objects r := by
    intro r hr
    rw [hmv.tables r hr, World.pending, hdone, if_neg List.not_mem_nil]
  have hgrants : ∀ g ∈ w.loading.grants, objectTree g.object = objectTree o →
      g ∈ v.db.grantList := by
    intro g hg ht
    rw [hp.done hdone] at hg
    exact hmv.grants g hg ht
  obtain ⟨r', hr', hle⟩ := effectiveRole_of_tree hlinks hgrants hrole
  exact ⟨v, r', hv, hr', hle⟩

/-! ## A run of each kind -/

/-- A device in the folder 1, beside the folder 2; nobody has a role. -/
def plainDb : Db where
  folders := .collect [(1, ⟨none, "a", none⟩), (2, ⟨none, "b", none⟩)]
  devices := .collect [(7, ⟨1, "web", .ssh, "web", 22, .ask, none, "", none, .inherit, none, false,
    "", "", 0, .password, {}, {}⟩)]

/-- A permanent `connect` on the folder 1. -/
def connectOnFolder : GrantRow :=
  ⟨some 1, none, none, none, "user", "S-x", "x", .connect, none⟩

def reads (n : Nat) : List Event := List.replicate n .read

/-- `connect` is granted on the folder, the `load` reads the devices, the device leaves the folder:
the catalog is the one before the move. -/
theorem load_from_state_missed_move :
    ∃ w, Run.run World.step { db := plainDb, clock := 0 } (reads 1 ++
        [.change (.addGrant 9 connectOnFolder)] ++ reads 2 ++ [.change (.moveDevice 7 2)] ++
        reads 4) = some w ∧
      FromState { db := plainDb, clock := 0 } (reads 1 ++
        [.change (.addGrant 9 connectOnFolder)] ++ reads 2 ++ [.change (.moveDevice 7 2)] ++
        reads 4) w :=
  ⟨_, rfl, load_from_state _ _ _ rfl (by decide) rfl rfl⟩

/-- The `load` reads the devices, the device leaves the folder, `connect` is granted on the folder,
the `load` reads the grants. -/
def mixedEvents : List Event :=
  reads 3 ++ [.change (.moveDevice 7 2), .change (.addGrant 9 connectOnFolder)] ++ reads 4

/-- **Without the order, the catalog allows what no state allowed**: `connect` on the device. -/
theorem load_mixes_states :
    ¬ ∀ w₀ w es, w₀.loading = {} → Run.run World.step w₀ es = some w → w.loading.todo = [] →
      FromState w₀ es w := by
  intro h
  let x : Subject := ⟨{"S-x"}, false⟩
  obtain ⟨w, hr, hdone, hnow, hrole⟩ : ∃ w,
      Run.run World.step { db := plainDb, clock := 0 } mixedEvents = some w ∧
        w.loading.todo = [] ∧ w.loading.now = 0 ∧
        w.loading.catalog.effectiveRole x (.device 7) = some .connect :=
    ⟨_, rfl, rfl, rfl, by decide⟩
  -- In every state of the run, the device has left the folder or nothing is granted.
  have hnone : ∀ n ≤ 9, ∀ v ∈ Run.run World.step { db := plainDb, clock := 0 }
      (mixedEvents.take n), (v.db.catalog 0).effectiveRole x (.device 7) = none := by
    decide
  obtain ⟨v, r', ⟨es', hp, hv⟩, hr', -⟩ := h _ w mixedEvents rfl hr hdone _ _ _ hrole
  rw [List.prefix_iff_eq_take] at hp
  have hlen : es'.length ≤ 9 := by
    rw [hp, List.length_take]
    exact Nat.min_le_right _ _
  rw [hp] at hv
  rw [hnow, hnone _ hlen v hv] at hr'
  cases hr'

end Server.Load
