import RemoteHub.Model.Catalog
import Mathlib.Order.Bounds.Basic

/-!
# What `effectiveRole` decides

The rows alone say what exists (`Objects.Has`), what contains it (`Objects.container`: the last row
of an object counts) and which grants count for a subject on an object (`Counts`): unexpired, for
one of the subject's SIDs, on the object or something above it. `effectiveRole_eq_max`: the role of
a non-administrator is the greatest role of the grants that count, whatever the rows are.

* `walk_rounds`, `mem_path`: the loop of `path` ends, and lists exactly the object and what lies
  above it.
* `mem_grants_new`: what `Catalog.new` keeps of the grants.
* `mem_roleList`: the roles whose maximum `effectiveRole` takes.
-/

namespace Model

/-! ## The rows -/

namespace Objects

/-- The object has a row. -/
def Has (objects : Objects) : ObjectId → Prop
  | .folder id => id ∈ objects.folders.map (·.1)
  | .collection id => id ∈ objects.collections.map (·.1)
  | .device id => id ∈ objects.devices.map (·.1)
  | .credential id => id ∈ objects.credentials.map (·.1)
  | .profile id => id ∈ objects.profiles.map (·.1)

/-- The container the object's last row names. -/
def container (objects : Objects) : ObjectId → Option ObjectId
  | .folder id => (objects.folders.reverse.lookup id).join.map .folder
  | .collection id => (objects.collections.reverse.lookup id).join.map .collection
  | .device id => (objects.devices.reverse.lookup id).map .folder
  | .credential id => (objects.credentials.reverse.lookup id).map .collection
  | .profile id => (objects.profiles.reverse.lookup id).join.map .folder

instance (objects : Objects) : DecidablePred objects.Has
  | .folder _ | .collection _ | .device _ | .credential _ | .profile _ =>
    inferInstanceAs (Decidable (_ ∈ List.map _ _))

end Objects

/-- The grant counts for the subject on the object. -/
structure Counts (objects : Objects) (grants : List Grant) (now : Int) (subject : Subject)
    (object : ObjectId) (g : Grant) : Prop where
  mem : g ∈ grants
  live : ∀ t, g.runsUntil = some t → now < t
  principal : g.principal ∈ subject.sids
  above : Chain.Above objects.container object g.object

theorem Grant.expired_eq_false {g : Grant} {now : Int} :
    g.expired now = false ↔ ∀ t, g.runsUntil = some t → now < t := by
  cases h : g.runsUntil <;> simp [Grant.expired, h]

namespace Catalog

variable {objects : Objects} {grants : List Grant} {now : Int}

theorem container_new (object : ObjectId) :
    (new objects grants now).container object = objects.container object := by
  cases object <;> simp only [container, new, HashMap.lookup_collect] <;> rfl

theorem contains_new (object : ObjectId) :
    (new objects grants now).contains object = true ↔ objects.Has object := by
  cases object <;> simp only [contains, new, HashMap.mem_collect, decide_eq_true_eq] <;> rfl

/-! ## The path -/

section
variable (c : Catalog)

theorem mem_objects (object : ObjectId) : object ∈ c.objects ↔ c.contains object = true := by
  cases object <;> simp [objects, contains, AList.mem_keys]

/-- Only an object with a row has a container. -/
theorem mem_objects_of_container {object : ObjectId} (h : (c.container object).isSome) :
    object ∈ c.objects := by
  rw [mem_objects]
  cases object with
  | folder id | collection id | profile id =>
    simp only [container, Option.isSome_map, Option.isSome_join] at h
    exact decide_eq_true (AList.lookup_isSome.1 (Option.isSome_of_any h))
  | device id | credential id =>
    simp only [container, Option.isSome_map] at h
    exact decide_eq_true (AList.lookup_isSome.1 h)

/-- **The loop of `path` ends**, on every catalog: `rounds` rounds suffice and more change
nothing. -/
theorem walk_rounds (object : ObjectId) {n : Nat} (hn : c.rounds ≤ n) :
    Chain.walk c.container n [object] ∅ (c.container object) = some (c.path object) := by
  have hends : (Chain.walk c.container c.rounds [object] ∅ (c.container object)).isSome := by
    refine Chain.walk_isSome c.objects.toFinset (fun x hx => ?_) ?_
    · exact List.mem_toFinset.2 (c.mem_objects_of_container hx)
    · rw [Finset.sdiff_empty]
      exact Nat.add_le_add_right (List.toFinset_card_le _) 1
  obtain ⟨out, hout⟩ := Option.isSome_iff_exists.1 hends
  rw [Chain.walk_mono hn hout, path, hout]
  rfl

/-- The object comes first. -/
theorem path_eq_cons (object : ObjectId) :
    ∃ above, c.path object = object :: above ∧
      ∀ o, o ∈ above ↔ Chain.StrictlyAbove c.container object o := by
  have h := c.walk_rounds object (Nat.le_refl _)
  rw [← List.append_nil [object], Chain.walk_append, Option.map_eq_some_iff] at h
  obtain ⟨above, hw, hp⟩ := h
  refine ⟨above, hp.symm, fun o => ?_⟩
  rw [Chain.mem_walk (fun x hx => absurd hx (Finset.notMem_empty x)) (by simp) hw,
    Chain.strictlyAbove_iff]
  simp

/-- **What the path lists**: the object and every container above it. -/
theorem mem_path (object o : ObjectId) :
    o ∈ c.path object ↔ Chain.Above c.container object o := by
  obtain ⟨above, hp, ha⟩ := c.path_eq_cons object
  rw [hp, List.mem_cons, ha, Chain.above_iff_eq_or]

end

/-! ## The grants -/

/-- What is kept of a list of grants, added to `m`. -/
theorem mem_foldl_addGrant (now : Int) (gs : List Grant) (m : HashMap ObjectId (List (String × Role)))
    (o : ObjectId) (p : String) (r : Role) :
    (p, r) ∈ ((gs.foldl (addGrant now) m).lookup o).getD [] ↔
      (p, r) ∈ (m.lookup o).getD [] ∨
        ∃ g ∈ gs, g.expired now = false ∧ g.object = o ∧ g.principal = p ∧ g.role = r := by
  induction gs generalizing m with
  | nil => simp
  | cons g gs ih =>
    rw [List.foldl_cons, ih, List.exists_mem_cons_iff, ← or_assoc]
    refine or_congr_left ?_
    unfold addGrant
    by_cases he : g.expired now = true
    · simp [he]
    · rw [if_neg he, HashMap.getD_lookup_pushAt, List.mem_append]
      refine or_congr_right ?_
      by_cases ho : o = g.object
      · subst ho
        simp [he, eq_comm]
      · simp [ho, Ne.symm ho]

theorem mem_grants_new (o : ObjectId) (p : String) (r : Role) :
    (p, r) ∈ ((new objects grants now).grants.lookup o).getD [] ↔
      ∃ g ∈ grants, g.expired now = false ∧ g.object = o ∧ g.principal = p ∧ g.role = r := by
  have h := mem_foldl_addGrant now grants ∅ o p r
  simpa [new] using h

/-! ## The decision -/

/-- The roles whose maximum `effectiveRole` takes. -/
def roleList (c : Catalog) (subject : Subject) (object : ObjectId) : List Role :=
  (((c.path object).filterMap fun o => c.grants.lookup o).flatten.filter
    fun g => g.1 ∈ subject.sids).map (·.2)

theorem mem_roleList (subject : Subject) (object : ObjectId) (r : Role) :
    r ∈ (new objects grants now).roleList subject object ↔
      ∃ g, Counts objects grants now subject object g ∧ g.role = r := by
  have hc : (new objects grants now).container = objects.container := funext container_new
  simp only [roleList, List.mem_map, List.mem_filter, List.mem_flatten, List.mem_filterMap,
    decide_eq_true_eq]
  constructor
  · rintro ⟨⟨p, r'⟩, ⟨⟨l, ⟨o, ho, hl⟩, hm⟩, hs⟩, rfl⟩
    have hm' : (p, r') ∈ ((new objects grants now).grants.lookup o).getD [] := by rw [hl]; exact hm
    obtain ⟨g, hg, he, rfl, rfl, rfl⟩ := (mem_grants_new o p r').1 hm'
    rw [mem_path, hc] at ho
    exact ⟨g, ⟨hg, Grant.expired_eq_false.1 he, hs, ho⟩, rfl⟩
  · rintro ⟨g, ⟨hg, hl, hs, ha⟩, rfl⟩
    have hm : (g.principal, g.role) ∈ ((new objects grants now).grants.lookup g.object).getD [] :=
      (mem_grants_new _ _ _).2 ⟨g, hg, Grant.expired_eq_false.2 hl, rfl, rfl, rfl⟩
    cases hlk : (new objects grants now).grants.lookup g.object with
    | none => rw [hlk] at hm; simp at hm
    | some l =>
      rw [hlk] at hm
      rw [← hc, ← mem_path] at ha
      exact ⟨(g.principal, g.role), ⟨⟨l, ⟨g.object, ha, hlk⟩, hm⟩, hs⟩, rfl⟩

theorem effectiveRole_of_not_has {subject : Subject} {object : ObjectId}
    (h : ¬ objects.Has object) : (new objects grants now).effectiveRole subject object = none := by
  have hc : (new objects grants now).contains object = false := by
    rw [← Bool.not_eq_true, contains_new]; exact h
  simp [effectiveRole, hc]

theorem effectiveRole_of_admin {subject : Subject} {object : ObjectId} (h : objects.Has object)
    (ha : subject.admin = true) :
    (new objects grants now).effectiveRole subject object = some .manage := by
  simp [effectiveRole, (contains_new object).2 h, ha]

theorem effectiveRole_eq_max? {subject : Subject} {object : ObjectId} (h : objects.Has object)
    (ha : subject.admin = false) :
    (new objects grants now).effectiveRole subject object =
      ((new objects grants now).roleList subject object).max? := by
  have hc : (new objects grants now).contains object = true := (contains_new object).2 h
  unfold effectiveRole
  rw [hc, ha]
  rfl

/-- A role of a non-administrator is the greatest one of the grants that count. -/
theorem effectiveRole_eq_some {subject : Subject} {object : ObjectId} (h : objects.Has object)
    (ha : subject.admin = false) (r : Role) :
    (new objects grants now).effectiveRole subject object = some r ↔
      IsGreatest {r | ∃ g, Counts objects grants now subject object g ∧ g.role = r} r := by
  rw [effectiveRole_eq_max? h ha, List.max?_eq_some_iff]
  simp only [mem_roleList, IsGreatest, mem_upperBounds, Set.mem_ofPred_eq]

theorem effectiveRole_eq_none {subject : Subject} {object : ObjectId} (h : objects.Has object)
    (ha : subject.admin = false) :
    (new objects grants now).effectiveRole subject object = none ↔
      ¬ ∃ g, Counts objects grants now subject object g := by
  rw [effectiveRole_eq_max? h ha, List.max?_eq_none_iff, List.eq_nil_iff_forall_not_mem]
  simp only [mem_roleList, not_exists, not_and]
  exact ⟨fun hn g hg => hn g.role g hg rfl, fun hn _ g hg _ => hn g hg⟩

/-- **`effectiveRole` is the greatest role of the grants that count**: none without a row,
`manage` for an administrator, otherwise the maximum over the unexpired grants for the subject's
SIDs on the object or anything above it; and the loop of `path` ends and lists all of that. -/
theorem effectiveRole_eq_max (objects : Objects) (grants : List Grant) (now : Int)
    (subject : Subject) (object : ObjectId) :
    let c := new objects grants now
    (¬ objects.Has object → c.effectiveRole subject object = none) ∧
    (objects.Has object → subject.admin = true →
      c.effectiveRole subject object = some .manage) ∧
    (objects.Has object → subject.admin = false →
      (∀ r, c.effectiveRole subject object = some r ↔
        IsGreatest {r | ∃ g, Counts objects grants now subject object g ∧ g.role = r} r) ∧
      (c.effectiveRole subject object = none ↔
        ¬ ∃ g, Counts objects grants now subject object g)) ∧
    (∀ n, c.rounds ≤ n →
      Chain.walk c.container n [object] ∅ (c.container object) = some (c.path object)) ∧
    (∀ o, o ∈ c.path object ↔ Chain.Above objects.container object o) := by
  intro c
  refine ⟨effectiveRole_of_not_has, effectiveRole_of_admin, fun h ha => ?_, fun n hn => ?_,
    fun o => ?_⟩
  · exact ⟨effectiveRole_eq_some h ha, effectiveRole_eq_none h ha⟩
  · exact c.walk_rounds object hn
  · rw [mem_path, show c.container = objects.container from funext container_new]

/-- Two folders, each the other's parent. -/
def loopObjects : Objects := { folders := [(1, some 2), (2, some 1)] }

/-- On a loop, a grant on one folder holds for the other one. -/
theorem effectiveRole_loop :
    let grants := [⟨.folder 1, "S-x", .edit, none⟩]
    let x : Subject := ⟨{"S-x"}, false⟩
    (new loopObjects grants 0).effectiveRole x (.folder 2) = some .edit ∧
      (new loopObjects grants 0).effectiveRole x (.folder 3) = none ∧
      (new loopObjects grants 0).effectiveRole { x with admin := true } (.folder 2) =
        some .manage ∧
      (new loopObjects grants 0).path (.folder 2) = [.folder 2, .folder 1, .folder 2] := by
  intro grants x
  refine ⟨?_, ?_, ?_, by decide⟩
  · refine (((effectiveRole_eq_max loopObjects grants 0 x (.folder 2)).2.2.1 (by decide) rfl).1
      .edit).2 ⟨⟨_, ⟨List.mem_singleton.2 rfl, by simp, by decide, ?_⟩, rfl⟩, ?_⟩
    · exact Relation.ReflTransGen.single rfl
    · rintro r ⟨g, hg, rfl⟩
      rw [List.mem_singleton.1 hg.mem]
  · exact (effectiveRole_eq_max loopObjects grants 0 x (.folder 3)).1 (by decide)
  · exact (effectiveRole_eq_max loopObjects grants 0 { x with admin := true } (.folder 2)).2.1
      (by decide) rfl

end Catalog

end Model
