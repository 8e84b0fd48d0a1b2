import RemoteHub.Model.Proof.EffectiveRole

/-!
# What `visible` lists

`visible` is a bulk computation of its own: a pass over all objects for the roles, and a pass over
all chains for the containers shown only as the way to something (path only). `visible_eq_decision`:
it shows exactly what the decision for each object shows, on every catalog.

* `lookup_visibleRoles`: the roles are those of `effectiveRole`.
* `foldl_showAncestor_*`: what the inner loop adds to each set, for any list of ancestors.
* `Visibility.Shown`: with a role or path only; closed upwards (`shown_above`).
-/

namespace Model

open Chain

namespace Visibility

/-- The object is shown, with a role or path only. -/
def Shown (v : Visibility) : ObjectId → Prop
  | .folder id => .folder id ∈ v.roles ∨ id ∈ v.pathOnly
  | .collection id => .collection id ∈ v.roles ∨ id ∈ v.collectionsPathOnly
  | .device id => .device id ∈ v.roles
  | .credential id => .credential id ∈ v.roles
  | .profile id => .profile id ∈ v.roles

/-! ## The inner loop -/

theorem showAncestor_roles (v : Visibility) (a : ObjectId) : (v.showAncestor a).roles = v.roles := by
  unfold showAncestor
  split
  · rfl
  · cases a <;> rfl

theorem mem_showAncestor_pathOnly (v : Visibility) (a : ObjectId) (id : Uuid) :
    id ∈ (v.showAncestor a).pathOnly ↔
      id ∈ v.pathOnly ∨ (a = .folder id ∧ .folder id ∉ v.roles) := by
  unfold showAncestor
  split
  · refine ⟨.inl, ?_⟩
    rintro (h | ⟨rfl, h⟩)
    · exact h
    · exact absurd ‹_› h
  · cases a with
    | folder id' =>
      simp only [Finset.mem_insert, ObjectId.folder.injEq]
      grind
    | device | credential | collection | profile => simp

theorem mem_showAncestor_collectionsPathOnly (v : Visibility) (a : ObjectId) (id : Uuid) :
    id ∈ (v.showAncestor a).collectionsPathOnly ↔
      id ∈ v.collectionsPathOnly ∨ (a = .collection id ∧ .collection id ∉ v.roles) := by
  unfold showAncestor
  split
  · refine ⟨.inl, ?_⟩
    rintro (h | ⟨rfl, h⟩)
    · exact h
    · exact absurd ‹_› h
  · cases a with
    | collection id' =>
      simp only [Finset.mem_insert, ObjectId.collection.injEq]
      grind
    | device | credential | folder | profile => simp

theorem foldl_showAncestor_roles (l : List ObjectId) (v : Visibility) :
    (l.foldl showAncestor v).roles = v.roles := by
  induction l generalizing v with
  | nil => rfl
  | cons a l ih => rw [List.foldl_cons, ih, showAncestor_roles]

theorem foldl_showAncestor_pathOnly (l : List ObjectId) (v : Visibility) (id : Uuid) :
    id ∈ (l.foldl showAncestor v).pathOnly ↔
      id ∈ v.pathOnly ∨ (.folder id ∈ l ∧ .folder id ∉ v.roles) := by
  induction l generalizing v with
  | nil => simp
  | cons a l ih =>
    rw [List.foldl_cons, ih, mem_showAncestor_pathOnly, showAncestor_roles, List.mem_cons, or_assoc,
      ← or_and_right, eq_comm]

theorem foldl_showAncestor_collectionsPathOnly (l : List ObjectId) (v : Visibility) (id : Uuid) :
    id ∈ (l.foldl showAncestor v).collectionsPathOnly ↔
      id ∈ v.collectionsPathOnly ∨ (.collection id ∈ l ∧ .collection id ∉ v.roles) := by
  induction l generalizing v with
  | nil => simp
  | cons a l ih =>
    rw [List.foldl_cons, ih, mem_showAncestor_collectionsPathOnly, showAncestor_roles,
      List.mem_cons, or_assoc, ← or_and_right, eq_comm]

end Visibility

namespace Catalog

variable (c : Catalog) (subject : Subject)

/-! ## The two passes -/

theorem contains_of_effectiveRole {object : ObjectId}
    (h : (c.effectiveRole subject object).isSome) : c.contains object = true := by
  by_contra hn
  simp [effectiveRole, Bool.eq_false_of_not_eq_true hn] at h

theorem lookup_visibleRoles (object : ObjectId) :
    (c.visibleRoles subject).lookup object = c.effectiveRole subject object := by
  rw [visibleRoles, HashMap.lookup_collect_filterMap]
  split
  · rfl
  · rename_i hn
    rw [eq_comm, ← Option.not_isSome_iff_eq_none]
    exact fun h => hn ((c.mem_objects object).2 (c.contains_of_effectiveRole subject h))

theorem mem_visibleRoles (object : ObjectId) :
    object ∈ c.visibleRoles subject ↔ (c.effectiveRole subject object).isSome := by
  rw [← AList.lookup_isSome, lookup_visibleRoles]

/-- The ancestors the second pass goes through. -/
def shownChains : List ObjectId :=
  (c.visibleRoles subject).keys.flatMap fun object => (c.path object).drop 1

theorem visible_eq : c.visible subject = (c.shownChains subject).foldl Visibility.showAncestor
    { roles := c.visibleRoles subject, pathOnly := ∅, collectionsPathOnly := ∅ } := by
  rw [shownChains, List.foldl_flatMap]
  rfl

theorem mem_shownChains (a : ObjectId) :
    a ∈ c.shownChains subject ↔
      ∃ o, (c.effectiveRole subject o).isSome ∧ StrictlyAbove c.container o a := by
  simp only [shownChains, List.mem_flatMap, ← AList.mem_keys, mem_visibleRoles]
  refine exists_congr fun o => and_congr_right fun _ => ?_
  obtain ⟨above, hp, ha⟩ := c.path_eq_cons o
  rw [hp, List.drop_one, List.tail_cons, ha]

theorem visible_roles : (c.visible subject).roles = c.visibleRoles subject := by
  rw [visible_eq, Visibility.foldl_showAncestor_roles]

theorem lookup_visible_roles (object : ObjectId) :
    (c.visible subject).roles.lookup object = c.effectiveRole subject object := by
  rw [visible_roles, lookup_visibleRoles]

theorem mem_visible_roles (object : ObjectId) :
    object ∈ (c.visible subject).roles ↔ (c.effectiveRole subject object).isSome := by
  rw [visible_roles, mem_visibleRoles]

theorem mem_visible_pathOnly (id : Uuid) :
    id ∈ (c.visible subject).pathOnly ↔ c.effectiveRole subject (.folder id) = none ∧
      ∃ o, (c.effectiveRole subject o).isSome ∧ StrictlyAbove c.container o (.folder id) := by
  rw [visible_eq, Visibility.foldl_showAncestor_pathOnly, mem_shownChains, mem_visibleRoles]
  simp [and_comm]

theorem mem_visible_collectionsPathOnly (id : Uuid) :
    id ∈ (c.visible subject).collectionsPathOnly ↔
      c.effectiveRole subject (.collection id) = none ∧
      ∃ o, (c.effectiveRole subject o).isSome ∧ StrictlyAbove c.container o (.collection id) := by
  rw [visible_eq, Visibility.foldl_showAncestor_collectionsPathOnly, mem_shownChains,
    mem_visibleRoles]
  simp [and_comm]

/-! ## What is shown -/

/-- A container is a folder or a collection. -/
theorem container_kind {o p : ObjectId} (h : c.container o = some p) :
    (∃ id, p = .folder id) ∨ ∃ id, p = .collection id := by
  cases o with
  | folder | device | profile =>
    simp only [container, Option.map_eq_some_iff] at h
    obtain ⟨id, -, rfl⟩ := h
    exact .inl ⟨id, rfl⟩
  | collection | credential =>
    simp only [container, Option.map_eq_some_iff] at h
    obtain ⟨id, -, rfl⟩ := h
    exact .inr ⟨id, rfl⟩

theorem strictlyAbove_kind {o p : ObjectId} (h : StrictlyAbove c.container o p) :
    (∃ id, p = .folder id) ∨ ∃ id, p = .collection id := by
  obtain ⟨q, -, hq⟩ := Relation.TransGen.tail'_iff.1 h
  exact c.container_kind hq

/-- **Shown**: with a role, or above something with a role. -/
theorem shown_visible_iff (a : ObjectId) :
    (c.visible subject).Shown a ↔ ∃ o, (c.effectiveRole subject o).isSome ∧ Above c.container o a := by
  have hsplit : (∃ o, (c.effectiveRole subject o).isSome ∧ Above c.container o a) ↔
      (c.effectiveRole subject a).isSome ∨
        ∃ o, (c.effectiveRole subject o).isSome ∧ StrictlyAbove c.container o a := by
    simp only [above_iff_eq_or, and_or_left, exists_or, exists_eq_right']
  -- Something without a role above something with one is a folder or a collection.
  have hrole (o : ObjectId) (ha : StrictlyAbove c.container o a) (hf : ∀ id, a ≠ .folder id)
      (hc : ∀ id, a ≠ .collection id) : False := by
    rcases c.strictlyAbove_kind ha with ⟨id, h⟩ | ⟨id, h⟩
    · exact hf id h
    · exact hc id h
  rw [hsplit]
  cases a with
  | folder id =>
    rw [Visibility.Shown, mem_visible_roles, mem_visible_pathOnly]
    cases c.effectiveRole subject (.folder id) <;> simp
  | collection id =>
    rw [Visibility.Shown, mem_visible_roles, mem_visible_collectionsPathOnly]
    cases c.effectiveRole subject (.collection id) <;> simp
  | device id | credential id | profile id =>
    rw [Visibility.Shown, mem_visible_roles]
    refine ⟨.inl, ?_⟩
    rintro (h | ⟨o, -, ha⟩)
    · exact h
    · exact (hrole o ha (by simp) (by simp)).elim

/-- Everything above something shown is shown. -/
theorem shown_above {o a : ObjectId} (h : (c.visible subject).Shown o) (ha : Above c.container o a) :
    (c.visible subject).Shown a := by
  rw [shown_visible_iff] at h ⊢
  obtain ⟨o', ho', h⟩ := h
  exact ⟨o', ho', h.trans ha⟩

/-- **`visible` shows exactly what the decision for each object shows.** -/
theorem visible_eq_decision (c : Catalog) (subject : Subject) :
    let v := c.visible subject
    (∀ o r, v.roles.lookup o = some r ↔ c.effectiveRole subject o = some r) ∧
    (∀ id, id ∈ v.pathOnly ↔ c.effectiveRole subject (.folder id) = none ∧
      ∃ o, (c.effectiveRole subject o).isSome ∧ StrictlyAbove c.container o (.folder id)) ∧
    (∀ id, id ∈ v.collectionsPathOnly ↔ c.effectiveRole subject (.collection id) = none ∧
      ∃ o, (c.effectiveRole subject o).isSome ∧ StrictlyAbove c.container o (.collection id)) ∧
    (∀ id, ¬ (.folder id ∈ v.roles ∧ id ∈ v.pathOnly)) ∧
    (∀ id, ¬ (.collection id ∈ v.roles ∧ id ∈ v.collectionsPathOnly)) ∧
    (∀ o a, v.Shown o → Above c.container o a → v.Shown a) ∧
    (∀ o, v.Shown o → (c.effectiveRole subject o).isSome ∨
      ∃ o', (c.effectiveRole subject o').isSome ∧ StrictlyAbove c.container o' o) := by
  intro v
  refine ⟨fun o r => by rw [lookup_visible_roles], c.mem_visible_pathOnly subject,
    c.mem_visible_collectionsPathOnly subject, ?_, ?_, fun o a => c.shown_above subject,
    fun o ho => ?_⟩
  · rintro id ⟨hr, hp⟩
    rw [mem_visible_roles, ((c.mem_visible_pathOnly subject id).1 hp).1] at hr
    cases hr
  · rintro id ⟨hr, hp⟩
    rw [mem_visible_roles, ((c.mem_visible_collectionsPathOnly subject id).1 hp).1] at hr
    cases hr
  · obtain ⟨o', ho', ha⟩ := (c.shown_visible_iff subject o).1 ho
    rcases above_iff_eq_or.1 ha with rfl | ha
    · exact .inl ho'
    · exact .inr ⟨o', ho', ha⟩

/-- A grant on a device shows the device, and the folders above it path only. -/
example :
    let c := new { folders := [(1, none), (3, some 1), (4, none)], devices := [(12, 3), (13, 4)] }
      [⟨.device 12, "S-helpdesk", .list, none⟩] 0
    let v := c.visible ⟨{"S-helpdesk"}, false⟩
    v.roles.keys = [.device 12] ∧ v.pathOnly = {1, 3} ∧ v.collectionsPathOnly = ∅ := by
  decide

end Catalog

end Model
