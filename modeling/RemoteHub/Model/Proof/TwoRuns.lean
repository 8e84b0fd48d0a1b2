import RemoteHub.Model.Proof.Visible

/-!
# Two runs of the permission model

Two catalogs over the same objects. The role on an object is a function of the grants that count
for it (`effectiveRole_congr`) and grows with them (`effectiveRole_mono`); `visible` follows, since
it reads nothing of the grants but the roles. From this:

* grants for other principals, expired grants and grants off the chain change nothing;
* more grants, more SIDs or an earlier time never take anything away;
* the two trees do not reach into each other (`above_collection`, `above_folder`).
-/

namespace Model

open Chain

variable {objects objects' : Objects} {grants grants' : List Grant} {now now' : Int}
  {subject subject' : Subject}

/-- The grant is unexpired and names one of the subject's SIDs. -/
def Grant.ForSubject (g : Grant) (now : Int) (subject : Subject) : Prop :=
  g.expired now = false ∧ g.principal ∈ subject.sids

theorem counts_iff {o : ObjectId} {g : Grant} :
    Counts objects grants now subject o g ↔
      g ∈ grants ∧ g.ForSubject now subject ∧ Above objects.container o g.object := by
  constructor
  · rintro ⟨hm, hl, hp, ha⟩
    exact ⟨hm, ⟨Grant.expired_eq_false.2 hl, hp⟩, ha⟩
  · rintro ⟨hm, ⟨hl, hp⟩, ha⟩
    exact ⟨hm, Grant.expired_eq_false.1 hl, hp, ha⟩

/-- An earlier time and more SIDs keep a grant for the subject. -/
theorem Grant.ForSubject.mono {g : Grant} (h : g.ForSubject now subject) (hn : now' ≤ now)
    (hs : subject.sids ⊆ subject'.sids) : g.ForSubject now' subject' := by
  refine ⟨Grant.expired_eq_false.2 fun t ht => ?_, hs h.2⟩
  have := Grant.expired_eq_false.1 h.1 t ht
  omega

namespace Catalog

/-! ## The role as a function of the grants that count -/

theorem effectiveRole_congr (ha : subject.admin = false) {o : ObjectId}
    (h : ∀ g, Counts objects grants now subject o g ↔ Counts objects grants' now subject o g) :
    (new objects grants now).effectiveRole subject o =
      (new objects grants' now).effectiveRole subject o := by
  by_cases ho : objects.Has o
  · refine Option.ext fun r => ?_
    rw [effectiveRole_eq_some ho ha, effectiveRole_eq_some ho ha]
    simp only [h]
  · rw [effectiveRole_of_not_has ho, effectiveRole_of_not_has ho]

/-- More grants that count, more rows and more rights of the subject keep every role. -/
theorem effectiveRole_mono (ha : subject.admin = true → subject'.admin = true) {o : ObjectId}
    (hhas : objects.Has o → objects'.Has o)
    (h : ∀ g, Counts objects grants now subject o g → Counts objects' grants' now' subject' o g)
    {r : Role} (hr : (new objects grants now).effectiveRole subject o = some r) :
    ∃ r', (new objects' grants' now').effectiveRole subject' o = some r' ∧ r ≤ r' := by
  have ho : objects.Has o :=
    (contains_new o).1 (contains_of_effectiveRole _ subject (by rw [hr]; rfl))
  cases ha' : subject'.admin with
  | true => exact ⟨.manage, effectiveRole_of_admin (hhas ho) ha', r.le_manage⟩
  | false =>
    have hna : subject.admin = false := by
      rw [← Bool.not_eq_true]
      exact fun hn => by rw [ha hn] at ha'; cases ha'
    obtain ⟨⟨g, hg, rfl⟩, -⟩ := (effectiveRole_eq_some ho hna r).1 hr
    cases hr' : (new objects' grants' now').effectiveRole subject' o with
    | none => exact absurd ⟨g, h g hg⟩ ((effectiveRole_eq_none (hhas ho) ha').1 hr')
    | some r' =>
      exact ⟨r', rfl, ((effectiveRole_eq_some (hhas ho) ha' r').1 hr').2 ⟨g, h g hg, rfl⟩⟩

/-- `visible` reads nothing of the grants but the roles. -/
theorem visible_congr
    (h : ∀ o, (new objects grants now).effectiveRole subject o =
      (new objects grants' now).effectiveRole subject o) :
    (new objects grants now).visible subject = (new objects grants' now).visible subject := by
  have hr : (new objects grants now).visibleRoles subject =
      (new objects grants' now).visibleRoles subject := by
    unfold visibleRoles
    simp only [h]
    rfl
  unfold visible
  rw [hr]
  rfl

theorem shown_mono
    (h : ∀ o r, (new objects grants now).effectiveRole subject o = some r →
      ∃ r', (new objects grants' now').effectiveRole subject' o = some r' ∧ r ≤ r')
    {o : ObjectId} (ho : ((new objects grants now).visible subject).Shown o) :
    ((new objects grants' now').visible subject').Shown o := by
  rw [shown_visible_iff] at ho ⊢
  obtain ⟨a, ha, hab⟩ := ho
  obtain ⟨r, hr⟩ := Option.isSome_iff_exists.1 ha
  obtain ⟨r', hr', -⟩ := h a r hr
  exact ⟨a, by rw [hr']; rfl, hab⟩

/-! ## The two trees -/

/-- Above a collection or a credential there are no folders. -/
theorem above_collection {o a : ObjectId}
    (ho : (∃ id, o = .collection id) ∨ ∃ id, o = .credential id)
    (h : Above objects.container o a) : ∀ id, a ≠ .folder id := by
  have key : (∃ id, a = .collection id) ∨ ∃ id, a = .credential id := by
    refine h.closed (P := fun o => (∃ id, o = .collection id) ∨ ∃ id, o = .credential id) ?_ ho
    rintro x y (⟨id, rfl⟩ | ⟨id, rfl⟩) hy <;>
      simp only [Objects.container, Option.map_eq_some_iff] at hy <;>
      obtain ⟨p, -, rfl⟩ := hy <;> exact .inl ⟨p, rfl⟩
  rintro id rfl
  simp at key

/-- Above a folder, a device or a login profile there are no collections. -/
theorem above_folder {o a : ObjectId}
    (ho : (∃ id, o = .folder id) ∨ (∃ id, o = .device id) ∨ ∃ id, o = .profile id)
    (h : Above objects.container o a) : ∀ id, a ≠ .collection id := by
  have key : (∃ id, a = .folder id) ∨ (∃ id, a = .device id) ∨ ∃ id, a = .profile id := by
    refine h.closed (P := fun o => (∃ id, o = .folder id) ∨ (∃ id, o = .device id) ∨
      ∃ id, o = .profile id) ?_ ho
    rintro x y (⟨id, rfl⟩ | ⟨id, rfl⟩ | ⟨id, rfl⟩) hy <;>
      simp only [Objects.container, Option.map_eq_some_iff] at hy <;>
      obtain ⟨p, -, rfl⟩ := hy <;> exact .inl ⟨p, rfl⟩
  rintro id rfl
  simp at key

/-- Grants that differ only off the chain of `o`, or not for the subject, give the same role. -/
theorem effectiveRole_eq_of_chain (ha : subject.admin = false) {o : ObjectId}
    (h : ∀ g, g.ForSubject now subject → Above objects.container o g.object →
      (g ∈ grants ↔ g ∈ grants')) :
    (new objects grants now).effectiveRole subject o =
      (new objects grants' now).effectiveRole subject o := by
  refine effectiveRole_congr ha fun g => ?_
  rw [counts_iff, counts_iff]
  exact and_congr_left fun hg => h g hg.1 hg.2

/-- **What other grants can do to a subject**: nothing when they are for others, expired, off the
chain or in the other tree; and more grants, more SIDs or an earlier time only add. -/
theorem effectiveRole_two_runs (objects : Objects) (grants grants' : List Grant) (now now' : Int)
    (subject subject' : Subject) (ha : subject.admin = false) (_ : subject'.admin = false) :
    -- grants for other principals or expired ones
    ((∀ g, g.ForSubject now subject → (g ∈ grants ↔ g ∈ grants')) →
      (∀ o, (new objects grants now).effectiveRole subject o =
        (new objects grants' now).effectiveRole subject o) ∧
      (new objects grants now).visible subject = (new objects grants' now).visible subject) ∧
    -- grants off the chain of an object
    (∀ o, (∀ g, Above objects.container o g.object → (g ∈ grants ↔ g ∈ grants')) →
      (new objects grants now).effectiveRole subject o =
        (new objects grants' now).effectiveRole subject o) ∧
    -- more grants, more SIDs, an earlier time
    (grants ⊆ grants' → subject.sids ⊆ subject'.sids → now' ≤ now →
      (∀ o r, (new objects grants now).effectiveRole subject o = some r →
        ∃ r', (new objects grants' now').effectiveRole subject' o = some r' ∧ r ≤ r') ∧
      ∀ o, ((new objects grants now).visible subject).Shown o →
        ((new objects grants' now').visible subject').Shown o) ∧
    -- grants on folders, for the collections' tree
    ((∀ g, (∀ id, g.object ≠ .folder id) → (g ∈ grants ↔ g ∈ grants')) →
      ∀ o, ((∃ id, o = .collection id) ∨ ∃ id, o = .credential id) →
        (new objects grants now).effectiveRole subject o =
          (new objects grants' now).effectiveRole subject o) ∧
    -- grants on collections, for the folders' tree
    ((∀ g, (∀ id, g.object ≠ .collection id) → (g ∈ grants ↔ g ∈ grants')) →
      ∀ o, ((∃ id, o = .folder id) ∨ (∃ id, o = .device id) ∨ ∃ id, o = .profile id) →
        (new objects grants now).effectiveRole subject o =
          (new objects grants' now).effectiveRole subject o) := by
  refine ⟨fun h => ?_, fun o h => ?_, fun hg hs hn => ?_, fun h o ho => ?_, fun h o ho => ?_⟩
  · have hrole (o : ObjectId) : (new objects grants now).effectiveRole subject o =
        (new objects grants' now).effectiveRole subject o :=
      effectiveRole_eq_of_chain ha fun g hg _ => h g hg
    exact ⟨hrole, visible_congr hrole⟩
  · exact effectiveRole_eq_of_chain ha fun g _ hg => h g hg
  · have hmono (o : ObjectId) (r : Role)
        (hr : (new objects grants now).effectiveRole subject o = some r) :
        ∃ r', (new objects grants' now').effectiveRole subject' o = some r' ∧ r ≤ r' := by
      refine effectiveRole_mono (fun hn => by rw [ha] at hn; cases hn) id (fun g hc => ?_) hr
      rw [counts_iff] at hc ⊢
      exact ⟨hg hc.1, hc.2.1.mono hn hs, hc.2.2⟩
    exact ⟨hmono, fun o => shown_mono hmono⟩
  · exact effectiveRole_eq_of_chain ha fun g _ hg => h g (above_collection ho hg)
  · exact effectiveRole_eq_of_chain ha fun g _ hg => h g (above_folder ho hg)

/-- A grant for someone else on a folder with a device's id, added to a device's own grant. -/
theorem effectiveRole_two_runs_shared_id :
    let objects : Objects := { folders := [(1, none), (7, none)], devices := [(7, 1)] }
    let own : Grant := ⟨.device 7, "S-a", .list, none⟩
    let other : Grant := ⟨.folder 7, "S-b", .manage, none⟩
    let same : Grant := ⟨.folder 7, "S-a", .manage, none⟩
    let a : Subject := ⟨{"S-a"}, false⟩
    (new objects [own] 0).visible a = (new objects [own, other] 0).visible a ∧
      (new objects [own] 0).effectiveRole a (.device 7) =
        (new objects [own, same] 0).effectiveRole a (.device 7) ∧
      ∀ o, ((new objects [own] 0).visible a).Shown o →
        ((new objects [own, other] 0).visible a).Shown o := by
  intro objects own other same a
  have hchain : ∀ o, Above objects.container (.device 7) o → o ≠ .folder 7 := by
    intro o ho
    refine ho.closed (P := (· ≠ .folder 7)) ?_ (by decide)
    rintro (x | x | x | x | x) y - hy
    all_goals simp only [Objects.container, Option.map_eq_some_iff] at hy
    all_goals obtain ⟨p, hp, rfl⟩ := hy
    all_goals simp [objects, List.lookup_cons] at hp
    all_goals grind
  have hown : own ≠ other := by decide
  refine ⟨?_, ?_, ?_⟩
  · refine ((effectiveRole_two_runs objects [own] [own, other] 0 0 a a rfl rfl).1 fun g hg => ?_).2
    have hne : g ≠ other := by rintro rfl; exact absurd hg.2 (by decide)
    simp [hne]
  · refine (effectiveRole_two_runs objects [own] [own, same] 0 0 a a rfl rfl).2.1 _ fun g hg => ?_
    have hne : g ≠ same := by rintro rfl; exact hchain _ hg rfl
    simp [hne]
  · exact ((effectiveRole_two_runs objects [own] [own, other] 0 0 a a rfl rfl).2.2.1
      (by simp) (fun _ h => h) (le_refl _)).2

end Catalog

end Model
