import RemoteHub.Server.Pinning
import RemoteHub.Server.Proof.OwnSecrets
import RemoteHub.Server.Proof.Retarget
import RemoteHub.Server.Proof.Moves

/-!
# Pins under concurrent changes

A pin belongs to its device if the machine that the device's target names presented it. Over a run
whose connections find the target they loaded when they pin, and whose changes, where they leave the
pins, find what they compared still so when they are committed, every pin belongs to its device
(`pins_belong`). A connection that is overtaken by a change of its device pins the key of the old
target (`pinned_elsewhere`).
-/

namespace Server

open Model Except Interleave

namespace Db

variable {db db' : Db}

theorem endpoint_congr (hfolders : db'.folders = db.folders) (row : DeviceRow) :
    db'.endpoint row = db.endpoint row := by
  have hreached : db'.reachedThrough row = db.reachedThrough row :=
    congrArg (fun target => target.2.2.2) (target_congr hfolders row)
  unfold endpoint
  rw [hreached]

theorem foldersBelow_congr (hfolders : db'.folders = db.folders) (folder : Uuid) :
    db'.foldersBelow folder = db.foldersBelow folder := by
  have hin : ∀ frontier, db'.foldersIn frontier = db.foldersIn frontier := by
    intro frontier
    rw [foldersIn, foldersIn, hfolders]
  have hfrom : ∀ n frontier below, db'.belowFrom n frontier below = db.belowFrom n frontier below := by
    intro n
    induction n with
    | zero =>
      intro frontier below
      cases frontier <;> rfl
    | succ n ih =>
      intro frontier below
      cases frontier with
      | nil => rfl
      | cons b frontier =>
        show db'.belowFrom n (db'.foldersIn (b :: frontier)) (below ++ b :: frontier) = _
        rw [hin, ih]
        rfl
  rw [foldersBelow, foldersBelow, hfrom, folderRounds, folderRounds, hfolders]

theorem devicesBelow_congr (hdevices : db'.devices = db.devices) (hfolders : db'.folders = db.folders)
    (folder : Uuid) : db'.devicesBelow folder = db.devicesBelow folder := by
  have hreached : ∀ row, db'.reachedThrough row = db.reachedThrough row := fun row =>
    congrArg (fun target => target.2.2.2) (target_congr hfolders row)
  rw [devicesBelow, devicesBelow, foldersBelow_congr hfolders, hdevices]
  simp only [hreached]

end Db

namespace Pinning

/-- Every pin was presented by the machine that its device's target names now. -/
def Belong (s : Shared) : Prop :=
  ∀ id row, s.db.devices.lookup id = some row → ∀ screen key, row.pins.of screen = some key →
    ∃ e, s.db.endpoint row = some e ∧ (screen, e, key) ∈ s.presented

/-- What a request in flight relies on: it was presented what it is about to pin. -/
def Ready (s : Shared) : Flight → Prop
  | .presented c t key => (c.screen, t.toEndpoint, key) ∈ s.presented
  | _ => True

variable {ssh : SshKeys} {s s' : Shared} {db' : Db} {id : Uuid}

theorem Ready.later {f : Flight} (h : Ready s f) (hsub : s.presented ⊆ s'.presented) :
    Ready s' f := by
  cases f with
  | presented c t key => exact hsub h
  | _ => trivial

/-- Pins that stay belong to a target that stays. -/
theorem Belong.of_kept (hi : Belong s) (hsub : s.presented ⊆ s'.presented)
    (hkept : ∀ d row', s'.db.devices.lookup d = some row' → ∀ screen key,
      row'.pins.of screen = some key → ∃ row, s.db.devices.lookup d = some row ∧
        row.pins.of screen = some key ∧ s'.db.endpoint row' = s.db.endpoint row) : Belong s' := by
  intro d row' hd screen key hkey
  obtain ⟨row, hrow, hpin, hsame⟩ := hkept d row' hd screen key hkey
  obtain ⟨e, he, hmem⟩ := hi d row hrow screen key hpin
  exact ⟨e, by rw [hsame, he], hsub hmem⟩

theorem Belong.of_same (hi : Belong s) (hdevices : s'.db.devices = s.db.devices)
    (hfolders : s'.db.folders = s.db.folders) (hsub : s.presented ⊆ s'.presented) : Belong s' := by
  refine hi.of_kept hsub fun d row hd screen key hkey => ⟨row, hdevices ▸ hd, hkey, ?_⟩
  exact Db.endpoint_congr hfolders row

theorem of_empty {screen : Screen} {key : String} : ({} : Pins).of screen ≠ some key := by
  cases screen <;> nofun

/-! ## Commits -/

/-- A change of one device: it forgets the pins, there are none, or the target is the same. -/
theorem Belong.modify {g : DeviceRow → DeviceRow} {forgets : Bool} (hi : Belong s)
    (hfolders : db'.folders = s.db.folders) (hdevices : db'.devices = s.db.devices.modify id g)
    (hpins : ∀ row, (g row).pins = if forgets then {} else row.pins)
    (hfinds : forgets = true ∨ ∀ row, s.db.devices.lookup id = some row →
      row.pins = {} ∨ s.db.endpoint row = s.db.endpoint (g row)) :
    Belong { s with db := db' } := by
  refine hi.of_kept (List.Subset.refl _) fun d row' hd screen key hkey => ?_
  have hd : (s.db.devices.modify id g).lookup d = some row' := hdevices ▸ hd
  show ∃ row, s.db.devices.lookup d = some row ∧ _ ∧ db'.endpoint row' = _
  rw [Db.endpoint_congr hfolders]
  rw [HashMap.lookup_modify] at hd
  split at hd
  · rename_i hid
    subst hid
    obtain ⟨row, hrow, rfl⟩ := Option.map_eq_some_iff.1 hd
    rw [hpins] at hkey
    rcases hfinds with hforgets | hfinds
    · rw [if_pos hforgets] at hkey
      exact absurd hkey of_empty
    · split at hkey
      · exact absurd hkey of_empty
      · rcases hfinds row hrow with hnone | hsame
        · rw [hnone] at hkey
          exact absurd hkey of_empty
        · exact ⟨row, hrow, hkey, hsame.symm⟩
  · exact ⟨row', hd, hkey, rfl⟩

theorem of_store {pins : Pins} {screen other : Screen} {key k : String} {now : Int}
    (h : (pins.store screen key now).of other = some k) :
    pins.of other = some k ∨ (pins.of screen = none ∧ other = screen ∧ k = key) := by
  unfold Pins.store at h
  split at h
  · exact .inl h
  · cases other with
    | terminal =>
      cases h
      exact .inr ⟨‹_›, rfl, rfl⟩
    | display => exact .inl h
  · cases other with
    | terminal => exact .inl h
    | display =>
      cases h
      exact .inr ⟨‹_›, rfl, rfl⟩

/-- A connection that finds the target it loaded. -/
theorem Belong.pin {screen : Screen} {e : Endpoint} {key : String} (hi : Belong s)
    (hmem : (screen, e, key) ∈ s.presented)
    (hfinds : ∀ row, s.db.devices.lookup id = some row →
      (row.pins.of screen).isSome ∨ s.db.endpoint row = some e) :
    Belong { s with db := s.db.pin screen id key s.clock } := by
  intro d row' hd other k hk
  have hfolders : (s.db.pin screen id key s.clock).folders = s.db.folders := rfl
  simp only [Db.endpoint_congr hfolders]
  simp only [Db.pin, HashMap.lookup_modify] at hd
  split at hd
  · rename_i hid
    subst hid
    obtain ⟨row, hrow, rfl⟩ := Option.map_eq_some_iff.1 hd
    rcases of_store hk with hold | ⟨hnone, rfl, rfl⟩
    · exact hi d row hrow other k hold
    · rcases hfinds row hrow with hsome | hsame
      · rw [hnone] at hsome
        cases hsome
      · exact ⟨e, hsame, hmem⟩
  · exact hi d row' hd other k hk

/-- A change of a folder: the pins it leaves are of devices whose target stays. -/
theorem Belong.change {db : Db} {ids : List Uuid} (hi : Belong s)
    (hdevices : db.devices = s.db.devices)
    (hfinds : ∀ d row, s.db.devices.lookup d = some row →
      d ∈ ids ∨ row.pins = {} ∨ s.db.endpoint row = db.endpoint row) :
    Belong { s with db := db.forgetPins ids } := by
  refine hi.of_kept (List.Subset.refl _) fun d row' hd screen key hkey => ?_
  have hd : (db.forgetPins ids).devices.lookup d = some row' := hd
  rw [Db.lookup_forgetPins, hdevices] at hd
  obtain ⟨row, hrow, rfl⟩ := Option.map_eq_some_iff.1 hd
  split at hkey
  · exact absurd hkey of_empty
  · rename_i hnot
    have hfolders : (db.forgetPins ids).folders = db.folders := rfl
    rw [if_neg hnot, Db.endpoint_congr hfolders]
    rcases hfinds d row hrow with hmem | hnone | hsame
    · exact absurd hmem hnot
    · rw [hnone] at hkey
      exact absurd hkey of_empty
    · exact ⟨row, hrow, hkey, hsame.symm⟩

/-! ## Statements -/

/-- Only a commit writes. -/
theorem update_cases {t t' : OwnSecrets.Shared} {f : OwnSecrets.Flight}
    {o : Option OwnSecrets.Flight} (h : f.statement ssh t = .ok (t', o)) :
    t' = t ∨
      (∃ id c found seen db', f = .deviceCleared id c found seen ∧
        t.db.writeDevice id c found = .ok db' ∧ t'.db = db') ∨
      ∃ id c db', t.db.writeProfile id c = .ok db' ∧ t'.db = db' := by
  cases f with
  | device subject id input =>
    obtain ⟨_, -, h⟩ := bind_eq_ok.1 h
    cases h
    exact .inl rfl
  | deviceLoading r l =>
    simp only [OwnSecrets.Flight.statement] at h
    split at h
    · cases h
      exact .inl rfl
    · obtain ⟨_, -, h⟩ := bind_eq_ok.1 h
      obtain ⟨_, -, h⟩ := bind_eq_ok.1 h
      cases h
      exact .inl rfl
  | deviceLoaded r catalog =>
    obtain ⟨_, -, h⟩ := bind_eq_ok.1 h
    obtain ⟨_, -, h⟩ := bind_eq_ok.1 h
    cases h
    exact .inl rfl
  | deviceRead r catalog before reachedBefore =>
    obtain ⟨_, -, h⟩ := bind_eq_ok.1 h
    cases h
    exact .inl rfl
  | deviceNamed r catalog before reachedBefore =>
    obtain ⟨_, -, h⟩ := bind_eq_ok.1 h
    cases h
    exact .inl rfl
  | deviceAimed r catalog before targetChanged =>
    obtain ⟨_, -, h⟩ := bind_eq_ok.1 h
    obtain ⟨_, -, h⟩ := bind_eq_ok.1 h
    cases h
    exact .inl rfl
  | deviceBegun id c =>
    obtain ⟨_, -, h⟩ := bind_eq_ok.1 h
    cases h
    exact .inl rfl
  | deviceSealed id c =>
    cases h
    exact .inl rfl
  | deviceCleared id c found seen =>
    obtain ⟨db', hwrite, h⟩ := bind_eq_ok.1 h
    cases h
    exact .inr (.inl ⟨id, c, found, seen, db', rfl, hwrite, rfl⟩)
  | profile subject id input =>
    obtain ⟨_, -, h⟩ := bind_eq_ok.1 h
    cases h
    exact .inl rfl
  | profileLoading r l =>
    simp only [OwnSecrets.Flight.statement] at h
    split at h
    · cases h
      exact .inl rfl
    · obtain ⟨_, -, h⟩ := bind_eq_ok.1 h
      obtain ⟨_, -, h⟩ := bind_eq_ok.1 h
      cases h
      exact .inl rfl
  | profileLoaded r =>
    obtain ⟨_, -, h⟩ := bind_eq_ok.1 h
    obtain ⟨_, -, h⟩ := bind_eq_ok.1 h
    cases h
    exact .inl rfl
  | profileBegun id c =>
    obtain ⟨db', hwrite, h⟩ := bind_eq_ok.1 h
    cases h
    exact .inr (.inr ⟨id, c, db', hwrite, rfl⟩)

/-- What the next statement relies on was not overtaken: a connection that pins finds the target it
loaded; a change that leaves pins finds, as it compared before, that their device keeps its
target. -/
def finds (w : World Shared Flight) : Interleave.Event Flight Outside → Bool
  | .next k =>
    let db := w.shared.db
    match w.flights.lookup k with
    | some (.presented c t _) =>
      (db.devices.lookup t.id).all fun row =>
        (row.pins.of c.screen).isSome || db.endpoint row = some t.toEndpoint
    | some (.updating (.deviceCleared id c _ _)) =>
      c.targetChanged || (db.devices.lookup id).all fun row =>
        row.pins = {} || db.endpoint row = db.endpoint
          (c.device.apply c.secretVersion c.keyInfo c.targetChanged row)
    | some (.placing id folder targetChanged) =>
      targetChanged || (db.devices.lookup id).all fun row =>
        row.pins = {} || db.endpoint row = db.endpoint { row with folderId := folder }
    | some (.changing (.settled move name retargeted)) =>
      db.devices.entries.all fun e =>
        e.1 ∈ retargeted || e.2.pins = {} || db.endpoint e.2 = (move.apply db name).endpoint e.2
    | _ => true
  | _ => true

theorem devices_apply {db : Db} {name : Option String} (move : Move) :
    (move.apply db name).devices = db.devices := by
  cases move <;> rfl

/-- A statement that leaves devices and folders alone. -/
theorem reads {o : Option Flight} (hi : Belong s) (hdevices : s'.db.devices = s.db.devices)
    (hfolders : s'.db.folders = s.db.folders) (hpresented : s'.presented = s.presented)
    (ho : ∀ g, o = some g → Ready s' g) :
    Belong s' ∧ s.presented ⊆ s'.presented ∧ ∀ g, o = some g → Ready s' g := by
  have hsub : s.presented ⊆ s'.presented := by
    rw [hpresented]
    exact List.Subset.refl _
  exact ⟨hi.of_same hdevices hfolders hsub, hsub, ho⟩

/-- A statement of a request. -/
theorem statement_ok {w : World Shared Flight} {k : Nat} {f : Flight} {o : Option Flight}
    (hi : Belong w.shared) (hready : Ready w.shared f) (hf : w.flights.lookup k = some f)
    (hfinds : finds w (.next k) = true) (h : f.statement ssh w.shared = .ok (s', o)) :
    Belong s' ∧ w.shared.presented ⊆ s'.presented ∧ ∀ g, o = some g → Ready s' g := by
  have hsub := List.Subset.refl w.shared.presented
  cases f with
  | connect c =>
    cases h
    exact reads hi rfl rfl rfl fun g hg => by cases hg; trivial
  | connecting c l =>
    simp only [Flight.statement] at h
    split at h
    · cases h
      exact reads hi rfl rfl rfl fun g hg => by cases hg; trivial
    · obtain ⟨_, -, h⟩ := bind_eq_ok.1 h
      cases h
      exact reads hi rfl rfl rfl fun g hg => by cases hg; trivial
  | allowed c =>
    obtain ⟨t, -, h⟩ := bind_eq_ok.1 h
    cases h
    exact reads hi rfl rfl rfl fun g hg => by cases hg; trivial
  | loaded c t =>
    simp only [Flight.statement] at h
    split at h
    · cases h
      exact reads hi rfl rfl rfl fun g hg => by cases hg
    · cases h
      have hmore := List.subset_append_left w.shared.presented [(c.screen, t.toEndpoint, ‹String›)]
      refine ⟨hi.of_same rfl rfl hmore, hmore, fun g hg => ?_⟩
      split at hg
      · cases hg
        exact List.mem_append_right _ List.mem_cons_self
      · cases hg
  | presented c t key =>
    cases h
    simp only [finds, hf, Option.all_eq_true, Bool.or_eq_true, decide_eq_true_eq] at hfinds
    exact ⟨hi.pin hready hfinds, hsub, fun g hg => by cases hg⟩
  | updating f =>
    obtain ⟨⟨t', o'⟩, hstatement, h⟩ := bind_eq_ok.1 h
    cases h
    have ho : ∀ g, o'.map Flight.updating = some g → Ready { w.shared with toShared := t' } g := by
      intro g hg
      obtain ⟨f', -, rfl⟩ := Option.map_eq_some_iff.1 hg
      trivial
    rcases update_cases hstatement with rfl | ⟨id, c, found, seen, db', rfl, hwrite, rfl⟩ |
      ⟨id, c, db', hwrite, rfl⟩
    · exact reads hi rfl rfl rfl ho
    · obtain ⟨hfolders, -, hdevices, -, -⟩ := writeDevice_ok hwrite
      simp only [finds, hf, Option.all_eq_true, Bool.or_eq_true, decide_eq_true_eq] at hfinds
      refine ⟨?_, hsub, ho⟩
      have hbelong := hi.modify hfolders hdevices (fun _ => rfl) hfinds
      exact hbelong.of_same rfl rfl (List.Subset.refl _)
    · obtain ⟨hfolders, hdevices, -, -, -⟩ := writeProfile_ok hwrite
      exact reads hi hdevices hfolders rfl ho
  | move subject id folder =>
    cases h
    exact reads hi rfl rfl rfl fun g hg => by cases hg; trivial
  | moving subject id folder l =>
    simp only [Flight.statement] at h
    split at h
    · cases h
      exact reads hi rfl rfl rfl fun g hg => by cases hg; trivial
    · obtain ⟨_, -, h⟩ := bind_eq_ok.1 h
      obtain ⟨_, -, h⟩ := bind_eq_ok.1 h
      split at h
      · cases h
        exact reads hi rfl rfl rfl fun g hg => by cases hg
      · cases h
        exact reads hi rfl rfl rfl fun g hg => by cases hg; trivial
  | leaving subject id folder catalog =>
    obtain ⟨_, -, h⟩ := bind_eq_ok.1 h
    obtain ⟨_, -, h⟩ := bind_eq_ok.1 h
    obtain ⟨_, -, h⟩ := bind_eq_ok.1 h
    obtain ⟨_, -, h⟩ := bind_eq_ok.1 h
    obtain ⟨_, -, h⟩ := bind_eq_ok.1 h
    cases h
    exact reads hi rfl rfl rfl fun g hg => by cases hg; trivial
  | placing id folder targetChanged =>
    obtain ⟨db', hplace, h⟩ := bind_eq_ok.1 h
    cases h
    obtain ⟨_, -, hplace⟩ := bind_eq_ok.1 hplace
    cases hplace
    simp only [finds, hf, Option.all_eq_true, Bool.or_eq_true, decide_eq_true_eq] at hfinds
    exact ⟨hi.modify rfl rfl (fun _ => rfl) hfinds, hsub, fun g hg => by cases hg⟩
  | change subject move =>
    cases h
    exact reads hi rfl rfl rfl fun g hg => by cases hg; trivial
  | changing f =>
    obtain ⟨⟨db', o'⟩, hstatement, h⟩ := bind_eq_ok.1 h
    cases h
    have ho : ∀ g, o'.map Flight.changing = some g → Ready { w.shared with db := db' } g := by
      intro g hg
      obtain ⟨f', -, rfl⟩ := Option.map_eq_some_iff.1 hg
      trivial
    rcases Moves.statement_ok hstatement with rfl | ⟨move, name, ids, rfl, rfl⟩
    · exact reads hi rfl rfl rfl ho
    · simp only [finds, hf, List.all_eq_true, Bool.or_eq_true, decide_eq_true_eq] at hfinds
      refine ⟨hi.change (devices_apply move) fun d row hd => ?_, hsub, ho⟩
      have hrow := hfinds ⟨d, row⟩ (HashMap.lookup_eq_some.1 hd)
      rcases hrow with (hmem | hnone) | hsame
      · exact .inl hmem
      · exact .inr (.inl hnone)
      · exact .inr (.inr hsame)

/-! ## Runs -/

theorem Belong.create {row : DeviceRow} (hi : Belong s) (hfolders : db'.folders = s.db.folders)
    (hdevices : db'.devices = s.db.devices.insert id row) (hpins : row.pins = {}) :
    Belong { s with db := db' } := by
  refine hi.of_kept (List.Subset.refl _) fun d row' hd screen key hkey => ?_
  have hd : (s.db.devices.insert id row).lookup d = some row' := hdevices ▸ hd
  rw [HashMap.lookup_insert_eq] at hd
  split at hd
  · cases hd
    rw [hpins] at hkey
    exact absurd hkey of_empty
  · exact ⟨row', hd, hkey, Db.endpoint_congr hfolders row'⟩

theorem Belong.delete (hi : Belong s) (hfolders : db'.folders = s.db.folders)
    (hdevices : db'.devices = s.db.devices.erase id) : Belong { s with db := db' } := by
  refine hi.of_kept (List.Subset.refl _) fun d row' hd screen key hkey => ?_
  have hd : (s.db.devices.erase id).lookup d = some row' := hdevices ▸ hd
  exact ⟨row', (HashMap.of_lookup_erase hd).2, hkey, Db.endpoint_congr hfolders row'⟩

theorem outside_ok {e : Outside} (hi : Belong s) (h : s.outside ssh e = some s') :
    Belong s' ∧ s.presented ⊆ s'.presented := by
  have hsub := List.Subset.refl s.presented
  cases e with
  | createDevice caller id input =>
    cases h
    cases hcreate : s.db.createDevice ssh caller id input with
    | ok db' =>
      obtain ⟨row, -, hfolders, -, hdevices, hpins, -, -⟩ := Db.createDevice_ok hcreate
      exact ⟨hi.create hfolders hdevices hpins, hsub⟩
    | error _ => exact ⟨hi, hsub⟩
  | deleteDevice caller id =>
    cases h
    cases hdelete : s.db.deleteDevice caller id with
    | ok db' =>
      obtain ⟨hfolders, hdevices, -⟩ := Db.deleteDevice_ok hdelete
      exact ⟨hi.delete hfolders hdevices, hsub⟩
    | error _ => exact ⟨hi, hsub⟩
  | resetHostKey id =>
    cases h
    exact ⟨hi.change rfl fun _ _ _ => .inr (.inr rfl), hsub⟩
  | tick clock =>
    cases h
    exact ⟨hi.of_same rfl rfl hsub, hsub⟩
  | folders folders =>
    simp only [Shared.outside] at h
    split at h
    · rename_i hsame
      cases h
      rw [List.all_eq_true] at hsame
      refine ⟨hi.of_kept hsub fun d row hd screen key hkey => ⟨row, hd, hkey, ?_⟩, hsub⟩
      have hrow := of_decide_eq_true (hsame ⟨d, row⟩ (HashMap.lookup_eq_some.1 hd))
      exact congrArg (Option.map _) hrow
    · cases h
  | elsewhere collections credentials profiles grants connectors secretFields =>
    cases h
    exact ⟨hi.of_same rfl rfl hsub, hsub⟩

theorem invariant (ssh : SshKeys) :
    Invariant (system ssh) (fun w e => finds w e = true) Belong fun _ => Ready where
  start k s f _ hf := by
    cases f <;> trivial
  next w k f s o hw hfinds hf h := by
    simp only [system, Flight.next] at h
    split at h
    · cases h
      rename_i hstatement
      obtain ⟨hi, hsub, hown⟩ := statement_ok hw.shared (hw.flights k f hf) hf hfinds hstatement
      exact ⟨hi, hown, fun k' g _ _ hg => hg.later hsub⟩
    · cases h
      exact ⟨hw.shared, fun g hg => (by cases hg), fun k' g _ _ hg => hg⟩
    · cases h
  outside w e s hw _ h := by
    obtain ⟨hi, hsub⟩ := outside_ok hw.shared h
    exact ⟨hi, fun k g hg => hg.later hsub⟩

/-- **Pins belong**: from a state where every pin does, over any interleaving of connections and
changes in which a connection that pins finds the target it loaded, and a change that leaves pins
finds that their device keeps its target, every pin was presented by the machine that its device's
target names. -/
theorem pins_belong (ssh : SshKeys) (s : Shared) (hstart : Belong s)
    (es : List (Interleave.Event Flight Outside)) (w : World Shared Flight)
    (hrun : Run.run (Interleave.step (system ssh)) (World.quiet s) es = some w)
    (hfinds : Run.Meets (Interleave.step (system ssh)) (fun w e => finds w e = true)
      (World.quiet s) es) :
    Belong w.shared :=
  ((invariant ssh).run hstart hfinds hrun).shared

/-! ## Requests that nothing comes between -/

/-- What a request has read, and what it made of it, holds of what is committed. -/
def UpToDate (db : Db) : Flight → Prop
  | .loaded _ t | .presented _ t _ =>
    ∀ row, db.devices.lookup t.id = some row → db.endpoint row = some t.toEndpoint
  | .updating (.deviceRead r _ before reached) | .updating (.deviceNamed r _ before reached) =>
    db.devices.lookup r.id = some before ∧ db.reachedThrough before = some reached
  | .updating (.deviceAimed r _ _ targetChanged) =>
    targetChanged = false → ∀ row, db.devices.lookup r.id = some row → ∀ version keyInfo,
      db.endpoint row = db.endpoint (r.device.apply version keyInfo targetChanged row)
  | .updating (.deviceBegun id c) | .updating (.deviceSealed id c) | .updating (.deviceCleared id c _ _) =>
    c.targetChanged = false → ∀ row, db.devices.lookup id = some row →
      db.endpoint row = db.endpoint (c.device.apply c.secretVersion c.keyInfo c.targetChanged row)
  | .placing id folder targetChanged =>
    targetChanged = false → ∀ row, db.devices.lookup id = some row →
      db.endpoint row = db.endpoint { row with folderId := folder }
  | .changing (.counted _ id _ _ _ before) | .changing (.updated _ id _ _ _ before) =>
    db.devicesBelow id = .ok before
  | .changing (.compared id change name retargeted) =>
    ∀ d row, db.devices.lookup d = some row →
      d ∈ retargeted ∨ db.endpoint row = ((Move.folder id change).apply db name).endpoint row
  | .changing (.settled move name retargeted) =>
    ∀ d row, db.devices.lookup d = some row →
      d ∈ retargeted ∨ db.endpoint row = (move.apply db name).endpoint row
  | _ => True

/-- It is about devices and folders only. -/
theorem UpToDate.congr {f : Flight} (h : UpToDate s.db f) (hdevices : s'.db.devices = s.db.devices)
    (hfolders : s'.db.folders = s.db.folders) : UpToDate s'.db f := by
  have hendpoint := Db.endpoint_congr hfolders
  have hreached : ∀ row, s'.db.reachedThrough row = s.db.reachedThrough row := fun row =>
    congrArg (fun target => target.2.2.2) (Db.target_congr hfolders row)
  have hbelow := Db.devicesBelow_congr hdevices hfolders
  have hmove : ∀ (move : Move) name row,
      (move.apply s'.db name).endpoint row = (move.apply s.db name).endpoint row := by
    intro move name row
    refine Db.endpoint_congr ?_ row
    cases move <;> simp [Move.apply, hfolders]
  have hsame : UpToDate s'.db f ↔ UpToDate s.db f := by
    cases f with
    | updating f => cases f <;> simp only [UpToDate, hdevices, hendpoint, hreached]
    | changing f => cases f <;> simp only [UpToDate, hdevices, hendpoint, hbelow, hmove]
    | _ => simp only [UpToDate, hdevices, hendpoint]
  exact hsame.2 h

/-- The devices that a change of a folder does not count keep their targets. -/
theorem endpoint_apply {db : Db} {change : FolderChange} {name : Option String} {before after : List Db.Reached}
    (hbefore : db.devicesBelow id = .ok before)
    (hafter : ((Move.folder id change).apply db name).devicesBelow id = .ok after) :
    ∀ d row, db.devices.lookup d = some row → d ∈ (Db.retargeted before after).map (·.id) ∨
      db.endpoint row = ((Move.folder id change).apply db name).endpoint row := by
  intro d row hd
  cases hold : db.folders.lookup id with
  | none =>
    have hsame : (Move.folder id change).apply db name = db := by
      simp [Move.apply, HashMap.modify, hold]
    rw [hsame]
    exact .inr rfl
  | some old =>
    have hwith : (Move.folder id change).apply db name = db.withFolder id (change.apply name old) := by
      simp [Move.apply, HashMap.modify, hold, Db.withFolder]
    rw [hwith] at hafter ⊢
    rw [Db.mem_retargeted (AList.lookup_isSome.1 (by rw [hold]; rfl)) hbefore hafter hd]
    by_cases hsame : db.target row = (db.withFolder id (change.apply name old)).target row
    · have hreached : db.reachedThrough row = (db.withFolder id (change.apply name old)).reachedThrough row :=
        congrArg (fun target => target.2.2.2) hsame
      exact .inr (by rw [Db.endpoint, Db.endpoint, hreached])
    · exact .inl hsame

theorem UpToDate.changing {f g : Server.Flight} {clock : Int} {db db' : Db} (h : UpToDate db (.changing f))
    (hs : f.statement db clock = .ok (db', some g)) : db' = db ∧ UpToDate db (.changing g) := by
  cases f with
  | settled move name ids => cases hs
  | loading subject move l =>
    simp only [Server.Flight.statement] at hs
    split at hs
    · cases hs
      exact ⟨rfl, trivial⟩
    · obtain ⟨_, -, hs⟩ := bind_eq_ok.1 hs
      cases hs
      exact ⟨rfl, trivial⟩
  | begun subject move catalog name =>
    cases move with
    | folder id change =>
      obtain ⟨before, hbefore, hs⟩ := bind_eq_ok.1 hs
      cases hs
      exact ⟨rfl, hbefore⟩
    | collection id change =>
      obtain ⟨_, -, hs⟩ := bind_eq_ok.1 hs
      cases hs
      refine ⟨rfl, fun d row _ => .inr ?_⟩
      have hfolders : ((Move.collection id change).apply db name).folders = db.folders := rfl
      exact (Db.endpoint_congr hfolders row).symm
  | counted subject id change catalog name before =>
    obtain ⟨_, -, hs⟩ := bind_eq_ok.1 hs
    cases hs
    exact ⟨rfl, h⟩
  | updated subject id change catalog name before =>
    obtain ⟨after, hafter, hs⟩ := bind_eq_ok.1 hs
    obtain ⟨_, -, hs⟩ := bind_eq_ok.1 hs
    cases hs
    exact ⟨rfl, endpoint_apply h hafter⟩
  | compared id change name retargeted =>
    obtain ⟨_, -, hs⟩ := bind_eq_ok.1 hs
    cases hs
    exact ⟨rfl, h⟩

theorem UpToDate.updating {f g : OwnSecrets.Flight} {t t' : OwnSecrets.Shared}
    (h : UpToDate t.db (.updating f)) (hs : f.statement ssh t = .ok (t', some g)) :
    t' = t ∧ UpToDate t.db (.updating g) := by
  cases f with
  | device subject id input =>
    obtain ⟨_, -, hs⟩ := bind_eq_ok.1 hs
    cases hs
    exact ⟨rfl, trivial⟩
  | deviceLoading r l =>
    simp only [OwnSecrets.Flight.statement] at hs
    split at hs
    · cases hs
      exact ⟨rfl, trivial⟩
    · obtain ⟨_, -, hs⟩ := bind_eq_ok.1 hs
      obtain ⟨_, -, hs⟩ := bind_eq_ok.1 hs
      cases hs
      exact ⟨rfl, trivial⟩
  | deviceLoaded r catalog =>
    obtain ⟨before, hbefore, hs⟩ := bind_eq_ok.1 hs
    obtain ⟨reached, hreached, hs⟩ := bind_eq_ok.1 hs
    cases hs
    exact ⟨rfl, Db.fetchOne_eq_ok.1 hbefore, Db.ends_eq_ok.1 hreached⟩
  | deviceRead r catalog before reached =>
    obtain ⟨_, -, hs⟩ := bind_eq_ok.1 hs
    cases hs
    exact ⟨rfl, h⟩
  | deviceNamed r catalog before reached =>
    obtain ⟨reachedAfter, hafter, hs⟩ := bind_eq_ok.1 hs
    cases hs
    refine ⟨rfl, fun hkept row hrow version keyInfo => ?_⟩
    obtain ⟨hbefore, hreached⟩ := h
    rw [hbefore] at hrow
    cases hrow
    rw [decide_eq_false_iff_not] at hkept
    simp only [not_or, not_not] at hkept
    obtain ⟨hprotocol, hhost, hport, hthrough⟩ := hkept
    have hsame : ∀ changed, t.db.reachedThrough before =
        t.db.reachedThrough (r.device.apply version keyInfo changed before) := fun _ =>
      hreached.trans ((congrArg some hthrough).trans (Db.ends_eq_ok.1 hafter).symm)
    rw [Db.endpoint, Db.endpoint, ← hsame, hprotocol, hhost, hport]
    rfl
  | deviceAimed r catalog before targetChanged =>
    obtain ⟨_, -, hs⟩ := bind_eq_ok.1 hs
    obtain ⟨c, hc, hs⟩ := bind_eq_ok.1 hs
    obtain ⟨version, -, hc⟩ := bind_eq_ok.1 hc
    cases hc
    cases hs
    exact ⟨rfl, fun hkept row hrow => h hkept row hrow _ _⟩
  | deviceBegun id c =>
    obtain ⟨_, -, hs⟩ := bind_eq_ok.1 hs
    cases hs
    exact ⟨rfl, h⟩
  | deviceSealed id c =>
    cases hs
    exact ⟨rfl, h⟩
  | deviceCleared id c found seen =>
    obtain ⟨_, -, hs⟩ := bind_eq_ok.1 hs
    cases hs
  | profile subject id input =>
    obtain ⟨_, -, hs⟩ := bind_eq_ok.1 hs
    cases hs
    exact ⟨rfl, trivial⟩
  | profileLoading r l =>
    simp only [OwnSecrets.Flight.statement] at hs
    split at hs
    · cases hs
      exact ⟨rfl, trivial⟩
    · obtain ⟨_, -, hs⟩ := bind_eq_ok.1 hs
      obtain ⟨_, -, hs⟩ := bind_eq_ok.1 hs
      cases hs
      exact ⟨rfl, trivial⟩
  | profileLoaded r =>
    obtain ⟨_, -, hs⟩ := bind_eq_ok.1 hs
    obtain ⟨_, -, hs⟩ := bind_eq_ok.1 hs
    cases hs
    exact ⟨rfl, trivial⟩
  | profileBegun id c =>
    obtain ⟨_, -, hs⟩ := bind_eq_ok.1 hs
    cases hs

/-- A request that goes on has changed no device and no folder, and what it has read since is so. -/
theorem UpToDate.next {f g : Flight} (h : UpToDate s.db f) (hs : f.statement ssh s = .ok (s', some g)) :
    s'.db = s.db ∧ UpToDate s'.db g := by
  cases f with
  | connect c =>
    cases hs
    exact ⟨rfl, trivial⟩
  | connecting c l =>
    simp only [Flight.statement] at hs
    split at hs
    · cases hs
      exact ⟨rfl, trivial⟩
    · obtain ⟨_, -, hs⟩ := bind_eq_ok.1 hs
      cases hs
      exact ⟨rfl, trivial⟩
  | allowed c =>
    obtain ⟨t, ht, hs⟩ := bind_eq_ok.1 hs
    cases hs
    obtain ⟨row, hrow, ht⟩ := bind_eq_ok.1 ht
    obtain ⟨connectorId, hconnector, ht⟩ := bind_eq_ok.1 ht
    obtain ⟨_, -, ht⟩ := bind_eq_ok.1 ht
    cases ht
    refine ⟨rfl, fun row' hrow' => ?_⟩
    have hsame : row' = row := Option.some.inj (hrow'.symm.trans (Db.fetchOne_eq_ok.1 hrow))
    rw [hsame, Db.endpoint, Db.ends_eq_ok.1 hconnector]
    rfl
  | loaded c t =>
    simp only [Flight.statement] at hs
    split at hs
    · cases hs
    · split at hs
      · cases hs
        exact ⟨rfl, h⟩
      · cases hs
  | presented c t key => cases hs
  | updating f =>
    obtain ⟨⟨t, o⟩, hstatement, hs⟩ := bind_eq_ok.1 hs
    obtain ⟨g', rfl, hg⟩ : ∃ g', o = some g' ∧ g = .updating g' := by
      cases o with
      | none => cases hs
      | some g' =>
        cases hs
        exact ⟨g', rfl, rfl⟩
    cases hs
    obtain ⟨rfl, hnext⟩ := h.updating hstatement
    exact ⟨rfl, hnext⟩
  | move subject id folder =>
    cases hs
    exact ⟨rfl, trivial⟩
  | moving subject id folder l =>
    simp only [Flight.statement] at hs
    split at hs
    · cases hs
      exact ⟨rfl, trivial⟩
    · obtain ⟨_, -, hs⟩ := bind_eq_ok.1 hs
      obtain ⟨_, -, hs⟩ := bind_eq_ok.1 hs
      split at hs
      · cases hs
      · cases hs
        exact ⟨rfl, trivial⟩
  | leaving subject id folder catalog =>
    obtain ⟨before, hbefore, hs⟩ := bind_eq_ok.1 hs
    obtain ⟨reachedBefore, hreached, hs⟩ := bind_eq_ok.1 hs
    obtain ⟨reachedAfter, hafter, hs⟩ := bind_eq_ok.1 hs
    obtain ⟨_, -, hs⟩ := bind_eq_ok.1 hs
    obtain ⟨_, -, hs⟩ := bind_eq_ok.1 hs
    cases hs
    refine ⟨rfl, fun hkept row hrow => ?_⟩
    rw [Db.fetchOne_eq_ok.1 hbefore] at hrow
    cases hrow
    rw [decide_eq_false_iff_not, not_not] at hkept
    have hsame : s.db.reachedThrough before = s.db.reachedThrough { before with folderId := folder } :=
      (Db.ends_eq_ok.1 hreached).trans ((congrArg some hkept).trans (Db.ends_eq_ok.1 hafter).symm)
    rw [Db.endpoint, Db.endpoint, ← hsame]
  | placing id folder targetChanged =>
    obtain ⟨_, -, hs⟩ := bind_eq_ok.1 hs
    cases hs
  | change subject move =>
    cases hs
    exact ⟨rfl, trivial⟩
  | changing f =>
    obtain ⟨⟨db', o⟩, hstatement, hs⟩ := bind_eq_ok.1 hs
    cases o with
    | none => cases hs
    | some g' =>
      cases hs
      obtain ⟨rfl, hnext⟩ := h.changing hstatement
      exact ⟨rfl, hnext⟩

theorem UpToDate.finds {w : World Shared Flight} {k : Nat} {f : Flight} (h : UpToDate w.shared.db f)
    (hf : w.flights.lookup k = some f) : finds w (.next k) = true := by
  unfold Pinning.finds
  simp only [hf]
  split
  · rename_i c t key hat
    cases hat
    rw [Option.all_eq_true]
    intro row hrow
    rw [Bool.or_eq_true, decide_eq_true_eq]
    exact .inr (h row hrow)
  · rename_i id c found seen hat
    cases hat
    rw [Bool.or_eq_true, Option.all_eq_true, or_iff_not_imp_left, Bool.not_eq_true]
    intro hkept row hrow
    rw [Bool.or_eq_true, decide_eq_true_eq, decide_eq_true_eq]
    exact .inr (h hkept row hrow)
  · rename_i id folder targetChanged hat
    cases hat
    rw [Bool.or_eq_true, Option.all_eq_true, or_iff_not_imp_left, Bool.not_eq_true]
    intro hkept row hrow
    rw [Bool.or_eq_true, decide_eq_true_eq, decide_eq_true_eq]
    exact .inr (h hkept row hrow)
  · rename_i move name retargeted hat
    cases hat
    rw [List.all_eq_true]
    rintro ⟨d, row⟩ hrow
    rw [Bool.or_eq_true, Bool.or_eq_true, decide_eq_true_eq, decide_eq_true_eq, decide_eq_true_eq]
    rcases h d row (HashMap.lookup_eq_some.2 hrow) with hmem | hsame
    · exact .inl (.inl hmem)
    · exact .inr hsame
  · rfl

/-- Devices and folders change while no other request is under way. -/
def Undisturbed (ssh : SshKeys) (w : World Shared Flight) (e : Interleave.Event Flight Outside) : Prop :=
  ∀ w' ∈ Interleave.step (system ssh) w e,
    (w'.shared.db.devices = w.shared.db.devices ∧ w'.shared.db.folders = w.shared.db.folders) ∨
      ∀ k f, w'.flights.lookup k = some f → f.isNew = true

theorem upToDate_of_isNew {db : Db} {f : Flight} (h : f.isNew = true) : UpToDate db f := by
  cases f with
  | updating f => cases f <;> trivial
  | changing f => cases h
  | _ => trivial

/-- **A change that nothing comes between finds what it compared**: in a run in which devices and folders
change only while no other request is under way, every step finds it so. -/
theorem finds_of_undisturbed {s : Shared} {es : List (Interleave.Event Flight Outside)}
    (h : Run.Meets (Interleave.step (system ssh)) (Undisturbed ssh) (World.quiet s) es) :
    Run.Meets (Interleave.step (system ssh)) (fun w e => finds w e = true) (World.quiet s) es := by
  refine Run.Meets.of_inv (I := fun w => ∀ k f, w.flights.lookup k = some f → UpToDate w.shared.db f)
    ?_ ?_ ?_ h
  · intro k f hf
    cases hf
  · intro w e w' hw hsame hs k f hf
    rcases hsame w' hs with ⟨hdevices, hfolders⟩ | hnew
    · rcases step_cases hs with ⟨k', f', rfl, -, hstarts, rfl⟩ | ⟨k', f', s, o, rfl, hf', hn, rfl⟩ |
        ⟨e', s, rfl, -, rfl⟩
      · rw [HashMap.lookup_insert_eq] at hf
        split at hf
        · cases hf
          exact upToDate_of_isNew hstarts
        · exact hw k f hf
      · rcases of_lookup_put hf with ⟨rfl, rfl⟩ | ⟨-, hf⟩
        · simp only [system, Flight.next] at hn
          split at hn
          · cases hn
            exact ((hw k f' hf').next ‹_›).2
          · cases hn
          · cases hn
        · exact (hw k f hf).congr hdevices hfolders
      · exact (hw k f hf).congr hdevices hfolders
    · exact upToDate_of_isNew (hnew k f hf)
  · intro w e hw _
    cases e with
    | next k =>
      cases hf : w.flights.lookup k with
      | none => simp [finds, hf]
      | some f => exact (hw k f hf).finds hf
    | _ => rfl

/-- Nobody has connected yet. -/
def unpinned : Shared where
  db := OwnSecrets.rack

theorem unpinned_belong : Belong unpinned := by
  intro id row hrow
  cases hrow

/-- The machine at `host` presents its name as the key. -/
def visit : Connection where
  screen := .terminal
  subject := OwnSecrets.root.subject
  id := 7
  presents e := some e.host

def switchAt (host : String) : DeviceInput :=
  { OwnSecrets.switch "switch" none with host, authMode := "ask" }

/-- A device is there; a connection and a request that gives it another host begin. -/
def twoRequests : List (Interleave.Event Flight Outside) :=
  [.outside (.createDevice OwnSecrets.root 7 (switchAt "old")), .start 0 (.connect visit),
    .start 1 (.updating (.device OwnSecrets.root.subject 7 (switchAt "new")))]

/-- The device gets its new host, then the connection goes there. -/
theorem pins_belong_in_turn :
    ∃ w, Run.run (Interleave.step (system OwnSecrets.noKeys)) (World.quiet unpinned)
        (twoRequests ++ List.replicate 16 (.next 1) ++ List.replicate 12 (.next 0)) = some w ∧
      (w.shared.db.devices.lookup 7).map (·.pins.hostKey) = some (some "new") ∧
      Belong w.shared := by
  have hrun : (Run.run (Interleave.step (system OwnSecrets.noKeys)) (World.quiet unpinned)
      (twoRequests ++ List.replicate 16 (.next 1) ++ List.replicate 12 (.next 0))).map
        (fun w => (w.shared.db.devices.lookup 7).map (·.pins.hostKey)) = some (some (some "new")) := by
    decide
  obtain ⟨w, hw, hpin⟩ := Option.map_eq_some_iff.1 hrun
  have hfinds : Run.Meets (Interleave.step (system OwnSecrets.noKeys))
      (fun w e => finds w e = true) (World.quiet unpinned)
      (twoRequests ++ List.replicate 16 (.next 1) ++ List.replicate 12 (.next 0)) := by
    decide
  exact ⟨w, hw, hpin, pins_belong OwnSecrets.noKeys unpinned unpinned_belong _ w hw hfinds⟩

/-- The connection is presented the key of the old host; the device gets its new host; then the
connection pins the key. -/
theorem pinned_elsewhere :
    Belong unpinned ∧
      ∃ w row, Run.run (Interleave.step (system OwnSecrets.noKeys)) (World.quiet unpinned)
          (twoRequests ++ List.replicate 11 (.next 0) ++ List.replicate 16 (.next 1) ++
            [.next 0]) = some w ∧
        w.shared.db.devices.lookup 7 = some row ∧ row.host = "new" ∧
        row.pins.hostKey = some "old" ∧ ¬Belong w.shared := by
  refine ⟨unpinned_belong, ?_⟩
  have hrun : (Run.run (Interleave.step (system OwnSecrets.noKeys)) (World.quiet unpinned)
      (twoRequests ++ List.replicate 11 (.next 0) ++ List.replicate 16 (.next 1) ++
        [.next 0])).map (fun w => ((w.shared.db.devices.lookup 7).map
          fun row => (row.host, row.pins.hostKey), w.shared.presented.map (·.2.1.host))) =
      some (some ("new", some "old"), ["old"]) := by decide
  obtain ⟨w, hw, hvalues⟩ := Option.map_eq_some_iff.1 hrun
  simp only [Prod.mk.injEq] at hvalues
  obtain ⟨hdevice, hpresented⟩ := hvalues
  obtain ⟨row, hrow, hpinned⟩ := Option.map_eq_some_iff.1 hdevice
  simp only [Prod.mk.injEq] at hpinned
  obtain ⟨hhost, hkey⟩ := hpinned
  refine ⟨w, row, hw, hrow, hhost, hkey, fun hbelong => ?_⟩
  obtain ⟨e, he, hmem⟩ := hbelong 7 row hrow .terminal "old" hkey
  obtain ⟨connectorId, -, rfl⟩ := Option.map_eq_some_iff.1 he
  have hmem := List.mem_map_of_mem (f := fun p : Screen × Endpoint × String => p.2.1.host) hmem
  rw [hpresented, List.mem_singleton] at hmem
  simp [hhost] at hmem

end Pinning

end Server
