import RemoteHub.Server.Proof.Recovery
import RemoteHub.Server.Proof.Unlocks

/-!
# A covered vault can be recovered

An unlock for the organisation names the newest key when it is checked, by the UUID that its text reads
as. The recovery finds it by the text. If every text is the key's own, each such unlock is joined to a key
there is (`Joined`, with what the requests in flight rely on: `Relies`), and a covered vault has an unlock
to recover it with. A vault stays covered until its owner resets it (`Coverable`). Both are in
`covered_recovered`; a key in another spelling is taken and never found (`misspelt_key`).
-/

namespace Server.Unlocks

open Model Except Vaults Interleave

variable {crates : Crates} {k k' : Nat} {s s' : Shared} {f g : Flight} {o : Option Flight}
  {id user : Uuid} {row : UnlockRow}

/-! ## Keys that are named -/

/-- The params name a key by its own text. -/
def Spelt (crates : Crates) (params : Json) : Prop :=
  ∀ text ∈ param params "key_id", ∀ id ∈ crates.uuid text, text = Text.uuidText id

-- the instance for options, not the one that tries every UUID
instance (text : String) : Decidable (∀ id ∈ crates.uuid text, text = Text.uuidText id) :=
  Option.decidableForallMem _

instance (params : Json) : Decidable (Spelt crates params) :=
  inferInstanceAs (Decidable (∀ text ∈ param params "key_id", ∀ id ∈ crates.uuid text,
    text = Text.uuidText id))

/-- The params of an unlock for the organisation that comes in. -/
def Flight.organisation : Flight → Option Json
  | .addUnlock _ _ input => if input.kind = "organisation" then some input.params else none
  | _ => none

/-- An unlock for the organisation that comes in names a key by its own text. -/
def Spells (crates : Crates) (w : World Shared Flight) (e : Interleave.Event Flight Outside) : Prop :=
  ∀ f ∈ mover w e, ∀ params ∈ f.organisation, Spelt crates params

instance (w : World Shared Flight) (e : Interleave.Event Flight Outside) : Decidable (Spells crates w e) :=
  inferInstanceAs (Decidable (∀ f ∈ mover w e, ∀ params ∈ f.organisation, Spelt crates params))

/-- A row for the organisation names a key there is. -/
def Names (t : Tables) (row : UnlockRow) : Prop :=
  row.kind = .organisation → ∃ id ∈ t.keys, row.keyId = some (Text.uuidText id)

def Joined (s : Shared) : Prop :=
  ∀ id row, s.tables.unlocks.lookup id = some row → Names s.tables row

/-- The key `id` is not the newest one, and no unlock names it. -/
structure Spare (t : Tables) (id : Uuid) : Prop where
  newest : t.organisationKey.map (·.1) ≠ some id
  unused : ∀ i row, t.unlocks.lookup i = some row → row.kind = .organisation →
    row.keyId ≠ some (Text.uuidText id)

/-- What a request relies on of the keys. -/
def Relies (crates : Crates) (s : Shared) : Flight → Prop
  | .adding r | .sharing r => r.row.kind = .organisation → Spelt crates r.row.params
  | .replacing r | .found r _ | .deleted r _ | .inserted r _ => Names s.tables r.row
  | .keyRead _ newest => s.tables.organisationKey.map (·.1) = some newest
  | .keyUnused id | .keyDeleted id => Spare s.tables id
  | _ => True

theorem parse_eq_some {text : String} {kind : UnlockKind} (h : UnlockKind.parse text = some kind) :
    kind.asStr = text := by
  simpa using List.find?_some h

theorem newest_mem {keys : Table KeyRow} {newest : Uuid × KeyRow} (h : Vaults.newest keys = some newest) :
    newest.1 ∈ keys := by
  have hmem := List.mem_of_mem_head? h
  obtain ⟨e, he, rfl⟩ := List.mem_map.1 ((List.mem_insertionSort _).1 hmem)
  exact AList.mem_keys.2 (List.mem_map_of_mem he)

/-- An unlock for the organisation is taken for the newest key. -/
theorem checkOrganisation_names (h : checkOrganisation crates s.tables row.params = .ok ())
    (hspelt : Spelt crates row.params) : Names s.tables row := by
  intro _
  obtain ⟨_, hnamed, -⟩ := bind_eq_ok.1 h
  rw [refuse_eq_ok, not_or, not_not] at hnamed
  obtain ⟨hsome, hnamed⟩ := hnamed
  obtain ⟨newest, hnewest⟩ : ∃ newest, s.tables.organisationKey = some newest :=
    Option.ne_none_iff_exists'.1 fun hnone => hsome (by rw [hnone]; rfl)
  rw [hnewest, Option.map_some] at hnamed
  obtain ⟨text, htext, hid⟩ := Option.bind_eq_some_iff.1 hnamed
  refine ⟨newest.1, newest_mem hnewest, ?_⟩
  rw [← hspelt text htext newest.1 hid]
  exact Json.text_of_asStr htext

/-- A lock of the keys against writers. -/
theorem Steps.keys (h : Steps crates k s f s' o) (hf : Ready k s f)
    (hapart : s.keyLocks.Apart Mode.conflicts) {mode : Mode} (hne : k' ≠ k)
    (hk' : (k', mode) ∈ s.keyLocks) (hmode : mode ≠ .rowExclusive) :
    s'.tables.keys = s.tables.keys := by
  rcases h with ⟨-, hquiet⟩ | ⟨-, t, hcommit, hquiet⟩ | ⟨g, -, hleads⟩
  · rw [hquiet.tables]
  · rw [hquiet.tables]
    cases hcommit with
    | createdKey id row =>
      have := hapart _ hk' _ (show (k, Mode.rowExclusive) ∈ s.keyLocks from hf) hne
      cases mode with
      | rowExclusive => exact absurd rfl hmode
      | share | exclusive => cases this
    | deletedKey id =>
      have := hapart _ hk' _ (show (k, Mode.exclusive) ∈ s.keyLocks from hf) hne
      cases mode <;> cases this
    | _ => rfl
  · rw [hleads.quiet.tables]

/-- A lock of the keys against unlocks that are wrapped for one. -/
theorem Steps.organisation (h : Steps crates k s f s' o) (hf : Ready k s f)
    (hapart : s.keyLocks.Apart Mode.conflicts) (hne : k' ≠ k) (hk' : (k', .exclusive) ∈ s.keyLocks)
    (hrow : s'.tables.unlocks.lookup id = some row) (hkind : row.kind = .organisation) :
    s.tables.unlocks.lookup id = some row := by
  rcases h with ⟨-, hquiet⟩ | ⟨-, t, hcommit, hquiet⟩ | ⟨g, -, hleads⟩
  · rwa [hquiet.tables] at hrow
  · rw [hquiet.tables] at hrow
    cases hcommit with
    | unlock r ids =>
      rw [show (s.commitUnlock r ids).tables.unlocks =
        (s.tables.unlocks.eraseAll ids).insert r.id r.row from rfl, HashMap.lookup_insert_eq] at hrow
      split at hrow
      · cases hrow
        cases hapart _ hk' _ (hf.1 hkind) hne
      · exact (HashMap.of_lookup_eraseAll hrow).2
    | removal user id kinds => exact (HashMap.of_lookup_eraseAll hrow).2
    | reset r => exact (HashMap.of_lookup_eraseAll hrow).2
    | _ => exact hrow
  · rwa [hleads.quiet.tables] at hrow

theorem Names.congr {t t' : Tables} (h : Names t row) (hkeys : t'.keys = t.keys) : Names t' row := by
  unfold Names
  rw [hkeys]
  exact h

theorem Relies.transfer (h : Relies crates s g) (hg : Ready k' s g) (hne : k' ≠ k)
    (hapart : s.keyLocks.Apart Mode.conflicts) (hs : Steps crates k s f s' o) (hf : Ready k s f) :
    Relies crates s' g := by
  have hnames : ∀ {r : Replacement}, Shares k' s r → Names s.tables r.row → Names s'.tables r.row := by
    intro r hshares hnames hkind
    exact hnames.congr (hs.keys hf hapart hne (hshares hkind) (by decide)) hkind
  have hspare : ∀ {id}, (k', Mode.exclusive) ∈ s.keyLocks → Spare s.tables id → Spare s'.tables id := by
    intro id hlock hspare
    refine ⟨?_, fun i row hrow hkind => ?_⟩
    · unfold Tables.organisationKey
      rw [hs.keys hf hapart hne hlock (by decide)]
      exact hspare.newest
    · exact hspare.unused i row (hs.organisation hf hapart hne hlock hrow hkind) hkind
  cases g with
  | adding | sharing => exact h
  | replacing | found => exact hnames hg h
  | deleted | inserted => exact hnames hg.1 h
  | keyRead id newest =>
    change s'.tables.organisationKey.map _ = _
    unfold Tables.organisationKey
    rw [hs.keys hf hapart hne hg (by decide)]
    exact h
  | keyUnused | keyDeleted => exact hspare hg h
  | _ => trivial

/-- What a request relies on is in the tables of unlocks and keys. -/
theorem Relies.congr (h : Relies crates s g) (hunlocks : s'.tables.unlocks = s.tables.unlocks)
    (hkeys : s'.tables.keys = s.tables.keys) : Relies crates s' g := by
  have hspare : ∀ {id}, Spare s.tables id → Spare s'.tables id := by
    intro id hspare
    refine ⟨?_, ?_⟩
    · unfold Tables.organisationKey
      rw [hkeys]
      exact hspare.newest
    · rw [hunlocks]
      exact hspare.unused
  cases g with
  | adding | sharing => exact h
  | replacing | found | deleted | inserted => exact Names.congr h hkeys
  | keyRead id newest =>
    change s'.tables.organisationKey.map _ = _
    unfold Tables.organisationKey
    rw [hkeys]
    exact h
  | keyUnused | keyDeleted => exact hspare h
  | _ => trivial

/-- What a request comes to rely on. -/
theorem Leads.names (h : Leads crates k s f s' g) (hf : Relies crates s f)
    (hspells : ∀ params ∈ f.organisation, Spelt crates params) : Relies crates s' g := by
  cases h with
  | @adding session id input row h =>
    intro hkind
    obtain ⟨kind, hparse, h⟩ := bind_eq_ok.1 h
    obtain ⟨_, -, h⟩ := bind_eq_ok.1 h
    obtain ⟨_, -, h⟩ := bind_eq_ok.1 h
    obtain ⟨_, -, h⟩ := bind_eq_ok.1 h
    cases h
    refine hspells input.params ?_
    have htext : kind.asStr = input.kind := parse_eq_some (elim_eq_ok.1 hparse)
    rw [show kind = .organisation from hkind] at htext
    exact if_pos htext.symm
  | sharing => exact hf
  | replacing hkind => exact fun horganisation => absurd horganisation hkind
  | checked h => exact fun hkind => checkOrganisation_names h (hf hkind) hkind
  | passkey | found | deleted | inserted | keyDeleted => exact hf
  | oneTime => exact fun hkind => by cases hkind
  | keyRead h =>
    change Option.map _ _ = _
    rw [h]
    rfl
  | keyUnused hused hnewest =>
    refine ⟨?_, fun i row hrow hkind hkey => ?_⟩
    · rw [show Option.map _ _ = _ from hf]
      exact fun heq => hnewest (Option.some.inj heq)
    · have hmem : i ∈ s.usesOf _ := HashMap.mem_keysWhere.2 ⟨row, hrow, hkind, hkey⟩
      rw [hused] at hmem
      cases hmem
  | _ => trivial

/-- Every unlock for the organisation still names a key. -/
theorem Steps.joined (h : Steps crates k s f s' o) (hs : Joined s) (hr : Relies crates s f) :
    Joined s' := by
  intro id row hrow
  rcases h with ⟨-, hquiet⟩ | ⟨-, t, hcommit, hquiet⟩ | ⟨g, -, hleads⟩
  · rw [hquiet.tables] at hrow ⊢
    exact hs id row hrow
  · rw [hquiet.tables] at hrow ⊢
    cases hcommit with
    | unlock r ids =>
      rw [show (s.commitUnlock r ids).tables.unlocks =
        (s.tables.unlocks.eraseAll ids).insert r.id r.row from rfl, HashMap.lookup_insert_eq] at hrow
      split at hrow
      · cases hrow
        exact hr
      · exact hs id row (HashMap.of_lookup_eraseAll hrow).2
    | removal user id kinds => exact hs _ row (HashMap.of_lookup_eraseAll hrow).2
    | reset r => exact hs id row (HashMap.of_lookup_eraseAll hrow).2
    | createdKey i key =>
      intro hkind
      obtain ⟨i', hi', hkey⟩ := hs id row hrow hkind
      exact ⟨i', AList.mem_insert _ |>.2 (.inr hi'), hkey⟩
    | deletedKey i =>
      -- the key that goes is not the one that the unlock names
      intro hkind
      obtain ⟨i', hi', hkey⟩ := hs id row hrow hkind
      refine ⟨i', AList.mem_erase.2 ⟨?_, hi'⟩, hkey⟩
      rintro rfl
      exact hr.unused id row hrow hkind hkey
    | _ => exact hs id row hrow
  · rw [hleads.quiet.tables] at hrow ⊢
    exact hs id row hrow

/-- The newest key stays. -/
theorem Steps.newest (h : Steps crates k s f s' o) (hr : Relies crates s f) {newest : Uuid × KeyRow}
    (hnewest : s.tables.organisationKey = some newest) : newest.1 ∈ s'.tables.keys := by
  have hmem : newest.1 ∈ s.tables.keys := newest_mem hnewest
  rcases h with ⟨-, hquiet⟩ | ⟨-, t, hcommit, hquiet⟩ | ⟨g, -, hleads⟩
  · rwa [hquiet.tables]
  · rw [hquiet.tables]
    cases hcommit with
    | createdKey id row => exact AList.mem_insert _ |>.2 (.inr hmem)
    | deletedKey id =>
      refine AList.mem_erase.2 ⟨?_, hmem⟩
      rintro rfl
      refine Spare.newest hr ?_
      rw [hnewest]
      rfl
    | _ => exact hmem
  · rwa [hleads.quiet.tables]

/-! ## Vaults that a recovery waits for -/

theorem covered_iff : s.tables.Covered user ↔ s.Has (UnlockRow.Wraps · user) := by
  constructor
  · rintro ⟨e, he, hwraps⟩
    exact ⟨e.1, e.2, HashMap.lookup_eq_some.2 he, hwraps⟩
  · rintro ⟨id, row, hrow, hwraps⟩
    exact ⟨⟨id, row⟩, HashMap.lookup_eq_some.1 hrow, hwraps⟩

/-- The user whose vault was seen to be covered, or to be up for recovery. -/
def Flight.recovers : Flight → Option Uuid
  | .covered _ row | .created _ row => some row.userId
  | .opening user => some user
  | _ => none

/-- No recovery of the vault is open, is being asked for or is being read. -/
def Undisturbed (w : World Shared Flight) (user : Uuid) : Prop :=
  ¬OpenFor w.shared.recoveries user ∧ ∀ g ∈ w.flights.entries, g.2.recovers ≠ some user

instance (w : World Shared Flight) : DecidablePred (Undisturbed w) := fun user =>
  inferInstanceAs (Decidable (¬OpenFor w.shared.recoveries user ∧
    ∀ g ∈ w.flights.entries, g.2.recovers ≠ some user))

/-- Only vaults without a recovery are reset. -/
def Leaves (w : World Shared Flight) (e : Interleave.Event Flight Outside) : Prop :=
  ∀ f ∈ mover w e, ∀ user ∈ f.resets, Undisturbed w user

instance (w : World Shared Flight) (e : Interleave.Event Flight Outside) : Decidable (Leaves w e) :=
  have (f : Flight) : Decidable (∀ user ∈ f.resets, Undisturbed w user) :=
    Option.decidableForallMem f.resets
  inferInstanceAs (Decidable (∀ f ∈ mover w e, ∀ user ∈ f.resets, Undisturbed w user))

/-- The vaults with an open recovery are covered. -/
def Coverable (s : Shared) : Prop :=
  ∀ id row, s.recoveries.lookup id = some row → row.completedAt = none → s.tables.Covered row.userId

/-- The vault that a request recovers is covered. -/
def Recovers (s : Shared) (f : Flight) : Prop := ∀ user ∈ f.recovers, s.tables.Covered user

/-- A vault stays covered until its owner resets it. -/
theorem Steps.covered (h : Steps crates k s f s' o) (hf : Ready k s f) (huser : f.resets ≠ some user)
    (hc : s.tables.Covered user) : s'.tables.Covered user := by
  rw [covered_iff] at hc ⊢
  have hsame : ∀ row row' : UnlockRow, row'.userId = row.userId → row'.kind = row.kind →
      row.Wraps user → row'.Wraps user :=
    fun _ _ howner hkind hwraps => ⟨howner.trans hwraps.1, hkind.trans hwraps.2⟩
  rcases h.has hf hsame (fun _ hwraps => hwraps.1) (fun _ _ hown _ hwraps => absurd hwraps.2 hown.2) hc
    with hc | ⟨r, hreset⟩
  · exact hc
  · exact absurd hreset.resets huser

/-- A recovery that is open was so before, or is the one that is asked for. -/
theorem Steps.open (h : Steps crates k s f s' o) {row : RecoveryRow}
    (hrow : s'.recoveries.lookup id = some row) (hopen : row.completedAt = none) :
    (f.recovers = some row.userId ∧ f.resets = none) ∨ ∃ old, s.recoveries.lookup id = some old ∧
      old.completedAt = none ∧ old.userId = row.userId := by
  have hcompleted : ∀ {i at'}, (s.completed i at').lookup id = some row →
      ∃ old, s.recoveries.lookup id = some old ∧ old.completedAt = none ∧
        old.userId = row.userId := by
    intro i at' hrow
    unfold Shared.completed at hrow
    rw [HashMap.lookup_modify] at hrow
    split at hrow
    · obtain ⟨old, -, rfl⟩ := Option.map_eq_some_iff.1 hrow
      cases hopen
    · exact ⟨row, hrow, hopen, rfl⟩
  rcases h with ⟨-, hquiet⟩ | ⟨-, t, hcommit, hquiet⟩ | ⟨g, -, hleads⟩
  · rw [hquiet.recoveries] at hrow
    exact .inr ⟨row, hrow, hopen, rfl⟩
  · rw [hquiet.recoveries] at hrow
    cases hcommit with
    | unlock r ids =>
      cases hdone : r.completes with
      | none =>
        rw [show (s.commitUnlock r ids).recoveries = r.completes.elim s.recoveries
          fun done => s.completed done.1 done.2 from rfl, hdone] at hrow
        exact .inr ⟨row, hrow, hopen, rfl⟩
      | some done =>
        rw [show (s.commitUnlock r ids).recoveries = r.completes.elim s.recoveries
          fun done => s.completed done.1 done.2 from rfl, hdone] at hrow
        exact .inr (hcompleted hrow)
    | recovery i new =>
      rw [HashMap.lookup_insert_eq] at hrow
      split at hrow
      · cases hrow
        exact .inl ⟨rfl, rfl⟩
      · exact .inr ⟨row, hrow, hopen, rfl⟩
    | approved session i =>
      rw [HashMap.lookup_modify] at hrow
      split at hrow
      · obtain ⟨old, hold, rfl⟩ := Option.map_eq_some_iff.1 hrow
        exact .inr ⟨old, hold, hopen, rfl⟩
      · exact .inr ⟨row, hrow, hopen, rfl⟩
    | cancelled session i => exact .inr ⟨row, (HashMap.of_lookup_erase hrow).2, hopen, rfl⟩
    | handedOver i at' => exact .inr (hcompleted hrow)
    | _ => exact .inr ⟨row, hrow, hopen, rfl⟩
  · rw [hleads.quiet.recoveries] at hrow
    exact .inr ⟨row, hrow, hopen, rfl⟩

/-- What a request recovers is covered when it begins to. -/
theorem Leads.recovers (h : Leads crates k s f s' g) (hs : Coverable s) (hf : Recovers s f) :
    Recovers s' g := by
  intro user huser
  rw [h.quiet.tables]
  cases h with
  | covered hcovered howner =>
    cases huser
    rw [howner]
    exact hcovered
  | created => exact hf user huser
  | opening hready =>
    cases huser
    have hready := Recovery.ready_eq_ok hready
    exact hs _ _ hready.found hready.uncompleted
  | _ => cases huser

/-! ## Runs -/

variable {w w' : World Shared Flight} {e : Interleave.Event Flight Outside}

theorem joined_step (hb : Locked w) (hw : Holds Joined (fun _ => Relies crates) w)
    (hC : Spells crates w e) (hs : step (system crates) w e = some w') :
    Holds Joined (fun _ => Relies crates) w' := by
  refine hw.step hs ?_ ?_ ?_
  · intro k f hf
    cases f <;> trivial
  · intro k f s o he hf hn
    subst he
    have hsteps := next_steps hn
    have hready : Ready k w.shared f := hb.flights k f hf
    have hrelies : Relies crates w.shared f := hw.flights k f hf
    refine ⟨hsteps.joined hw.shared hrelies, fun g hg => ?_, fun k' g hne hg => ?_⟩
    · rcases hsteps with ⟨rfl, -⟩ | ⟨rfl, -⟩ | ⟨g', rfl, hleads⟩
      · cases hg
      · cases hg
      · cases hg
        exact hleads.names hrelies (hC f hf)
    · exact (hw.flights k' g hg).transfer (hb.flights k' g hg) hne hb.shared hsteps hready
  · intro e' s he ho
    have helsewhere := outside_elsewhere ho
    refine ⟨fun id row hrow => ?_, fun k g hg => ?_⟩
    · rw [helsewhere.unlocks] at hrow
      exact (hw.shared id row hrow).congr helsewhere.keys
    · have hrelies : Relies crates w.shared g := hw.flights k g hg
      exact hrelies.congr helsewhere.unlocks helsewhere.keys

theorem coverable_step (hb : Locked w) (hw : Holds Coverable (fun _ => Recovers) w)
    (hC : Leaves w e) (hs : step (system crates) w e = some w') :
    Holds Coverable (fun _ => Recovers) w' := by
  refine hw.step hs ?_ ?_ ?_
  · intro k f hf user huser
    cases f <;> first | (cases huser; done) | cases hf
  · intro k f s o he hf hn
    subst he
    have hsteps := next_steps hn
    have hready : Ready k w.shared f := hb.flights k f hf
    refine ⟨fun id row hrow hopen => ?_, fun g hg => ?_, fun k' g hne hg user huser => ?_⟩
    · rcases hsteps.open hrow hopen with ⟨hrecovers, hresets⟩ | ⟨old, hold, hopen', howner⟩
      · refine hsteps.covered hready (by rw [hresets]; exact nofun) ?_
        exact hw.flights k f hf row.userId hrecovers
      · rw [← howner]
        refine hsteps.covered hready (fun hresets => ?_) (hw.shared id old hold hopen')
        exact (hC f hf old.userId hresets).1
          ⟨⟨id, old⟩, HashMap.lookup_eq_some.1 hold, rfl, hopen'⟩
    · rcases hsteps with ⟨rfl, -⟩ | ⟨rfl, -⟩ | ⟨g', rfl, hleads⟩
      · cases hg
      · cases hg
      · cases hg
        exact hleads.recovers hw.shared (hw.flights k f hf)
    · refine hsteps.covered hready (fun hresets => ?_) (hw.flights k' g hg user huser)
      exact (hC f hf user hresets).2 ⟨k', g⟩ (HashMap.lookup_eq_some.1 hg) huser
  · intro e' s he ho
    have helsewhere := outside_elsewhere ho
    have hcovered : ∀ user, w.shared.tables.Covered user → s.tables.Covered user := by
      intro user hc
      unfold Tables.Covered
      rw [helsewhere.unlocks]
      exact hc
    refine ⟨fun id row hrow hopen => ?_,
      fun k g hg user huser => hcovered user (hw.flights k g hg user huser)⟩
    rw [helsewhere.recoveries] at hrow
    exact hcovered _ (hw.shared id row hrow hopen)

theorem joined_of_names {t : Tables} (h : Names t row) (hkind : row.kind = .organisation) :
    (t.joined row).isSome = true := by
  obtain ⟨id, hid, hkey⟩ := h hkind
  obtain ⟨e, he, rfl⟩ := List.mem_map.1 (AList.mem_keys.1 hid)
  unfold Tables.joined
  rw [Option.isSome_map, List.find?_isSome]
  exact ⟨e, he, decide_eq_true hkey.symm⟩

/-- The recovery of a covered vault finds its unlock. -/
theorem Joined.found (hs : Joined s) (hc : s.tables.Covered user) :
    (s.tables.organisationUnlock user).isSome = true := by
  obtain ⟨e, he, hwraps⟩ := hc
  have hjoined := joined_of_names (hs e.1 e.2 (HashMap.lookup_eq_some.2 he)) hwraps.2
  unfold Tables.organisationUnlock
  rw [List.findSome?_isSome_iff]
  refine ⟨e, List.mem_filter.2 ⟨he, decide_eq_true hwraps⟩, ?_⟩
  rw [Option.isSome_map]
  exact hjoined

/-- What a vault counts as covered for. -/
structure Sound (crates : Crates) (w : World Shared Flight) : Prop where
  joined : ∀ id row, w.shared.tables.unlocks.lookup id = some row → row.kind = .organisation →
    (w.shared.tables.joined row).isSome = true
  newest : ∀ e w', step (system crates) w e = some w' →
    ∀ newest, w.shared.tables.organisationKey = some newest → newest.1 ∈ w'.shared.tables.keys
  found : ∀ user, w.shared.tables.Covered user →
    (w.shared.tables.organisationUnlock user).isSome = true

/-- A recovery of a vault that was covered can be carried out. -/
structure Answered (w : World Shared Flight) : Prop where
  waiting : ∀ id row, w.shared.recoveries.lookup id = some row → row.completedAt = none →
    (w.shared.tables.organisationUnlock row.userId).isSome = true
  opening : ∀ k user, w.flights.lookup k = some (.opening user) →
    (w.shared.tables.organisationUnlock user).isSome = true

theorem newest_stays (hw : Holds Joined (fun _ => Relies crates) w)
    (hs : step (system crates) w e = some w') {newest : Uuid × KeyRow}
    (hnewest : w.shared.tables.organisationKey = some newest) : newest.1 ∈ w'.shared.tables.keys := by
  rcases step_cases hs with ⟨k, f, -, -, -, rfl⟩ | ⟨k, f, s, o, -, hf, hn, rfl⟩ | ⟨e', s, -, ho, rfl⟩
  · exact newest_mem hnewest
  · exact (next_steps hn).newest (hw.flights k f hf) hnewest
  · change newest.1 ∈ s.tables.keys
    rw [(outside_elsewhere ho).keys]
    exact newest_mem hnewest

/-- **A covered vault can be recovered**, over every interleaving in which each unlock for the
organisation names its key by the key's own text; and when it is recovered, if its owner has not reset it
after the recovery was asked for. -/
theorem covered_recovered {clock : Int} {es : List (Interleave.Event Flight Outside)}
    (hm : Run.Meets (step (system crates)) (Spells crates) (World.quiet { clock }) es)
    (hr : Run.run (step (system crates)) (World.quiet { clock }) es = some w) :
    Sound crates w ∧
      (Run.Meets (step (system crates)) Leaves (World.quiet { clock }) es → Answered w) := by
  have hbase : Locked (World.quiet { clock }) := locked_quiet _ rfl
  have hjoined : Holds Joined (fun _ => Relies crates) (World.quiet { clock }) :=
    .quiet fun id row hrow => by cases hrow
  have hw : Locked w ∧ Holds Joined (fun _ => Relies crates) w := by
    refine Run.inv_of_meets (I := fun _ w => Locked w ∧ Holds Joined (fun _ => Relies crates) w)
      ⟨hbase, hjoined⟩ ?_ hm hr
    intro es t e t' _ hC hs ht
    exact ⟨locked_step ht.1 hs, joined_step ht.1 ht.2 hC hs⟩
  refine ⟨⟨fun id row hrow hkind => joined_of_names (hw.2.shared id row hrow) hkind,
    fun e w' hs newest hnewest => newest_stays hw.2 hs hnewest,
    fun user hc => hw.2.shared.found hc⟩, fun hleaves => ?_⟩
  have hcoverable : Holds Coverable (fun _ => Recovers) (World.quiet { clock }) :=
    .quiet fun id row hrow => by cases hrow
  have hc : Locked w ∧ Holds Coverable (fun _ => Recovers) w := by
    refine Run.inv_of_meets (I := fun _ w => Locked w ∧ Holds Coverable (fun _ => Recovers) w)
      ⟨hbase, hcoverable⟩ ?_ hleaves hr
    intro es t e t' _ hC hs ht
    exact ⟨locked_step ht.1 hs, coverable_step ht.1 ht.2 hC hs⟩
  exact ⟨fun id row hrow hopen => hw.2.shared.found (hc.2.shared id row hrow hopen),
    fun k user hf => hw.2.shared.found (hc.2.flights k _ hf user rfl)⟩

/-! ## A run -/

/-- It reads the UUID 10, also in capitals. -/
def ten : Crates where
  uuid text := if text.toList.map Char.toLower = (Text.uuidText 10).toList then some 10 else none
  base64 _ := some (List.replicate 65 4)
  isPublicKey _ := true

/-- An unlock for the organisation. -/
def wrap (keyId : String) : NewUnlock where
  kind := "organisation"
  params := .object [("key_id", .string keyId), ("ephemeral", .string "BAQE")]
  wrappedKey := List.replicate 16 0

/-- The owner of the vault. -/
def owner : Session := ⟨3, "uma", .directory, []⟩

/-- A recovery key is created, the owner wraps the vault for it, and a recovery is asked for, is
approved and reads the vault. -/
def recovery (keyId : String) : List (Interleave.Event Flight Outside) :=
  .start 0 (.createKey Recovery.administrator 10 [4]) :: List.replicate 3 (.next 0) ++
    .start 1 (.addUnlock owner 20 (wrap keyId)) :: List.replicate 7 (.next 1) ++
    .start 2 (.create Recovery.administrator 30 3 "handover" "left the company") ::
      List.replicate 3 (.next 2) ++
    .start 3 (.approve Recovery.officer 30) :: List.replicate 2 (.next 3) ++
    [.start 4 (.vault Recovery.administrator 30), .next 4]

/-- What a run leaves of the vault: whether it is covered, and whether the recovery finds its unlock. -/
def outcome (w : World Shared Flight) : Bool × Bool × Nat :=
  (decide (w.shared.tables.Covered 3), (w.shared.tables.organisationUnlock 3).isSome,
    w.flights.keys.length)

theorem covered_recovered_handover :
    ∃ w, Run.run (step (system ten)) (World.quiet { clock := 0 }) (recovery "00000000-0000-0000-0000-00000000000a") = some w ∧
      outcome w = (true, true, 1) ∧ Sound ten w ∧ Answered w := by
  have hrun : (Run.run (step (system ten)) (World.quiet { clock := 0 })
      (recovery "00000000-0000-0000-0000-00000000000a")).map outcome = some (true, true, 1) := by decide +kernel
  obtain ⟨w, hr, hw⟩ := Option.map_eq_some_iff.1 hrun
  have hm : Run.Meets (step (system ten)) (Spells ten) (World.quiet { clock := 0 })
      (recovery "00000000-0000-0000-0000-00000000000a") := by decide +kernel
  have hleaves : Run.Meets (step (system ten)) Leaves (World.quiet { clock := 0 })
      (recovery "00000000-0000-0000-0000-00000000000a") := by decide +kernel
  obtain ⟨hsound, hanswered⟩ := covered_recovered hm hr
  exact ⟨w, hr, hw, hsound, hanswered hleaves⟩

/-- The owner names the key in capitals. The vault counts as covered, its recovery is approved, and the
recovery finds nothing. -/
theorem misspelt_key :
    ∃ w row, Run.run (step (system ten)) (World.quiet { clock := 0 })
        (recovery "00000000-0000-0000-0000-00000000000A") = some w ∧
      w.shared.tables.Covered 3 ∧ w.shared.recoveries.lookup 30 = some row ∧
      row.approvedAt = some 0 ∧ w.shared.tables.organisationUnlock 3 = none ∧
      ¬Sound ten w ∧ ¬Answered w := by
  have hrun : (Run.run (step (system ten)) (World.quiet { clock := 0 })
      (recovery "00000000-0000-0000-0000-00000000000A")).map (fun w =>
        (outcome w, (w.shared.recoveries.lookup 30).map fun row =>
          (row.userId, row.approvedAt, row.completedAt))) =
      some ((true, false, 1), some (3, some 0, none)) := by decide
  obtain ⟨w, hr, hw⟩ := Option.map_eq_some_iff.1 hrun
  simp only [outcome, Prod.mk.injEq, decide_eq_true_eq] at hw
  obtain ⟨⟨hcovered, hfound, -⟩, hrecovery⟩ := hw
  obtain ⟨row, hrow, hvalues⟩ := Option.map_eq_some_iff.1 hrecovery
  simp only [Prod.mk.injEq] at hvalues
  obtain ⟨huser, happroved, hopen⟩ := hvalues
  have hnone : w.shared.tables.organisationUnlock 3 = none :=
    Option.not_isSome_iff_eq_none.1 (by rw [hfound]; exact Bool.false_ne_true)
  refine ⟨w, row, hr, hcovered, hrow, happroved, hnone, fun hsound => ?_, fun hanswered => ?_⟩
  · have := hsound.found 3 hcovered
    rw [hfound] at this
    cases this
  · have := hanswered.waiting 30 row hrow hopen
    rw [huser, hfound] at this
    cases this

end Server.Unlocks
