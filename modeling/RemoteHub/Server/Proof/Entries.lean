import RemoteHub.Server.Proof.Coverage

/-!
# Entries that their owner can read

An unlock of the user's own stays, or is replaced, or has another one next to it, unless the vault is
reset (`Steps.has`), and a reset has found every entry of the user (`Reads`). Over the runs in which no
entry is saved past a reset, or by a user who has only the wrap for the organisation, everybody with an
entry has an unlock of their own (`entries_readable`).

`save_entry` locks nothing between its look for an unlock and its commit: a reset in between leaves an
entry that nobody can open (`saved_past_reset`). A wrap for the organisation counts as an unlock there
(`saved_without_own`).
-/

namespace Server.Unlocks

open Model Except Vaults Interleave

variable {crates : Crates} {k k' : Nat} {s s' : Shared} {f g : Flight} {o : Option Flight}
  {id user : Uuid} {w w' : World Shared Flight} {e : Interleave.Event Flight Outside}

instance (user : Uuid) : DecidablePred (Own user) := fun row =>
  inferInstanceAs (Decidable (row.userId = user ∧ row.kind ≠ .organisation))

/-- Whether the user has an unlock of their own. -/
def HasOwn (t : Tables) (user : Uuid) : Prop := ∃ e ∈ t.unlocks.entries, Own user e.2

instance (t : Tables) (user : Uuid) : Decidable (HasOwn t user) :=
  inferInstanceAs (Decidable (∃ e ∈ t.unlocks.entries, Own user e.2))

theorem hasOwn_iff : HasOwn s.tables user ↔ s.Has (Own user) := by
  constructor
  · rintro ⟨e, he, hown⟩
    exact ⟨e.1, e.2, HashMap.lookup_eq_some.2 he, hown⟩
  · rintro ⟨id, row, hrow, hown⟩
    exact ⟨⟨id, row⟩, HashMap.lookup_eq_some.1 hrow, hown⟩

/-! ## What comes between -/

/-- The user whose entry is to be saved, before the look for an unlock. -/
def Flight.looks : Flight → Option Uuid
  | .saveEntry session _ _ _ => some session.userId
  | _ => none

/-- An entry that is saved. -/
structure Save where
  id : Uuid
  user : Uuid
  /-- The resets of the vault that were committed at the look for an unlock. -/
  seen : Nat

/-- The entry that is saved with the next step. -/
def Flight.saves : Flight → Option Save
  | .saved id row seen => some ⟨id, row.userId, seen⟩
  | _ => none

/-- A reset that has found the entries it deletes. -/
def Flight.sweeps : Flight → Option Reset
  | .resetting r | .resetEntries r | .resetAttachments r | .resetFound r | .resetUnlocks r => some r
  | _ => none

/-- A user with an unlock has one of their own. -/
def Looks (w : World Shared Flight) (user : Uuid) : Prop :=
  w.shared.unlocksOf user = [] ∨ HasOwn w.shared.tables user

/-- The vault was not reset since the look for an unlock, and no reset of it under way has passed over
the entry. -/
def Undone (w : World Shared Flight) (save : Save) : Prop :=
  w.shared.resets.count save.user = save.seen ∧
    ∀ g ∈ w.flights.entries, ∀ r ∈ g.2.sweeps, r.user = save.user → save.id ∈ r.entries

/-- No entry is saved past a reset, or by a user who has only the wrap for the organisation. -/
def Saves (w : World Shared Flight) (e : Interleave.Event Flight Outside) : Prop :=
  ∀ f ∈ mover w e, (∀ user ∈ f.looks, Looks w user) ∧ ∀ save ∈ f.saves, Undone w save

instance (w : World Shared Flight) : DecidablePred (Looks w) := fun user =>
  inferInstanceAs (Decidable (w.shared.unlocksOf user = [] ∨ HasOwn w.shared.tables user))

instance (w : World Shared Flight) : DecidablePred (Undone w) := fun save =>
  have (g : Sigma fun _ : Nat => Flight) :
      Decidable (∀ r ∈ g.2.sweeps, r.user = save.user → save.id ∈ r.entries) :=
    Option.decidableForallMem g.2.sweeps
  inferInstanceAs (Decidable (w.shared.resets.count save.user = save.seen ∧
    ∀ g ∈ w.flights.entries, ∀ r ∈ g.2.sweeps, r.user = save.user → save.id ∈ r.entries))

instance (w : World Shared Flight) (e : Interleave.Event Flight Outside) : Decidable (Saves w e) :=
  have (f : Flight) : Decidable (∀ user ∈ f.looks, Looks w user) := Option.decidableForallMem f.looks
  have (f : Flight) : Decidable (∀ save ∈ f.saves, Undone w save) := Option.decidableForallMem f.saves
  inferInstanceAs (Decidable (∀ f ∈ mover w e,
    (∀ user ∈ f.looks, Looks w user) ∧ ∀ save ∈ f.saves, Undone w save))

/-! ## The invariant -/

/-- Everybody with an entry has an unlock of their own. -/
def Readable (s : Shared) : Prop :=
  ∀ id row, s.tables.entries.lookup id = some row → HasOwn s.tables row.userId

/-- Unless the vault was reset since, the user has an unlock of their own. -/
def Looked (s : Shared) (user : Uuid) (seen : Nat) : Prop :=
  seen ≤ s.resets.count user ∧ (s.resets.count user = seen → HasOwn s.tables user)

/-- The reset has found all entries. -/
def Finds (s : Shared) (r : Reset) : Prop :=
  ∀ id row, s.tables.entries.lookup id = some row → row.userId = r.user → id ∈ r.entries

/-- What a request relies on of the entries. -/
def Reads (s : Shared) : Flight → Prop
  | .saving _ row seen | .saved _ row seen => Looked s row.userId seen
  | .resetting r | .resetEntries r | .resetAttachments r | .resetFound r | .resetUnlocks r => Finds s r
  | _ => True

/-- The user keeps an unlock of their own, or the vault is reset. -/
theorem Steps.own (h : Steps crates k s f s' o) (hf : Ready k s f) (hown : HasOwn s.tables user) :
    HasOwn s'.tables user ∨ ∃ r, ResetBy s f s' user r := by
  rw [hasOwn_iff] at hown ⊢
  refine h.has hf (fun _ _ howner hkind hown => ⟨howner.trans hown.1, ?_⟩) (fun _ hown => hown.1)
    (fun _ _ _ hother hown => ⟨hother.1.trans hown.1, hother.2⟩) hown
  rw [hkind]
  exact hown.2

theorem Commit.entries {t : Shared} (h : Commit s f t) :
    (t.tables.entries = s.tables.entries ∧ f.saves = none) ∨
      (∃ id row seen, f = .saved id row seen ∧ t = s.commitEntry id row) ∨
      ∃ r, f = .resetUnlocks r ∧ t = s.commitReset r := by
  cases h with
  | entry id row seen => exact .inr (.inl ⟨id, row, seen, rfl, rfl⟩)
  | reset r => exact .inr (.inr ⟨r, rfl, rfl⟩)
  | _ => exact .inl ⟨rfl, rfl⟩

/-- An entry after a step was there, or is the one that is saved. -/
theorem Steps.entries (h : Steps crates k s f s' o) {row : SealedRow}
    (hrow : s'.tables.entries.lookup id = some row) : s.tables.entries.lookup id = some row ∨
      ∃ save, f.saves = some save ∧ save.id = id ∧ save.user = row.userId := by
  rcases h with ⟨-, hquiet⟩ | ⟨-, t, hcommit, hquiet⟩ | ⟨g, -, hleads⟩
  · rw [hquiet.tables] at hrow
    exact .inl hrow
  · rw [hquiet.tables] at hrow
    rcases hcommit.entries with ⟨hsame, -⟩ | ⟨i, new, seen, rfl, rfl⟩ | ⟨r, rfl, rfl⟩
    · rw [hsame] at hrow
      exact .inl hrow
    · rw [show (s.commitEntry i new).tables.entries = s.tables.entries.insert i _ from rfl,
        HashMap.lookup_insert_eq] at hrow
      split at hrow
      · subst id
        cases hrow
        exact .inr ⟨_, rfl, rfl, rfl⟩
      · exact .inl hrow
    · exact .inl (HashMap.of_lookup_eraseAll hrow).2
  · rw [hleads.quiet.tables] at hrow
    exact .inl hrow

/-- After a reset, no entry of the user's is left. -/
theorem ResetBy.entries {r : Reset} (h : ResetBy s f s' user r) (hr : Finds s r) {row : SealedRow}
    (hrow : s'.tables.entries.lookup id = some row) : row.userId ≠ user := by
  rw [h.tables] at hrow
  obtain ⟨hnot, hrow⟩ := HashMap.of_lookup_eraseAll hrow
  rintro rfl
  exact hnot (hr id row hrow h.owner.symm)

/-- Resets are counted. -/
theorem Steps.resets (h : Steps crates k s f s' o) :
    s'.resets = s.resets ∨ ∃ r, f = .resetUnlocks r ∧ s'.resets = r.user :: s.resets := by
  rcases h with ⟨-, hquiet⟩ | ⟨-, t, hcommit, hquiet⟩ | ⟨g, -, hleads⟩
  · exact .inl hquiet.resets
  · rw [hquiet.resets]
    cases hcommit with
    | reset r => exact .inr ⟨r, rfl, rfl⟩
    | _ => exact .inl rfl
  · exact .inl hleads.quiet.resets

theorem Looked.step {seen : Nat} (hl : Looked s user seen) (h : Steps crates k s f s' o)
    (hf : Ready k s f) : Looked s' user seen := by
  have hcount : s.resets.count user ≤ s'.resets.count user := by
    rcases h.resets with heq | ⟨r, -, heq⟩
    · rw [heq]
    · rw [heq]
      exact List.count_le_count_cons
  refine ⟨hl.1.trans hcount, fun hseen => ?_⟩
  have hsame : s.resets.count user = seen := le_antisymm (hcount.trans hseen.le) hl.1
  rcases h.own hf (hl.2 hsame) with hown | ⟨r, hreset⟩
  · exact hown
  · rw [hreset.count, List.count_cons_self, hsame] at hseen
    omega

theorem Finds.step {r : Reset} (hr : Finds s r) (h : Steps crates k s f s' o)
    (hsave : ∀ save, f.saves = some save → r.user = save.user → save.id ∈ r.entries) : Finds s' r := by
  intro id row hrow howner
  rcases h.entries hrow with hrow | ⟨save, hf, rfl, huser⟩
  · exact hr id row hrow howner
  · exact hsave save hf (howner.symm.trans huser.symm)

/-- What a request comes to rely on. -/
theorem Leads.reads (h : Leads crates k s f s' g) (hf : Reads s f)
    (hlooks : ∀ user ∈ f.looks, s.unlocksOf user = [] ∨ HasOwn s.tables user) : Reads s' g := by
  cases h with
  | saving hunlock => exact ⟨le_rfl, fun _ => (hlooks _ rfl).resolve_left hunlock⟩
  | resetting => exact fun id row hrow howner => mem_entriesOf.2 ⟨row, hrow, howner⟩
  | resetEntries hl =>
    exact fun id row hrow howner => List.mem_filter.2
      ⟨hf id row hrow howner, decide_eq_true (mem_entriesOf.2 ⟨row, hrow, howner⟩)⟩
  | saved | resetAttachments | resetFound | resetUnlocks => exact hf
  | _ => trivial

theorem readable_step (hb : Locked w) (hw : Holds Readable (fun _ => Reads) w) (hC : Saves w e)
    (hs : step (system crates) w e = some w') : Holds Readable (fun _ => Reads) w' := by
  refine hw.step hs ?_ ?_ ?_
  · intro k f hf
    cases f <;> trivial
  · intro k f s o he hf hn
    subst he
    have hsteps := next_steps hn
    have hready : Ready k w.shared f := hb.flights k f hf
    have hreads : Reads w.shared f := hw.flights k f hf
    obtain ⟨hlooks, hsaves⟩ := hC f hf
    refine ⟨fun id row hrow => ?_, fun g hg => ?_, fun k' g hne hg => ?_⟩
    · -- who has an entry has an unlock before the step
      have hown : HasOwn w.shared.tables row.userId := by
        rcases hsteps.entries hrow with hold | ⟨save, hsave, -, huser⟩
        · exact hw.shared id row hold
        · have hundone : Undone w save := hsaves save hsave
          cases f with
          | saved i new seen =>
            cases hsave
            rw [← huser]
            exact hreads.2 hundone.1
          | _ => cases hsave
      rcases hsteps.own hready hown with hown | ⟨r, hreset⟩
      · exact hown
      · have hfinds : Finds w.shared r := by
          rw [hreset.flight] at hreads
          exact hreads
        exact absurd rfl (hreset.entries hfinds hrow)
    · rcases hsteps with ⟨rfl, -⟩ | ⟨rfl, -⟩ | ⟨g', rfl, hleads⟩
      · cases hg
      · cases hg
      · cases hg
        exact hleads.reads hreads hlooks
    · have hg' : Reads w.shared g := hw.flights k' g hg
      have hfinds : ∀ r, g.sweeps = some r → Finds w.shared r → Finds s r := by
        intro r hr hfinds
        exact hfinds.step hsteps fun save hsave =>
          (hsaves save hsave).2 ⟨k', g⟩ (HashMap.lookup_eq_some.1 hg) r hr
      cases g with
      | saving | saved => exact Looked.step hg' hsteps hready
      | resetting r | resetEntries r | resetAttachments r | resetFound r | resetUnlocks r =>
        exact hfinds r rfl hg'
      | _ => trivial
  · intro e' s he ho
    have helsewhere := outside_elsewhere ho
    have hown : ∀ user, HasOwn w.shared.tables user → HasOwn s.tables user := by
      intro user hown
      unfold HasOwn
      rw [helsewhere.unlocks]
      exact hown
    refine ⟨fun id row hrow => ?_, fun k g hg => ?_⟩
    · rw [helsewhere.entries] at hrow
      exact hown _ (hw.shared id row hrow)
    · have hg' : Reads w.shared g := hw.flights k g hg
      cases g with
      | saving | saved =>
        unfold Reads Looked
        rw [helsewhere.resets]
        exact ⟨hg'.1, fun hseen => hown _ (hg'.2 hseen)⟩
      | resetting | resetEntries | resetAttachments | resetFound | resetUnlocks =>
        unfold Reads Finds
        rw [helsewhere.entries]
        exact hg'
      | _ => trivial

/-! ## Runs -/

/-- Entries stay readable for their owners. -/
structure Safe (crates : Crates) (w : World Shared Flight) : Prop where
  entries : ∀ id row, w.shared.tables.entries.lookup id = some row → HasOwn w.shared.tables row.userId
  /-- The last own unlock goes only with a reset, and then the entries are gone as well. -/
  last : ∀ e w', step (system crates) w e = some w' →
    ∀ user, HasOwn w.shared.tables user → ¬HasOwn w'.shared.tables user →
      (∃ k r, e = .next k ∧ w.flights.lookup k = some (.resetUnlocks r) ∧ r.user = user) ∧
        ∀ id row, w'.shared.tables.entries.lookup id = some row → row.userId ≠ user

theorem last_own (hb : Locked w) (hw : Holds Readable (fun _ => Reads) w)
    (hs : step (system crates) w e = some w') (hown : HasOwn w.shared.tables user)
    (hlost : ¬HasOwn w'.shared.tables user) :
    (∃ k r, e = .next k ∧ w.flights.lookup k = some (.resetUnlocks r) ∧ r.user = user) ∧
      ∀ id row, w'.shared.tables.entries.lookup id = some row → row.userId ≠ user := by
  rcases step_cases hs with ⟨k, f, -, -, -, rfl⟩ | ⟨k, f, s, o, rfl, hf, hn, rfl⟩ | ⟨e', s, -, ho, rfl⟩
  · exact absurd hown hlost
  · rcases (next_steps hn).own (hb.flights k f hf) hown with hown | ⟨r, hreset⟩
    · exact absurd hown hlost
    · have hreads : Reads w.shared f := hw.flights k f hf
      have hflight : f = .resetUnlocks r := hreset.flight
      subst hflight
      exact ⟨⟨k, r, rfl, hf, hreset.owner⟩, fun id row hrow => hreset.entries hreads hrow⟩
  · refine absurd ?_ hlost
    unfold HasOwn
    rw [(outside_elsewhere ho).unlocks]
    exact hown

/-- **Personal entries stay readable**, over every interleaving in which no entry is saved past a reset,
or by a user who has only the wrap for the organisation. -/
theorem entries_readable {clock : Int} {es : List (Interleave.Event Flight Outside)}
    (hm : Run.Meets (step (system crates)) Saves (World.quiet { clock }) es)
    (hr : Run.run (step (system crates)) (World.quiet { clock }) es = some w) : Safe crates w := by
  have hstart : Holds Readable (fun _ => Reads) (World.quiet { clock }) :=
    .quiet fun id row hrow => by cases hrow
  have hw : Locked w ∧ Holds Readable (fun _ => Reads) w := by
    refine Run.inv_of_meets (I := fun _ w => Locked w ∧ Holds Readable (fun _ => Reads) w)
      ⟨locked_quiet _ rfl, hstart⟩ ?_ hm hr
    intro es t e t' _ hC hs ht
    exact ⟨locked_step ht.1 hs, readable_step ht.1 ht.2 hC hs⟩
  exact ⟨hw.2.shared, fun e w' hs user hown hlost => last_own hw.1 hw.2 hs hown hlost⟩

/-- A passphrase, or a passkey. -/
def unlock (kind : String) : NewUnlock where
  kind
  params := .object [("salt", .string "AAEC")]
  wrappedKey := List.replicate 16 0

def nonce : Bytes := List.replicate 12 0

def ciphertext : Bytes := List.replicate 16 0

/-- The owner sets a passphrase. -/
def passphrase : List (Interleave.Event Flight Outside) :=
  .start 0 (.addUnlock owner 20 (unlock "passphrase")) :: List.replicate 6 (.next 0)

/-- The owner saves an entry, adds a passkey and removes the passphrase. -/
def saveAndReplace : List (Interleave.Event Flight Outside) :=
  passphrase ++
    .start 1 (.saveEntry owner 50 nonce ciphertext) :: List.replicate 3 (.next 1) ++
    .start 2 (.addUnlock owner 21 (unlock "passkey")) :: List.replicate 5 (.next 2) ++
    .start 3 (.removeUnlock owner 20) :: List.replicate 3 (.next 3)

theorem entries_readable_passkey :
    ∃ w, Run.run (step (system ten)) (World.quiet { clock := 0 }) saveAndReplace = some w ∧
      w.shared.tables.unlocks.keys = [21] ∧ w.shared.tables.entries.keys = [50] ∧ Safe ten w := by
  have hrun : (Run.run (step (system ten)) (World.quiet { clock := 0 }) saveAndReplace).map (fun w =>
      (w.shared.tables.unlocks.keys, w.shared.tables.entries.keys)) = some ([21], [50]) := by
    decide
  obtain ⟨w, hr, hw⟩ := Option.map_eq_some_iff.1 hrun
  rw [Prod.mk.injEq] at hw
  have hm : Run.Meets (step (system ten)) Saves (World.quiet { clock := 0 }) saveAndReplace := by
    decide
  exact ⟨w, hr, hw.1, hw.2, entries_readable hm hr⟩

theorem not_safe {row : SealedRow} (hrow : w.shared.tables.entries.lookup id = some row)
    (hnone : ¬HasOwn w.shared.tables row.userId) : ¬Safe crates w := fun h =>
  hnone (h.entries id row hrow)

/-- A request has seen the passphrase, the vault is reset, and then the entry is saved: there is an entry
and no unlock at all. -/
theorem saved_past_reset :
    ∃ w, Run.run (step (system ten)) (World.quiet { clock := 0 })
        (passphrase ++ [.start 1 (.saveEntry owner 50 nonce ciphertext), .next 1] ++
          .start 2 (.reset owner) :: List.replicate 6 (.next 2) ++ List.replicate 2 (.next 1)) = some w ∧
      w.shared.tables.entries.keys = [50] ∧ w.shared.tables.unlocks.keys = [] ∧ ¬Safe ten w := by
  have hrun : (Run.run (step (system ten)) (World.quiet { clock := 0 })
      (passphrase ++ [.start 1 (.saveEntry owner 50 nonce ciphertext), .next 1] ++
        .start 2 (.reset owner) :: List.replicate 6 (.next 2) ++ List.replicate 2 (.next 1))).map (fun w =>
      (w.shared.tables.entries.keys, w.shared.tables.unlocks.keys,
        (w.shared.tables.entries.lookup 50).map fun row =>
          decide (HasOwn w.shared.tables row.userId))) =
      some ([50], [], some false) := by
    decide
  obtain ⟨w, hr, hw⟩ := Option.map_eq_some_iff.1 hrun
  rw [Prod.mk.injEq, Prod.mk.injEq] at hw
  obtain ⟨hentries, hunlocks, hown⟩ := hw
  obtain ⟨row, hrow, hnone⟩ := Option.map_eq_some_iff.1 hown
  exact ⟨w, hr, hentries, hunlocks, not_safe hrow (of_decide_eq_false hnone)⟩

/-- The vault has only its wrap for the organisation, and an entry is saved. -/
theorem saved_without_own :
    ∃ w, Run.run (step (system ten)) (World.quiet { clock := 0 })
        (.start 0 (.createKey Recovery.administrator 10 [4]) :: List.replicate 3 (.next 0) ++
          .start 1 (.addUnlock owner 20 (wrap "00000000-0000-0000-0000-00000000000a")) ::
            List.replicate 7 (.next 1) ++
          .start 2 (.saveEntry owner 50 nonce ciphertext) :: List.replicate 3 (.next 2)) = some w ∧
      w.shared.tables.entries.keys = [50] ∧ w.shared.tables.unlocks.keys = [20] ∧ ¬Safe ten w := by
  have hrun : (Run.run (step (system ten)) (World.quiet { clock := 0 })
      (.start 0 (.createKey Recovery.administrator 10 [4]) :: List.replicate 3 (.next 0) ++
        .start 1 (.addUnlock owner 20 (wrap "00000000-0000-0000-0000-00000000000a")) ::
          List.replicate 7 (.next 1) ++
        .start 2 (.saveEntry owner 50 nonce ciphertext) :: List.replicate 3 (.next 2))).map (fun w =>
      (w.shared.tables.entries.keys, w.shared.tables.unlocks.keys,
        (w.shared.tables.entries.lookup 50).map fun row =>
          decide (HasOwn w.shared.tables row.userId))) =
      some ([50], [20], some false) := by
    decide
  obtain ⟨w, hr, hw⟩ := Option.map_eq_some_iff.1 hrun
  rw [Prod.mk.injEq, Prod.mk.injEq] at hw
  obtain ⟨hentries, hunlocks, hown⟩ := hw
  obtain ⟨row, hrow, hnone⟩ := Option.map_eq_some_iff.1 hown
  exact ⟨w, hr, hentries, hunlocks, not_safe hrow (of_decide_eq_false hnone)⟩

end Server.Unlocks
