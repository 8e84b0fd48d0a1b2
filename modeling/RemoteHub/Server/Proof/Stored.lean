import RemoteHub.Server.Proof.Unlocks

/-!
# Who brings what is stored

Statement by statement at READ COMMITTED, no row of a vault comes from anywhere but a request of its owner,
or, for a recovery key, from the requester of a recovery that was approved. `Relies` says so of what requests
in flight carry.
-/

namespace Server.Stored

open Model Except Vaults Interleave Unlocks

variable {crates : Unlocks.Crates} {k : Nat} {s s' : Shared} {f g : Unlocks.Flight}
  {o : Option Unlocks.Flight} {id : Uuid}
  {start w w' : World Shared Unlocks.Flight} {e : Interleave.Event Unlocks.Flight Outside}
  {es es' : List (Interleave.Event Unlocks.Flight Outside)} {row : UnlockRow}

/-- A request was made. -/
def Made (es : List (Interleave.Event Unlocks.Flight Outside)) (f : Unlocks.Flight) : Prop :=
  ∃ k, .start k f ∈ es

/-- At some time, the recovery was ready for the session: theirs, approved, within its day. -/
def WasReady (crates : Unlocks.Crates) (start : World Shared Unlocks.Flight)
    (es : List (Interleave.Event Unlocks.Flight Outside)) (session : Session) (id : Uuid)
    (found : RecoveryRow) : Prop :=
  ∃ t, Run.Visits (step (system crates)) start es t ∧ t.shared.state.ready session id = .ok found

/-- Where an unlock comes from. -/
inductive Brought (crates : Unlocks.Crates) (start : World Shared Unlocks.Flight)
    (es : List (Interleave.Event Unlocks.Flight Outside)) (row : UnlockRow) : Prop
  | owner {session : Session} {id : Uuid} {input : NewUnlock} (hmade : Made es (.addUnlock session id input))
    (hcheck : input.check session.userId = .ok row)
  | recovery {session : Session} {id unlock : Uuid} {key : Bytes} {found : RecoveryRow}
    (hmade : Made es (.complete session id (some key) unlock))
    (hready : WasReady crates start es session id found) (hkind : found.kind = .passphrase)
    (hrow : row = oneTimeRow found.userId key)

/-- Where an entry comes from. -/
def Entered (es : List (Interleave.Event Unlocks.Flight Outside)) (id : Uuid) (row : SealedRow) : Prop :=
  ∃ session : Session, session.userId = row.userId ∧
    Made es (.saveEntry session id row.nonce row.ciphertext)

/-- What a request in flight relies on. -/
def Relies (crates : Unlocks.Crates) (start : World Shared Unlocks.Flight)
    (es : List (Interleave.Event Unlocks.Flight Outside)) : Unlocks.Flight → Prop
  | .addUnlock session id input => Made es (.addUnlock session id input)
  | .complete session id wrappedKey unlock => Made es (.complete session id wrappedKey unlock)
  | .saveEntry session id nonce ciphertext => Made es (.saveEntry session id nonce ciphertext)
  | .adding r | .sharing r | .replacing r | .found r _ | .deleted r _ | .inserted r _ =>
    Brought crates start es r.row
  | .ready id found wrappedKey unlock | .completing id found wrappedKey unlock _ =>
    ∃ session, Made es (.complete session id wrappedKey unlock) ∧
      WasReady crates start es session id found
  | .saving id row _ | .saved id row _ => Entered es id row
  | _ => True

/-- What is committed. -/
structure RowsSent (crates : Unlocks.Crates) (start : World Shared Unlocks.Flight)
    (es : List (Interleave.Event Unlocks.Flight Outside)) (s : Shared) : Prop where
  unlocks : ∀ id row, s.tables.unlocks.lookup id = some row → Brought crates start es row
  entries : ∀ id row, s.tables.entries.lookup id = some row → Entered es id row

/-! ## Later -/

theorem Made.concat (h : Made es f) : Made (es ++ [e]) f := h.imp fun _ hk => List.mem_append_left _ hk

theorem WasReady.concat {session : Session} {found : RecoveryRow}
    (h : WasReady crates start es session id found) : WasReady crates start (es ++ [e]) session id found :=
  h.imp fun _ ht => ⟨ht.1.concat e, ht.2⟩

theorem Brought.concat (h : Brought crates start es row) : Brought crates start (es ++ [e]) row := by
  cases h with
  | owner hmade hcheck => exact .owner hmade.concat hcheck
  | recovery hmade hready hkind hrow => exact .recovery hmade.concat hready.concat hkind hrow

theorem Entered.concat {row : SealedRow} (h : Entered es id row) : Entered (es ++ [e]) id row :=
  h.imp fun _ hs => ⟨hs.1, hs.2.concat⟩

theorem Relies.concat (h : Relies crates start es f) : Relies crates start (es ++ [e]) f := by
  cases f with
  | addUnlock | complete | saveEntry => exact Made.concat h
  | adding | sharing | replacing | found | deleted | inserted => exact Brought.concat h
  | ready | completing => exact Exists.imp (fun _ hs => ⟨hs.1.concat, hs.2.concat⟩) h
  | saving | saved => exact Entered.concat h
  | _ => trivial

/-! ## Steps -/

/-- Who completes a recovery had it ready. -/
theorem complete_next {session : Session} {unlock : Uuid} {wrappedKey : Option Bytes}
    (h : (Unlocks.Flight.complete session id wrappedKey unlock).next crates k s = some (s', some g)) :
    ∃ found, s.state.ready session id = .ok found ∧ g = .ready id found wrappedKey unlock := by
  unfold Unlocks.Flight.next at h
  split at h
  · cases (close_quiet h).2
  · simp only [Unlocks.Flight.statement, Shared.attempt] at h
    split at h
    · rename_i hg
      cases h
      obtain ⟨found, hfound, hg⟩ := bind_eq_ok.1 hg
      cases hg
      exact ⟨found, hfound, rfl⟩
    · cases (close_quiet h).2

/-- A completion that goes on replaces the owner's recovery key. -/
theorem completing_next {unlock : Uuid} {wrappedKey : Option Bytes} {found : RecoveryRow} {at' : Int}
    (h : (Unlocks.Flight.completing id found wrappedKey unlock at').next crates k s = some (s', some g)) :
    g = .handedOver id at' ∨ ∃ key, wrappedKey = some key ∧ found.kind = .passphrase ∧
      g = .replacing ⟨unlock, oneTimeRow found.userId key, some (id, at')⟩ := by
  unfold Unlocks.Flight.next at h
  split at h
  · cases (close_quiet h).2
  · simp only [Unlocks.Flight.statement, Shared.completeRow] at h
    split at h
    · cases (close_quiet h).2
    · obtain ⟨l, -, h⟩ := Option.bind_eq_some_iff.1 h
      unfold Shared.attempt at h
      split at h
      · rename_i hg
        cases h
        split at hg
        · cases hg
          exact .inl rfl
        · rename_i hkind
          obtain ⟨key, hkey, hg⟩ := bind_eq_ok.1 hg
          cases hg
          exact .inr ⟨key, Option.filter_eq_some_iff.1 (elim_eq_ok.1 hkey) |>.1, hkind, rfl⟩
      · cases (close_quiet h).2

/-- What a request comes to rely on. -/
theorem Relies.next (hv : Run.Visits (step (system crates)) start es w)
    (h : f.next crates k w.shared = some (s', some g)) (hf : Relies crates start es f) :
    Relies crates start es g := by
  rcases next_steps h with ⟨ho, -⟩ | ⟨ho, -⟩ | ⟨g', ho, hleads⟩
  · cases ho
  · cases ho
  cases ho
  cases hleads with
  | adding hcheck => exact .owner hf hcheck
  | sharing | replacing | checked | passkey | found | deleted | inserted | saved => exact hf
  | saving => exact ⟨_, rfl, hf⟩
  | ready =>
    obtain ⟨found, hready, heq⟩ := complete_next h
    cases heq
    exact ⟨_, hf, w, hv, hready⟩
  | completing => exact hf
  | oneTime =>
    obtain ⟨session, hmade, hready⟩ := hf
    rcases completing_next h with heq | ⟨key, rfl, hkind, heq⟩
    · cases heq
    · cases heq
      exact .recovery hmade hready hkind rfl
  | _ => trivial

theorem RowsSent.congr (hs : RowsSent crates start es s) (hunlocks : s'.tables.unlocks = s.tables.unlocks)
    (hentries : s'.tables.entries = s.tables.entries) : RowsSent crates start es s' where
  unlocks id row hrow := hs.unlocks id row (hunlocks ▸ hrow)
  entries id row hrow := hs.entries id row (hentries ▸ hrow)

theorem RowsSent.commitUnlock {r : Replacement} (hs : RowsSent crates start es s)
    (hr : Brought crates start es r.row) (ids : List Uuid) :
    RowsSent crates start es (s.commitUnlock r ids) where
  unlocks id row hrow := by
    rw [show (s.commitUnlock r ids).tables.unlocks = (s.tables.unlocks.eraseAll ids).insert r.id r.row from rfl,
      HashMap.lookup_insert_eq] at hrow
    split at hrow
    · cases hrow
      exact hr
    · exact hs.unlocks id row (HashMap.of_lookup_eraseAll hrow).2
  entries := hs.entries

theorem RowsSent.commitEntry {row : SealedRow} (hs : RowsSent crates start es s) (hr : Entered es id row) :
    RowsSent crates start es (s.commitEntry id row) where
  unlocks := hs.unlocks
  entries i stored hrow := by
    rw [show (s.commitEntry id row).tables.entries = s.tables.entries.insert id _ from rfl,
      HashMap.lookup_insert_eq] at hrow
    split at hrow
    · subst i
      cases hrow
      exact hr
    · exact hs.entries i stored hrow

/-- Only commits change what is stored. -/
theorem RowsSent.next (hs : RowsSent crates start es s) (h : f.next crates k s = some (s', o))
    (hf : Relies crates start es f) : RowsSent crates start es s' := by
  rcases next_steps h with ⟨-, hquiet⟩ | ⟨-, t, hcommit, hquiet⟩ | ⟨g, -, hleads⟩
  · exact hs.congr (by rw [hquiet.tables]) (by rw [hquiet.tables])
  · have ht : RowsSent crates start es t := by
      cases hcommit with
      | unlock r ids => exact hs.commitUnlock hf ids
      | removal user id kinds =>
        exact ⟨fun i row hrow => hs.unlocks i row (HashMap.of_lookup_eraseAll hrow).2, hs.entries⟩
      | entry id row seen => exact hs.commitEntry hf
      | reset r =>
        exact ⟨fun i row hrow => hs.unlocks i row (HashMap.of_lookup_eraseAll hrow).2,
          fun i row hrow => hs.entries i row (HashMap.of_lookup_eraseAll hrow).2⟩
      | _ => exact hs.congr rfl rfl
    exact ht.congr (by rw [hquiet.tables]) (by rw [hquiet.tables])
  · exact hs.congr (by rw [hleads.quiet.tables]) (by rw [hleads.quiet.tables])

/-- What holds of every world that is reached. -/
structure Sound (crates : Unlocks.Crates) (start : World Shared Unlocks.Flight)
    (es : List (Interleave.Event Unlocks.Flight Outside)) (w : World Shared Unlocks.Flight) : Prop where
  stored : RowsSent crates start es w.shared
  flights : ∀ k f, w.flights.lookup k = some f → Relies crates start es f

theorem Sound.step (hv : Run.Visits (step (system crates)) start es w) (h : Sound crates start es w)
    (hs : Interleave.step (system crates) w e = some w') : Sound crates start (es ++ [e]) w' := by
  have hstored : RowsSent crates start (es ++ [e]) w.shared :=
    ⟨fun id row hrow => (h.stored.unlocks id row hrow).concat,
      fun id row hrow => (h.stored.entries id row hrow).concat⟩
  have hflights (k : Nat) (f : Unlocks.Flight) (hf : w.flights.lookup k = some f) :
      Relies crates start (es ++ [e]) f := (h.flights k f hf).concat
  rcases step_cases hs with ⟨k, f, rfl, -, hnew, rfl⟩ | ⟨k, f, s, o, rfl, hf, hn, rfl⟩ | ⟨e', s, rfl, ho, rfl⟩
  · refine ⟨hstored, fun k' g hg => ?_⟩
    rw [HashMap.lookup_insert_eq] at hg
    split at hg
    · cases hg
      have hmade : Made (es ++ [.start k f]) f := ⟨k, by simp⟩
      cases f with
      | addUnlock | complete | saveEntry => exact hmade
      | removeUnlock | reset | createKey | deleteKey | create | approve | cancel | vault => trivial
      | _ => cases hnew
    · exact hflights k' g hg
  · refine ⟨hstored.next hn (hflights k f hf), fun k' g hg => ?_⟩
    rcases of_lookup_put hg with ⟨rfl, rfl⟩ | ⟨-, hg⟩
    · exact (hflights k' f hf).next (hv.concat _) hn
    · exact hflights k' g hg
  · have helsewhere := outside_elsewhere ho
    exact ⟨hstored.congr helsewhere.unlocks helsewhere.entries, hflights⟩

theorem stored_unlocks {clock : Int} (h : Run.run (step (system crates)) (World.quiet { clock }) es = some w) :
    RowsSent crates (World.quiet { clock }) es w.shared := by
  have hsound : Run.Visits (step (system crates)) (World.quiet { clock }) es w ∧
      Sound crates (World.quiet { clock }) es w := by
    refine Run.inv_of_run (I := fun es w => Run.Visits (step (system crates)) (World.quiet { clock }) es w ∧
      Sound crates (World.quiet { clock }) es w) ?_ ?_ h
    · refine ⟨⟨[], List.nil_prefix, rfl⟩, ⟨⟨fun id row hrow => ?_, fun id row hrow => ?_⟩, fun k f hf => ?_⟩⟩
      · cases hrow
      · cases hrow
      · cases hf
    · intro es t e t' ht hs hi
      exact ⟨.last (Run.run_concat.2 ⟨t, ht, hs⟩), hi.2.step hi.1 hs⟩
  exact hsound.2.stored

/-- **Nobody but its owner brings anything into a vault**, and whoever carries an approved recovery out, in
any interleaving: what is stored is what was asked for. -/
theorem rows_brought (crates : Unlocks.Crates) (clock : Int)
    (es : List (Interleave.Event Unlocks.Flight Outside)) (w : World Shared Unlocks.Flight)
    (h : Run.run (step (system crates)) (World.quiet { clock }) es = some w) :
    RowsSent crates (World.quiet { clock }) es w.shared :=
  stored_unlocks h

/-- The crates on what the run below meets. -/
def crates64 : Unlocks.Crates where
  uuid _ := none
  base64 _ := none
  isPublicKey _ := false

def session : Session := ⟨3, "uma", .directory, []⟩

/-- A passphrase is set, and an entry is saved while the passphrase is replaced. -/
def replaced : List (Interleave.Event Unlocks.Flight Outside) :=
  let input : NewUnlock :=
    { kind := "passphrase", params := .object [("salt", .string "AAEC")], wrappedKey := List.replicate 16 0 }
  .start 0 (.addUnlock session 20 input) :: List.replicate 6 (.next 0) ++
    [.start 1 (.saveEntry session 50 (List.replicate 12 0) (List.replicate 16 0)),
      .start 2 (.addUnlock session 21 { input with wrappedKey := List.replicate 16 1 }),
      .next 1, .next 2, .next 2, .next 1, .next 2, .next 2, .next 1, .next 2, .next 2]

theorem rows_brought_replaced :
    ∃ w, Run.run (step (system crates64)) (World.quiet { clock := 0 }) replaced = some w ∧
      w.shared.tables.unlocks.keys = [21] ∧ w.shared.tables.entries.keys = [50] ∧
      RowsSent crates64 (World.quiet { clock := 0 }) replaced w.shared := by
  have hrun : (Run.run (step (system crates64)) (World.quiet { clock := 0 }) replaced).map (fun w =>
      (w.shared.tables.unlocks.keys, w.shared.tables.entries.keys)) = some ([21], [50]) := by
    decide
  obtain ⟨w, hr, hw⟩ := Option.map_eq_some_iff.1 hrun
  rw [Prod.mk.injEq] at hw
  exact ⟨w, hr, hw.1, hw.2, rows_brought crates64 0 replaced w hr⟩

end Server.Stored
