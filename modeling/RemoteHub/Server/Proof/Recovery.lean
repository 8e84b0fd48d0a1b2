import RemoteHub.Server.Recovery

/-!
# Four eyes on recovery

`Sanctioned` says what carrying a recovery out takes: an administrator who asked for it, and within the
last day the approval of a security officer who is someone else, neither completed nor cancelled since.
After any requests (`four_eyes`)

- every request that gets the sealed vault, a sealed file or the completion is sanctioned, and gets what
  belongs to the owner of that vault;
- a recovery is approved and completed at most once, and one is open per vault at most;
- the requests of one account alone get nothing, whatever its roles.

The invariant `Sound` ties each row to the log: `Recorded` has what the log says of it.
-/

namespace Server.Recovery

open Model Except Vaults

variable {s s' : State} {session : Session} {id : Uuid} {row : RecoveryRow} {log : List Entry}
  {now : Int} {e : Entry} {request : Request} {response : Response}

/-! ## The invariant -/

/-- What the log says of a row. -/
structure Recorded (log : List Entry) (now : Int) (id : Uuid) (row : RecoveryRow) : Prop where
  requested : ∃ e ∈ log, e.what = .requested ∧ e.recovery = id ∧ e.owner = row.userId ∧
    e.session.userId = row.requesterId
  approved : ∀ at', row.approvedAt = some at' → at' ≤ now ∧
    ∃ e ∈ log, e.what = .approved ∧ e.recovery = id ∧ e.session.userId ≠ row.requesterId ∧
      e.session.hasRole .securityOfficer = true ∧ e.at' = at'
  unapproved : row.approvedAt = none → ∀ e ∈ log, e.recovery = id → e.what ≠ .approved
  uncompleted : row.completedAt = none → ∀ e ∈ log, e.recovery = id → e.what ≠ .completed
  uncancelled : ∀ e ∈ log, e.recovery = id → e.what ≠ .cancelled

/-- The recoveries of which the log has `what`. -/
def loggedAs (what : What) (log : List Entry) : List Uuid :=
  (log.filter (·.what = what)).map (·.recovery)

structure Sound (s : State) : Prop where
  rows : ∀ id row, s.recoveries.lookup id = some row → Recorded s.log s.now id row
  approvedOnce : (loggedAs .approved s.log).Nodup
  completedOnce : (loggedAs .completed s.log).Nodup
  openOnce : ∀ id id' row row', s.recoveries.lookup id = some row →
    s.recoveries.lookup id' = some row' → row.userId = row'.userId → row.completedAt = none →
    row'.completedAt = none → id = id'

theorem mem_loggedAs {what : What} :
    id ∈ loggedAs what log ↔ ∃ e ∈ log, e.what = what ∧ e.recovery = id := by
  simp [loggedAs, and_assoc]

theorem nodup_loggedAs {what : What} (h : (loggedAs what log).Nodup)
    (hnew : e.what = what → ∀ e' ∈ log, e'.recovery = e.recovery → e'.what ≠ what) :
    (loggedAs what (log ++ [e])).Nodup := by
  by_cases he : e.what = what
  · have hlogged : loggedAs what (log ++ [e]) = loggedAs what log ++ [e.recovery] := by
      simp [loggedAs, he]
    rw [hlogged]
    refine h.append (List.nodup_singleton _) fun id hid hid' => ?_
    obtain ⟨e', he', hwhat, hrecovery⟩ := mem_loggedAs.1 hid
    rw [List.mem_singleton.1 hid'] at hrecovery
    exact hnew he e' he' hrecovery hwhat
  · have hlogged : loggedAs what (log ++ [e]) = loggedAs what log := by simp [loggedAs, he]
    rw [hlogged]
    exact h

/-- An entry of another recovery says nothing of the row. -/
theorem Recorded.append (h : Recorded log now id row) (hne : e.recovery ≠ id) :
    Recorded (log ++ [e]) now id row where
  requested := by
    obtain ⟨e', he', h'⟩ := h.requested
    exact ⟨e', List.mem_append_left _ he', h'⟩
  approved at' hat := by
    obtain ⟨hle, e', he', h'⟩ := h.approved at' hat
    exact ⟨hle, e', List.mem_append_left _ he', h'⟩
  unapproved hnone e' he' hid := by
    rcases List.mem_append.1 he' with he' | he'
    · exact h.unapproved hnone e' he' hid
    · exact absurd (List.mem_singleton.1 he' ▸ hid) hne
  uncompleted hnone e' he' hid := by
    rcases List.mem_append.1 he' with he' | he'
    · exact h.uncompleted hnone e' he' hid
    · exact absurd (List.mem_singleton.1 he' ▸ hid) hne
  uncancelled e' he' hid := by
    rcases List.mem_append.1 he' with he' | he'
    · exact h.uncancelled e' he' hid
    · exact absurd (List.mem_singleton.1 he' ▸ hid) hne

/-! ## Requests -/

theorem requireAdmin_eq_ok {u : Unit} : session.requireAdmin = .ok u ↔ session.isAdmin = true := by
  rw [Session.requireAdmin, refuse_eq_ok, Bool.not_eq_false]

theorem recovery_eq_ok : s.recovery id = .ok row ↔ s.recoveries.lookup id = some row := elim_eq_ok

theorem create_eq_ok {user : Uuid} {kind reason : String}
    (h : s.create session id user kind reason = .ok (response, s')) :
    response = .created id ∧ ¬OpenFor s.recoveries user ∧
      ∃ row, row.userId = user ∧ row.requesterId = session.userId ∧ row.approvedAt = none ∧
        row.completedAt = none ∧
        s' = s.write session .requested id user (s.recoveries.insert id row) := by
  obtain ⟨_, -, h⟩ := bind_eq_ok.1 h
  obtain ⟨⟨kind, reason⟩, -, h⟩ := bind_eq_ok.1 h
  obtain ⟨_, -, h⟩ := bind_eq_ok.1 h
  obtain ⟨_, hopen, h⟩ := bind_eq_ok.1 h
  cases h
  exact ⟨rfl, refuse_eq_ok.1 hopen, _, rfl, rfl, rfl, rfl, rfl⟩

theorem approve_eq_ok (h : s.approve session id = .ok (response, s')) :
    response = .noContent ∧ session.hasRole .securityOfficer = true ∧
      ∃ row, s.recoveries.lookup id = some row ∧ row.requesterId ≠ session.userId ∧
        row.approvedAt = none ∧ row.completedAt = none ∧
        s' = s.write session .approved id row.userId (s.recoveries.insert id
          { row with approverName := some session.username, approvedAt := some s.now }) := by
  obtain ⟨_, hrole, h⟩ := bind_eq_ok.1 h
  obtain ⟨row, hrow, h⟩ := bind_eq_ok.1 h
  obtain ⟨_, hown, h⟩ := bind_eq_ok.1 h
  obtain ⟨_, hdecided, h⟩ := bind_eq_ok.1 h
  rw [refuse_eq_ok, Bool.not_eq_false] at hrole
  rw [refuse_eq_ok] at hown
  rw [refuse_eq_ok, not_or, not_not, not_not] at hdecided
  cases h
  exact ⟨rfl, hrole, row, recovery_eq_ok.1 hrow, hown, hdecided.1, hdecided.2, rfl⟩

theorem cancel_eq_ok (h : s.cancel session id = .ok (response, s')) :
    response = .noContent ∧ ∃ row, s.recoveries.lookup id = some row ∧
      s' = s.write session .cancelled id row.userId (s.recoveries.erase id) := by
  obtain ⟨_, -, h⟩ := bind_eq_ok.1 h
  obtain ⟨row, hrow, h⟩ := bind_eq_ok.1 h
  obtain ⟨_, -, h⟩ := bind_eq_ok.1 h
  cases h
  exact ⟨rfl, row, recovery_eq_ok.1 hrow, rfl⟩

/-- `ready`: the requester, an administrator, within a day after the approval. -/
structure Ready (s : State) (session : Session) (id : Uuid) (row : RecoveryRow) : Prop where
  admin : session.isAdmin = true
  found : s.recoveries.lookup id = some row
  mine : row.requesterId = session.userId
  uncompleted : row.completedAt = none
  approved : ∃ at', row.approvedAt = some at' ∧ s.now < at' + day

theorem ready_eq_ok (h : s.ready session id = .ok row) : Ready s session id row := by
  obtain ⟨_, hadmin, h⟩ := bind_eq_ok.1 h
  obtain ⟨found, hfound, h⟩ := bind_eq_ok.1 h
  obtain ⟨_, hmine, h⟩ := bind_eq_ok.1 h
  obtain ⟨_, hstatus, h⟩ := bind_eq_ok.1 h
  rw [refuse_eq_ok, not_not] at hmine hstatus
  cases h
  unfold RecoveryRow.status at hstatus
  split at hstatus
  · cases hstatus
  · cases hstatus
  · rename_i at' hcompleted happroved
    split at hstatus
    · rename_i hday
      exact ⟨requireAdmin_eq_ok.1 hadmin, recovery_eq_ok.1 hfound, hmine, hcompleted, at', happroved,
        by omega⟩
    · cases hstatus

/-- What carries a recovery out. -/
def Request.carriesOut : Request → Option Uuid
  | .vault id | .attachment id _ | .complete id _ _ => some id
  | .create .. | .approve _ | .cancel _ => none

/-- What an answer discloses is the owner's. -/
def Response.Belongs (owner : Uuid) (vaults : Tables) : Response → Prop
  | .created _ | .noContent => True
  | .sealedVault unlock key entries => unlock.userId = owner ∧ unlock.kind = .organisation ∧
      vaults.joined unlock = some key ∧
      ∀ e ∈ entries, e.2.userId = owner ∧ vaults.entries.lookup e.1 = some e.2
  | .sealedFile file => file.userId = owner

/-- Whether an answer discloses nothing of a vault. -/
def Response.Discreet : Response → Prop
  | .created _ | .noContent => True
  | .sealedVault .. | .sealedFile _ => False

theorem mem_entriesOf {vaults : Tables} {owner : Uuid} {e : Uuid × SealedRow}
    (h : e ∈ vaults.entriesOf owner) :
    e.2.userId = owner ∧ vaults.entries.lookup e.1 = some e.2 := by
  rw [Tables.entriesOf, List.mem_insertionSort] at h
  obtain ⟨e', he', rfl⟩ := List.mem_map.1 h
  obtain ⟨he', hof⟩ := List.mem_filter.1 he'
  exact ⟨of_decide_eq_true hof, HashMap.lookup_eq_some.2 he'⟩

theorem organisationUnlock_eq_some {vaults : Tables} {owner : Uuid} {unlock : UnlockRow} {key : KeyRow}
    (h : vaults.organisationUnlock owner = some (unlock, key)) :
    unlock.Wraps owner ∧ vaults.joined unlock = some key := by
  obtain ⟨e, he, hkey⟩ := List.exists_of_findSome?_eq_some h
  obtain ⟨-, hwraps⟩ := List.mem_filter.1 he
  obtain ⟨key', hjoined, heq⟩ := Option.map_eq_some_iff.1 hkey
  cases heq
  exact ⟨of_decide_eq_true hwraps, hjoined⟩

theorem vault_eq_ok (h : s.vault session id = .ok (response, s')) :
    s' = s ∧ ∃ row, Ready s session id row ∧ response.Belongs row.userId s.vaults := by
  obtain ⟨row, hready, h⟩ := bind_eq_ok.1 h
  obtain ⟨⟨unlock, key⟩, hunlock, h⟩ := bind_eq_ok.1 h
  cases h
  obtain ⟨⟨howner, hkind⟩, hjoined⟩ := organisationUnlock_eq_some (elim_eq_ok.1 hunlock)
  exact ⟨rfl, row, ready_eq_ok hready, howner, hkind, hjoined, fun e he => mem_entriesOf he⟩

theorem attachment_eq_ok {file : Uuid} (h : s.attachment session id file = .ok (response, s')) :
    s' = s ∧ ∃ row, Ready s session id row ∧ response.Belongs row.userId s.vaults := by
  obtain ⟨row, hready, h⟩ := bind_eq_ok.1 h
  obtain ⟨found, hfound, h⟩ := bind_eq_ok.1 h
  cases h
  obtain ⟨-, howner⟩ := Option.filter_eq_some_iff.1 (elim_eq_ok.1 hfound)
  have howner : found.userId = row.userId := of_decide_eq_true howner
  exact ⟨rfl, row, ready_eq_ok hready, howner⟩

theorem complete_eq_ok {wrappedKey : Option Bytes} {unlock : Uuid}
    (h : s.complete session id wrappedKey unlock = .ok (response, s')) :
    response = .noContent ∧ ∃ row, Ready s session id row ∧ ∃ vaults,
      s' = { s.write session .completed id row.userId
        (s.recoveries.insert id { row with completedAt := some s.now }) with vaults } := by
  obtain ⟨row, hready, h⟩ := bind_eq_ok.1 h
  obtain ⟨_, -, h⟩ := bind_eq_ok.1 h
  dsimp only at h
  split at h
  · obtain ⟨key, -, h⟩ := bind_eq_ok.1 h
    cases h
    exact ⟨rfl, row, ready_eq_ok hready, _, rfl⟩
  · cases h
    exact ⟨rfl, row, ready_eq_ok hready, s.vaults, rfl⟩

/-! ## Steps -/

/-- The other rows, beside one that is written. -/
theorem rows_write {what : What} {owner : Uuid} {recoveries : Table RecoveryRow} (hs : Sound s)
    (hothers : ∀ id' row, recoveries.lookup id' = some row → id' ≠ id →
      s.recoveries.lookup id' = some row)
    (hown : ∀ row, recoveries.lookup id = some row →
      Recorded (s.write session what id owner recoveries).log s.now id row) :
    ∀ id' row, recoveries.lookup id' = some row →
      Recorded (s.write session what id owner recoveries).log s.now id' row := by
  intro id' row hrow
  by_cases heq : id' = id
  · subst heq
    exact hown row hrow
  · exact (hs.rows id' row (hothers id' row hrow heq)).append (Ne.symm heq)

theorem written {recoveries : Table RecoveryRow} {row row' : RecoveryRow}
    (h : (recoveries.insert id row).lookup id = some row') : row = row' :=
  Option.some.inj ((AList.lookup_insert recoveries).symm.trans h)

theorem insert_others {recoveries : Table RecoveryRow} {row : RecoveryRow} :
    ∀ id' row', (recoveries.insert id row).lookup id' = some row' → id' ≠ id →
      recoveries.lookup id' = some row' := by
  intro id' row' h hne
  rw [AList.lookup_insert_ne hne] at h
  exact h

/-- A row that is written again keeps its owner; if it is open, it was. -/
theorem openOnce_write {row row' : RecoveryRow} (hs : Sound s)
    (hrow : s.recoveries.lookup id = some row) (howner : row'.userId = row.userId)
    (hopen : row'.completedAt = none → row.completedAt = none) :
    ∀ id₁ id₂ row₁ row₂, (s.recoveries.insert id row').lookup id₁ = some row₁ →
      (s.recoveries.insert id row').lookup id₂ = some row₂ → row₁.userId = row₂.userId →
      row₁.completedAt = none → row₂.completedAt = none → id₁ = id₂ := by
  have hold : ∀ id₁ row₁, (s.recoveries.insert id row').lookup id₁ = some row₁ →
      row₁.completedAt = none → ∃ row₀, s.recoveries.lookup id₁ = some row₀ ∧
        row₀.userId = row₁.userId ∧ row₀.completedAt = none := by
    intro id₁ row₁ h hnone
    rw [HashMap.lookup_insert_eq] at h
    split at h
    · rename_i heq
      cases h
      exact ⟨row, heq ▸ hrow, howner.symm, hopen hnone⟩
    · exact ⟨row₁, h, rfl, hnone⟩
  intro id₁ id₂ row₁ row₂ h₁ h₂ huser hnone₁ hnone₂
  obtain ⟨row₁', hrow₁, huser₁, hopen₁⟩ := hold id₁ row₁ h₁ hnone₁
  obtain ⟨row₂', hrow₂, huser₂, hopen₂⟩ := hold id₂ row₂ h₂ hnone₂
  exact hs.openOnce id₁ id₂ row₁' row₂' hrow₁ hrow₂ (huser₁.trans (huser.trans huser₂.symm)) hopen₁
    hopen₂

theorem create_sound {user : Uuid} {kind reason : String} (hs : Sound s)
    (hnew : ∀ e ∈ s.log, e.recovery ≠ id)
    (h : s.create session id user kind reason = .ok (response, s')) : Sound s' := by
  obtain ⟨-, hopen, row, huser, hrequester, hunapproved, huncompleted, rfl⟩ := create_eq_ok h
  have hentry : (⟨.requested, id, user, session, s.now⟩ : Entry) ∈
      (s.write session .requested id user (s.recoveries.insert id row)).log :=
    List.mem_append_right _ List.mem_cons_self
  have hnone : ∀ e ∈ (s.write session .requested id user (s.recoveries.insert id row)).log,
      e.recovery = id → e.what = .requested := by
    intro e he hid
    rcases List.mem_append.1 he with he | he
    · exact absurd hid (hnew e he)
    · rw [List.mem_singleton.1 he]
  refine ⟨rows_write hs insert_others fun row' hrow' => ?_, ?_, ?_, ?_⟩
  · obtain rfl : _ = row' := written hrow'
    refine ⟨⟨_, hentry, rfl, rfl, huser.symm, hrequester.symm⟩, fun at' hat => ?_, fun _ e he hid => ?_,
      fun _ e he hid => ?_, fun e he hid => ?_⟩
    · rw [hunapproved] at hat
      cases hat
    · rw [hnone e he hid]
      nofun
    · rw [hnone e he hid]
      nofun
    · rw [hnone e he hid]
      nofun
  · exact nodup_loggedAs hs.approvedOnce nofun
  · exact nodup_loggedAs hs.completedOnce nofun
  · have hnobody : ∀ id' row', s.recoveries.lookup id' = some row' → row'.userId = user →
        row'.completedAt ≠ none := by
      intro id' row' hrow' huser' hnone'
      exact hopen ⟨_, HashMap.lookup_eq_some.1 hrow', huser', hnone'⟩
    intro id₁ id₂ row₁ row₂ h₁ h₂ hsame hnone₁ hnone₂
    change (s.recoveries.insert id row).lookup id₁ = some row₁ at h₁
    change (s.recoveries.insert id row).lookup id₂ = some row₂ at h₂
    rw [HashMap.lookup_insert_eq] at h₁ h₂
    split at h₁
    · rename_i heq₁
      cases h₁
      split at h₂
      · rename_i heq₂
        exact heq₁.trans heq₂.symm
      · exact absurd hnone₂ (hnobody id₂ row₂ h₂ (hsame.symm.trans huser))
    · split at h₂
      · cases h₂
        exact absurd hnone₁ (hnobody id₁ row₁ h₁ (hsame.trans huser))
      · exact hs.openOnce id₁ id₂ row₁ row₂ h₁ h₂ hsame hnone₁ hnone₂

/-- What the log says of a row, after another change of it than those it excludes. -/
theorem mem_write {what : What} {owner : Uuid} {recoveries : Table RecoveryRow} {other : What}
    (hold : ∀ e ∈ s.log, e.recovery = id → e.what ≠ other) (hne : what ≠ other) :
    ∀ e ∈ (s.write session what id owner recoveries).log, e.recovery = id → e.what ≠ other := by
  intro e he hid
  rcases List.mem_append.1 he with he | he
  · exact hold e he hid
  · rw [List.mem_singleton.1 he]
    exact hne

theorem approve_sound (hs : Sound s) (h : s.approve session id = .ok (response, s')) : Sound s' := by
  obtain ⟨-, hrole, row, hrow, hother, hunapproved, huncompleted, rfl⟩ := approve_eq_ok h
  have hrecorded : Recorded s.log s.now id row := hs.rows id row hrow
  refine ⟨rows_write hs insert_others fun row' hrow' => ?_, ?_, ?_, ?_⟩
  · obtain rfl : _ = row' := written hrow'
    obtain ⟨e, he, hrequested⟩ := hrecorded.requested
    refine ⟨⟨e, List.mem_append_left _ he, hrequested⟩, fun at' hat => ?_, nofun, fun hnone => ?_, ?_⟩
    · cases hat
      exact ⟨le_rfl, _, List.mem_append_right _ List.mem_cons_self, rfl, rfl, Ne.symm hother, hrole, rfl⟩
    · exact mem_write (hrecorded.uncompleted hnone) nofun
    · exact mem_write hrecorded.uncancelled nofun
  · refine nodup_loggedAs hs.approvedOnce fun _ e he hid => hrecorded.unapproved hunapproved e he hid
  · exact nodup_loggedAs hs.completedOnce nofun
  · exact openOnce_write hs hrow rfl fun h => h

theorem cancel_sound (hs : Sound s) (h : s.cancel session id = .ok (response, s')) : Sound s' := by
  obtain ⟨-, row, hrow, rfl⟩ := cancel_eq_ok h
  refine ⟨rows_write hs (fun _ _ h _ => (HashMap.of_lookup_erase h).2) fun row' hrow' => ?_, ?_, ?_, ?_⟩
  · exact absurd rfl (HashMap.of_lookup_erase hrow').1
  · exact nodup_loggedAs hs.approvedOnce nofun
  · exact nodup_loggedAs hs.completedOnce nofun
  · exact fun id₁ id₂ row₁ row₂ h₁ h₂ => hs.openOnce id₁ id₂ row₁ row₂ (HashMap.of_lookup_erase h₁).2
      (HashMap.of_lookup_erase h₂).2

theorem complete_sound {wrappedKey : Option Bytes} {unlock : Uuid} (hs : Sound s)
    (h : s.complete session id wrappedKey unlock = .ok (response, s')) : Sound s' := by
  obtain ⟨-, row, hready, vaults, rfl⟩ := complete_eq_ok h
  have hrecorded : Recorded s.log s.now id row := hs.rows id row hready.found
  obtain ⟨at', happroved, -⟩ := hready.approved
  refine ⟨rows_write hs insert_others fun row' hrow' => ?_,
    ?_, ?_, ?_⟩
  · obtain rfl : _ = row' := written hrow'
    obtain ⟨e, he, hrequested⟩ := hrecorded.requested
    refine ⟨⟨e, List.mem_append_left _ he, hrequested⟩, fun at' hat => ?_, fun hnone => ?_, nofun, ?_⟩
    · obtain ⟨hle, e, he, happroval⟩ := hrecorded.approved at' hat
      exact ⟨hle, e, List.mem_append_left _ he, happroval⟩
    · rw [happroved] at hnone
      cases hnone
    · exact mem_write hrecorded.uncancelled nofun
  · exact nodup_loggedAs hs.approvedOnce nofun
  · exact nodup_loggedAs hs.completedOnce fun _ e he hid =>
      hrecorded.uncompleted hready.uncompleted e he hid
  · exact openOnce_write hs hready.found rfl nofun

theorem handle_sound (hs : Sound s) (hnew : s.New request)
    (h : s.handle session request = .ok (response, s')) : Sound s' := by
  cases request with
  | create id user kind reason => exact create_sound hs hnew h
  | approve id => exact approve_sound hs h
  | cancel id => exact cancel_sound hs h
  | vault id =>
    obtain ⟨rfl, -⟩ := vault_eq_ok h
    exact hs
  | attachment id file =>
    obtain ⟨rfl, -⟩ := attachment_eq_ok h
    exact hs
  | complete id wrappedKey unlock => exact complete_sound hs h

theorem step_sound {ev : Event} (hs : Sound s) (h : step s ev = some s') : Sound s' := by
  cases ev with
  | request session request =>
    simp only [step] at h
    split at h
    · rename_i hnew
      split at h
      · rename_i hhandle
        cases h
        exact handle_sound hs hnew hhandle
      · cases h
        exact hs
    · cases h
  | tick now =>
    simp only [step] at h
    split at h
    · rename_i hclock
      cases h
      refine ⟨fun id row hrow => ?_, hs.approvedOnce, hs.completedOnce, hs.openOnce⟩
      have hrecorded := hs.rows id row hrow
      exact ⟨hrecorded.requested, fun at' hat => ⟨(hrecorded.approved at' hat).1.trans hclock,
        (hrecorded.approved at' hat).2⟩, hrecorded.unapproved, hrecorded.uncompleted,
        hrecorded.uncancelled⟩
    · cases h
  | stored vaults =>
    cases h
    exact ⟨hs.rows, hs.approvedOnce, hs.completedOnce, hs.openOnce⟩

/-! ## Runs -/

/-- What carrying out recovery `id` of `owner`'s vault takes. -/
structure Sanctioned (s : State) (session : Session) (id owner : Uuid) : Prop where
  admin : session.isAdmin = true
  requested : ∃ e ∈ s.log, e.what = .requested ∧ e.recovery = id ∧ e.owner = owner ∧
    e.session.userId = session.userId
  approved : ∃ e ∈ s.log, e.what = .approved ∧ e.recovery = id ∧
    e.session.userId ≠ session.userId ∧ e.session.hasRole .securityOfficer = true ∧
    e.at' ≤ s.now ∧ s.now < e.at' + day
  going : ∀ e ∈ s.log, e.recovery = id → e.what ≠ .completed ∧ e.what ≠ .cancelled

theorem Ready.sanctioned (hs : Sound s) (h : Ready s session id row) :
    Sanctioned s session id row.userId := by
  have hrecorded : Recorded s.log s.now id row := hs.rows id row h.found
  obtain ⟨at', hat, hday⟩ := h.approved
  obtain ⟨hle, e, he, hwhat, hid, hother, hrole, rfl⟩ := hrecorded.approved at' hat
  refine ⟨h.admin, ?_, ⟨e, he, hwhat, hid, h.mine ▸ hother, hrole, hle, hday⟩, fun e he hid => ?_⟩
  · obtain ⟨e, he, hwhat, hid, howner, hrequester⟩ := hrecorded.requested
    exact ⟨e, he, hwhat, hid, howner, hrequester.trans h.mine⟩
  · exact ⟨hrecorded.uncompleted h.uncompleted e he hid, hrecorded.uncancelled e he hid⟩

/-- What holds after any requests. -/
structure FourEyes (s : State) : Prop where
  /-- What is carried out is sanctioned, and discloses what is the owner's. -/
  sanctioned : ∀ session request response s', s.handle session request = .ok (response, s') →
    ∀ id, request.carriesOut = some id →
      ∃ owner, Sanctioned s session id owner ∧ response.Belongs owner s.vaults
  /-- No other request discloses anything. -/
  discreet : ∀ session request response s', s.handle session request = .ok (response, s') →
    request.carriesOut = none → response.Discreet
  approvedOnce : (loggedAs .approved s.log).Nodup
  completedOnce : (loggedAs .completed s.log).Nodup
  openOnce : ∀ id id' row row', s.recoveries.lookup id = some row →
    s.recoveries.lookup id' = some row' → row.userId = row'.userId → row.completedAt = none →
    row'.completedAt = none → id = id'
  /-- One account alone carries nothing out. -/
  alone : ∀ user, (∀ e ∈ s.log, e.session.userId = user) →
    ∀ session request response s', session.userId = user →
      s.handle session request = .ok (response, s') → request.carriesOut = none

theorem handle_sanctioned (hs : Sound s) (h : s.handle session request = .ok (response, s'))
    (hid : request.carriesOut = some id) :
    ∃ owner, Sanctioned s session id owner ∧ response.Belongs owner s.vaults := by
  cases request with
  | create | approve | cancel => cases hid
  | vault id =>
    cases hid
    obtain ⟨-, row, hready, hbelongs⟩ := vault_eq_ok h
    exact ⟨row.userId, hready.sanctioned hs, hbelongs⟩
  | attachment id file =>
    cases hid
    obtain ⟨-, row, hready, hbelongs⟩ := attachment_eq_ok h
    exact ⟨row.userId, hready.sanctioned hs, hbelongs⟩
  | complete id wrappedKey unlock =>
    cases hid
    obtain ⟨rfl, row, hready, -⟩ := complete_eq_ok h
    exact ⟨row.userId, hready.sanctioned hs, trivial⟩

theorem handle_discreet (h : s.handle session request = .ok (response, s'))
    (hid : request.carriesOut = none) : response.Discreet := by
  cases request with
  | create id user kind reason =>
    obtain ⟨rfl, -⟩ := create_eq_ok h
    trivial
  | approve id =>
    obtain ⟨rfl, -⟩ := approve_eq_ok h
    trivial
  | cancel id =>
    obtain ⟨rfl, -⟩ := cancel_eq_ok h
    trivial
  | vault | attachment | complete => cases hid

/-- **Four eyes on recovery**, after any requests and changes. -/
theorem four_eyes {es : List Event} (hr : Run.run step { now } es = some s) : FourEyes s := by
  have hstart : Sound { now } := by
    refine ⟨fun id row h => ?_, List.nodup_nil, List.nodup_nil, fun id id' row row' h => ?_⟩
    · cases h
    · cases h
  have hs : Sound s := Run.inv_of_run (I := fun _ s => Sound s) hstart
    (fun _ _ _ _ _ hstep ht => step_sound ht hstep) hr
  refine ⟨fun _ _ _ _ h _ hid => handle_sanctioned hs h hid, fun _ _ _ _ h hid => handle_discreet h hid,
    hs.approvedOnce, hs.completedOnce, hs.openOnce, fun user hall session request response s' huser h => ?_⟩
  cases hid : request.carriesOut with
  | none => rfl
  | some id =>
    obtain ⟨owner, hsanctioned, -⟩ := handle_sanctioned hs h hid
    obtain ⟨e, he, -, -, hother, -⟩ := hsanctioned.approved
    exact absurd ((hall e he).trans huser.symm) hother

/-- An administrator, and a security officer. -/
def administrator : Session := ⟨1, "ann", .directory, [.administrator]⟩

def officer : Session := ⟨2, "ole", .directory, [.securityOfficer]⟩

/-- The wrap of user 3's vault for the organisation. -/
def wrapped : UnlockRow where
  userId := 3
  kind := .organisation
  params := .object [("key_id", .string (Text.uuidText 5))]
  wrappedKey := []
  label := ""

def covered : Tables where
  unlocks := HashMap.collect [(7, wrapped)]
  keys := HashMap.collect [(5, ⟨[4], "ann", 0⟩)]

/-- A recovery is asked for and approved. -/
def approvedRecovery : List Event :=
  [.stored covered, .request administrator (.create 9 3 "handover" "left the company"),
    .tick 10, .request officer (.approve 9)]

theorem four_eyes_approved :
    ∃ s, Run.run step { now := 0 } approvedRecovery = some s ∧ s.log.length = 2 ∧ FourEyes s := by
  have hrun : (Run.run step { now := 0 } approvedRecovery).map (fun s => s.log.length) = some 2 := by
    decide
  obtain ⟨s, hr, hlog⟩ := Option.map_eq_some_iff.1 hrun
  exact ⟨s, hr, hlog, four_eyes hr⟩

end Server.Recovery
