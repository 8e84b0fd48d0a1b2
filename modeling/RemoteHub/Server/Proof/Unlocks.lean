import RemoteHub.Server.Unlocks

/-!
# What a transaction has locked

A step writes only rows that it has locked itself, and the recovery keys only where no other transaction
has locked their table: what a transaction has locked stays as it is for it (`Frame`, `Ready`). What a
step can do is said once (`statement_steps`): the request goes on as in `Leads`, is over, or is over with
a `Commit`.
-/

namespace Server.Unlocks

open Model Except Vaults Interleave

variable {crates : Crates} {k k' : Nat} {s s' s'' : Shared} {f g : Flight} {o : Option Flight}
  {id user : Uuid} {ids : List Uuid} {r : Replacement} {row : UnlockRow}

/-! ## What a step leaves to the others -/

/-- What process `k` leaves to the others. -/
structure Others (k : Nat) (s s' : Shared) : Prop where
  keyLocks : ∀ {k' m}, k' ≠ k → (k', m) ∈ s.keyLocks → (k', m) ∈ s'.keyLocks
  unlockLocks : ∀ {k' id}, k' ≠ k → s.unlockLocks id = some k' → s'.unlockLocks id = some k'
  entryLocks : ∀ {k' id}, k' ≠ k → s.entryLocks id = some k' → s'.entryLocks id = some k'
  apart : s.keyLocks.Apart Mode.conflicts → s'.keyLocks.Apart Mode.conflicts

/-- What is committed stays. -/
structure Quiet (k : Nat) (s s' : Shared) : Prop extends Others k s s' where
  tables : s'.tables = s.tables
  recoveries : s'.recoveries = s.recoveries
  resets : s'.resets = s.resets

theorem Others.trans (h : Others k s s') (h' : Others k s' s'') : Others k s s'' where
  keyLocks hne hk := h'.keyLocks hne (h.keyLocks hne hk)
  unlockLocks hne hk := h'.unlockLocks hne (h.unlockLocks hne hk)
  entryLocks hne hk := h'.entryLocks hne (h.entryLocks hne hk)
  apart hs := h'.apart (h.apart hs)

theorem Quiet.refl (k : Nat) (s : Shared) : Quiet k s s :=
  ⟨⟨fun _ h => h, fun _ h => h, fun _ h => h, id⟩, rfl, rfl, rfl⟩

theorem Quiet.trans (h : Quiet k s s') (h' : Quiet k s' s'') : Quiet k s s'' :=
  ⟨h.toOthers.trans h'.toOthers, h'.tables.trans h.tables, h'.recoveries.trans h.recoveries,
    h'.resets.trans h.resets⟩

theorem Mode.conflicts_comm (m m' : Mode) : m.conflicts m' = m'.conflicts m := by
  cases m <;> cases m' <;> rfl

theorem close_quiet (h : s.close k = some (s', o)) : Quiet k s s' ∧ o = none := by
  cases h
  exact ⟨⟨⟨Modes.release_others, Locks.release_others, Locks.release_others, Modes.Apart.release⟩,
    rfl, rfl, rfl⟩, rfl⟩

theorem Quiet.withKeyLocks {mode : Mode} {l : Modes Mode}
    (hl : s.keyLocks.acquire Mode.conflicts k mode = some l) : Quiet k s { s with keyLocks := l } :=
  ⟨⟨fun _ hk => Modes.acquire_keeps hl hk, fun _ h => h, fun _ h => h,
    fun hs => hs.acquire Mode.conflicts_comm hl⟩, rfl, rfl, rfl⟩

theorem Quiet.withUnlockLocks {l : Locks Uuid}
    (hl : ∀ {k' id}, s.unlockLocks id = some k' → l id = some k') :
    Quiet k s { s with unlockLocks := l } :=
  ⟨⟨fun _ h => h, fun _ hk => hl hk, fun _ h => h, fun h => h⟩, rfl, rfl, rfl⟩

theorem Quiet.withEntryLocks {l : Locks Uuid}
    (hl : ∀ {k' id}, s.entryLocks id = some k' → l id = some k') :
    Quiet k s { s with entryLocks := l } :=
  ⟨⟨fun _ h => h, fun _ h => h, fun _ hk => hl hk, fun h => h⟩, rfl, rfl, rfl⟩

theorem Quiet.withRecoveryLocks (l : Locks Uuid) : Quiet k s { s with recoveryLocks := l } :=
  ⟨⟨fun _ h => h, fun _ h => h, fun _ h => h, fun h => h⟩, rfl, rfl, rfl⟩

/-! ## Commits -/

/-- What the last step of a request commits. -/
inductive Commit (s : Shared) : Flight → Shared → Prop
  | unlock (r : Replacement) (ids : List Uuid) : Commit s (.inserted r ids) (s.commitUnlock r ids)
  | removal (user id : Uuid) (kinds : List (Uuid × UnlockKind)) :
    Commit s (.removed user id kinds) (s.commitRemoval id)
  | entry (id : Uuid) (row : SealedRow) (seen : Nat) :
    Commit s (.saved id row seen) (s.commitEntry id row)
  | reset (r : Reset) : Commit s (.resetUnlocks r) (s.commitReset r)
  | createdKey (id : Uuid) (row : KeyRow) :
    Commit s (.createdKey id row) (s.withKeys (s.tables.keys.insert id row))
  | deletedKey (id : Uuid) : Commit s (.keyDeleted id) (s.withKeys (s.tables.keys.erase id))
  | recovery (id : Uuid) (row : RecoveryRow) :
    Commit s (.created id row) { s with recoveries := s.recoveries.insert id row }
  | approved (session : Session) (id : Uuid) : Commit s (.approving session id) { s with
      recoveries := s.recoveries.modify id fun row =>
        { row with approverName := some session.username, approvedAt := some s.clock } }
  | cancelled (session : Session) (id : Uuid) :
    Commit s (.cancel session id) { s with recoveries := s.recoveries.erase id }
  | handedOver (id : Uuid) (at' : Int) :
    Commit s (.handedOver id at') { s with recoveries := s.completed id at' }

/-- Where a statement leads when the request goes on, and what it has found. -/
inductive Leads (crates : Crates) (k : Nat) (s : Shared) : Flight → Shared → Flight → Prop
  | adding {session : Session} {id : Uuid} {input : NewUnlock} {row : UnlockRow}
    (h : input.check session.userId = .ok row) :
    Leads crates k s (.addUnlock session id input) s (.adding { id, row })
  | sharing {r : Replacement} {l : Modes Mode} (hkind : r.row.kind = .organisation)
    (hl : s.keyLocks.acquire Mode.conflicts k .share = some l) :
    Leads crates k s (.adding r) { s with keyLocks := l } (.sharing r)
  | replacing {r : Replacement} (hkind : r.row.kind ≠ .organisation) :
    Leads crates k s (.adding r) s (.replacing r)
  | checked {r : Replacement} (h : checkOrganisation crates s.tables r.row.params = .ok ()) :
    Leads crates k s (.sharing r) s (.replacing r)
  | passkey {r : Replacement} : Leads crates k s (.replacing r) s (.deleted r [])
  | found {r : Replacement} : Leads crates k s (.replacing r) s (.found r (s.replacedBy r.row))
  | deleted {r : Replacement} {ids : List Uuid} {l : Locks Uuid}
    (hl : s.unlockLocks.acquireAll k (ids.filter (· ∈ s.replacedBy r.row)) = some l) :
    Leads crates k s (.found r ids) { s with unlockLocks := l }
      (.deleted r (ids.filter (· ∈ s.replacedBy r.row)))
  | inserted {r : Replacement} {ids : List Uuid} {l : Locks Uuid} {l' : Locks (Uuid × UnlockKind)}
    (hfresh : r.id ∉ s.tables.unlocks) (hl : s.unlockLocks.acquire k r.id = some l) :
    Leads crates k s (.deleted r ids) { s with unlockLocks := l, kindLocks := l' } (.inserted r ids)
  | removing {session : Session} {id : Uuid} :
    Leads crates k s (.removeUnlock session id) s
      (.removing session.userId id (s.unlocksOf session.userId))
  | removed {user id : Uuid} {ids : List Uuid} {l : Locks Uuid}
    (hl : s.unlockLocks.acquireAll k (ids.filter (· ∈ s.unlocksOf user)) = some l)
    (hcheck : checkRemoval id (s.kindsOf (ids.filter (· ∈ s.unlocksOf user))) = .ok ()) :
    Leads crates k s (.removing user id ids) { s with unlockLocks := l }
      (.removed user id (s.kindsOf (ids.filter (· ∈ s.unlocksOf user))))
  | saving {session : Session} {id : Uuid} {nonce ciphertext : Bytes}
    (hunlock : s.unlocksOf session.userId ≠ []) :
    Leads crates k s (.saveEntry session id nonce ciphertext) s
      (.saving id ⟨session.userId, nonce, ciphertext, s.clock⟩ (s.resets.count session.userId))
  | saved {id : Uuid} {row : SealedRow} {seen : Nat} {l : Locks Uuid}
    (hl : s.entryLocks.acquire k id = some l) :
    Leads crates k s (.saving id row seen) { s with entryLocks := l } (.saved id row seen)
  | resetting {session : Session} :
    Leads crates k s (.reset session) s
      (.resetting { user := session.userId, entries := s.entriesOf session.userId })
  | resetEntries {r : Reset} {l : Locks Uuid}
    (hl : s.entryLocks.acquireAll k (r.entries.filter (· ∈ s.entriesOf r.user)) = some l) :
    Leads crates k s (.resetting r) { s with entryLocks := l }
      (.resetEntries { r with entries := r.entries.filter (· ∈ s.entriesOf r.user) })
  | resetAttachments {r : Reset} {attachments : List Uuid} :
    Leads crates k s (.resetEntries r) s (.resetAttachments { r with attachments })
  | resetFound {r : Reset} :
    Leads crates k s (.resetAttachments r) s (.resetFound { r with unlocks := s.unlocksOf r.user })
  | resetUnlocks {r : Reset} {l : Locks Uuid}
    (hl : s.unlockLocks.acquireAll k (r.unlocks.filter (· ∈ s.unlocksOf r.user)) = some l) :
    Leads crates k s (.resetFound r) { s with unlockLocks := l }
      (.resetUnlocks { r with unlocks := r.unlocks.filter (· ∈ s.unlocksOf r.user) })
  | creatingKey {session : Session} {id : Uuid} {publicKey : Bytes} {row : KeyRow} :
    Leads crates k s (.createKey session id publicKey) s (.creatingKey id row)
  | createdKey {id : Uuid} {row : KeyRow} {l : Modes Mode}
    (hl : s.keyLocks.acquire Mode.conflicts k .rowExclusive = some l) :
    Leads crates k s (.creatingKey id row) { s with keyLocks := l } (.createdKey id row)
  | deletingKey {session : Session} {id : Uuid} :
    Leads crates k s (.deleteKey session id) s (.deletingKey id)
  | keyLocked {id : Uuid} {l : Modes Mode}
    (hl : s.keyLocks.acquire Mode.conflicts k .exclusive = some l) :
    Leads crates k s (.deletingKey id) { s with keyLocks := l } (.keyLocked id)
  | keyRead {id : Uuid} {newest : Uuid × KeyRow} (h : s.tables.organisationKey = some newest) :
    Leads crates k s (.keyLocked id) s (.keyRead id newest.1)
  | keyUnused {id newest : Uuid} (hused : s.usesOf id = []) (hne : newest ≠ id) :
    Leads crates k s (.keyRead id newest) s (.keyUnused id)
  | keyDeleted {id : Uuid} : Leads crates k s (.keyUnused id) s (.keyDeleted id)
  | covered {session : Session} {id user : Uuid} {kind reason : String} {row : RecoveryRow}
    (hcovered : s.tables.Covered user) (huser : row.userId = user) :
    Leads crates k s (.create session id user kind reason) s (.covered id row)
  | created {id : Uuid} {row : RecoveryRow} {l l' : Locks Uuid} :
    Leads crates k s (.covered id row) { s with recoveryLocks := l, openLocks := l' } (.created id row)
  | approving {session : Session} {id : Uuid} :
    Leads crates k s (.approve session id) s (.approving session id)
  | ready {session : Session} {id unlock : Uuid} {row : RecoveryRow} {wrappedKey : Option Bytes} :
    Leads crates k s (.complete session id wrappedKey unlock) s (.ready id row wrappedKey unlock)
  | completing {id unlock : Uuid} {row : RecoveryRow} {wrappedKey : Option Bytes} :
    Leads crates k s (.ready id row wrappedKey unlock) s
      (.completing id row wrappedKey unlock s.clock)
  | handedOver {id unlock : Uuid} {row : RecoveryRow} {wrappedKey : Option Bytes} {at' : Int}
    {l : Locks Uuid} :
    Leads crates k s (.completing id row wrappedKey unlock at') { s with recoveryLocks := l }
      (.handedOver id at')
  | oneTime {id unlock : Uuid} {row : RecoveryRow} {wrappedKey : Option Bytes} {key : Bytes} {at' : Int}
    {l : Locks Uuid} :
    Leads crates k s (.completing id row wrappedKey unlock at') { s with recoveryLocks := l }
      (.replacing ⟨unlock, oneTimeRow row.userId key, some (id, at')⟩)
  | opening {session : Session} {id : Uuid} {row : RecoveryRow}
    (hready : s.state.ready session id = .ok row) :
    Leads crates k s (.vault session id) s (.opening row.userId)
  | opened {user : Uuid} {unlock : UnlockRow} {key : KeyRow} :
    Leads crates k s (.opening user) s (.opened user unlock key)

/-- What a step can do: the request goes on, is over, or is over with its commit. -/
def Steps (crates : Crates) (k : Nat) (s : Shared) (f : Flight) (s' : Shared) (o : Option Flight) :
    Prop :=
  (o = none ∧ Quiet k s s') ∨ (o = none ∧ ∃ t, Commit s f t ∧ Quiet k t s') ∨
    ∃ g, o = some g ∧ Leads crates k s f s' g

theorem close_steps (h : s.close k = some (s', o)) : Steps crates k s f s' o :=
  .inl ⟨(close_quiet h).2, (close_quiet h).1⟩

theorem Commit.steps {t : Shared} (hc : Commit s f t) (h : t.close k = some (s', o)) :
    Steps crates k s f s' o :=
  .inr (.inl ⟨(close_quiet h).2, t, hc, (close_quiet h).1⟩)

theorem Leads.steps (hl : Leads crates k s f s' g) : Steps crates k s f s' (some g) :=
  .inr (.inr ⟨g, rfl, hl⟩)

/-- An attempt after `t`, which has at most taken locks. -/
theorem attempt_steps {t : Shared} {answer : Answer Flight} (h : t.attempt k answer = some (s', o))
    (ht : Quiet k s t) (hgo : ∀ g, answer = .ok g → Leads crates k s f t g) :
    Steps crates k s f s' o := by
  unfold Shared.attempt at h
  split at h
  · cases h
    exact .inr (.inr ⟨_, rfl, hgo _ rfl⟩)
  · exact .inl ⟨(close_quiet h).2, ht.trans (close_quiet h).1⟩

theorem lockKeys_steps {mode : Mode} (h : s.lockKeys k mode g = some (s', o))
    (hgo : ∀ l, s.keyLocks.acquire Mode.conflicts k mode = some l →
      Leads crates k s f { s with keyLocks := l } g) : Steps crates k s f s' o := by
  obtain ⟨l, hl, heq⟩ := Option.map_eq_some_iff.1 h
  cases heq
  exact (hgo l hl).steps

theorem lockUnlocks_steps (h : s.lockUnlocks k ids g = some (s', o))
    (hgo : ∀ l, s.unlockLocks.acquireAll k ids = some l →
      Leads crates k s f { s with unlockLocks := l } g) : Steps crates k s f s' o := by
  obtain ⟨l, hl, heq⟩ := Option.map_eq_some_iff.1 h
  cases heq
  exact (hgo l hl).steps

theorem insertUnlock_steps (h : s.insertUnlock k r ids = some (s', o)) :
    Steps crates k s (.deleted r ids) s' o := by
  unfold Shared.insertUnlock at h
  split_ifs at h with hrivals hfree hfresh
  · exact close_steps h
  · obtain ⟨l, hl, h⟩ := Option.bind_eq_some_iff.1 h
    obtain ⟨l', -, h⟩ := Option.map_eq_some_iff.1 h
    cases h
    exact (Leads.inserted hfresh hl).steps

theorem removing_steps (h : (Flight.removing user id ids).statement crates k s = some (s', o)) :
    Steps crates k s (.removing user id ids) s' o := by
  obtain ⟨l, hl, h⟩ := Option.bind_eq_some_iff.1 h
  refine attempt_steps h (.withUnlockLocks fun hk => Locks.acquireAll_keeps hl hk) fun g hg => ?_
  obtain ⟨_, hcheck, hg⟩ := bind_eq_ok.1 hg
  cases hg
  exact .removed hl hcheck

theorem upsertEntry_steps {row : SealedRow} {seen : Nat}
    (h : s.upsertEntry k id row seen = some (s', o)) :
    Steps crates k s (.saving id row seen) s' o := by
  obtain ⟨l, hl, h⟩ := Option.bind_eq_some_iff.1 h
  refine attempt_steps h (.withEntryLocks fun hk => Locks.acquire_keeps hl hk) fun g hg => ?_
  obtain ⟨_, -, hg⟩ := bind_eq_ok.1 hg
  cases hg
  exact .saved hl

theorem insertRecovery_steps {row : RecoveryRow} (h : s.insertRecovery k id row = some (s', o)) :
    Steps crates k s (.covered id row) s' o := by
  unfold Shared.insertRecovery at h
  split_ifs at h
  · exact close_steps h
  · obtain ⟨l, -, h⟩ := Option.bind_eq_some_iff.1 h
    obtain ⟨l', -, h⟩ := Option.map_eq_some_iff.1 h
    cases h
    exact Leads.created.steps

theorem completeRow_steps {row : RecoveryRow} {wrappedKey : Option Bytes} {unlock : Uuid} {at' : Int}
    (h : s.completeRow k id row wrappedKey unlock at' = some (s', o)) :
    Steps crates k s (.completing id row wrappedKey unlock at') s' o := by
  unfold Shared.completeRow at h
  split_ifs at h
  · exact close_steps h
  · obtain ⟨l, -, h⟩ := Option.bind_eq_some_iff.1 h
    refine attempt_steps h (.withRecoveryLocks l) fun g hg => ?_
    split at hg
    · cases hg
      exact .handedOver
    · obtain ⟨wrappedKey, -, hg⟩ := bind_eq_ok.1 hg
      cases hg
      exact .oneTime

/-- What one statement does. -/
theorem statement_steps (h : f.statement crates k s = some (s', o)) : Steps crates k s f s' o := by
  cases f with
  | addUnlock session id input =>
    refine attempt_steps h (.refl k s) fun g hg => ?_
    obtain ⟨row, hrow, hg⟩ := bind_eq_ok.1 hg
    cases hg
    exact .adding hrow
  | adding r =>
    simp only [Flight.statement] at h
    split at h
    · exact lockKeys_steps h fun l hl => .sharing ‹_› hl
    · cases h
      exact (Leads.replacing ‹_›).steps
  | sharing r =>
    refine attempt_steps h (.refl k s) fun g hg => ?_
    obtain ⟨_, hcheck, hg⟩ := bind_eq_ok.1 hg
    cases hg
    exact .checked hcheck
  | replacing r =>
    simp only [Flight.statement] at h
    split at h
    · cases h
      exact Leads.passkey.steps
    · cases h
      exact Leads.found.steps
  | found r ids => exact lockUnlocks_steps h fun l hl => .deleted hl
  | deleted r ids => exact insertUnlock_steps h
  | inserted r ids => exact (Commit.unlock r ids).steps h
  | removeUnlock session id =>
    cases h
    exact Leads.removing.steps
  | removing user id ids => exact removing_steps h
  | removed user id kinds => exact (Commit.removal user id kinds).steps h
  | saveEntry session id nonce ciphertext =>
    refine attempt_steps h (.refl k s) fun g hg => ?_
    obtain ⟨_, -, hg⟩ := bind_eq_ok.1 hg
    obtain ⟨_, hunlock, hg⟩ := bind_eq_ok.1 hg
    cases hg
    exact .saving (refuse_eq_ok.1 hunlock)
  | saving id row seen => exact upsertEntry_steps h
  | saved id row seen => exact (Commit.entry id row seen).steps h
  | reset session =>
    cases h
    exact Leads.resetting.steps
  | resetting r =>
    obtain ⟨l, hl, heq⟩ := Option.map_eq_some_iff.1 h
    cases heq
    exact (Leads.resetEntries hl).steps
  | resetEntries r =>
    cases h
    exact Leads.resetAttachments.steps
  | resetAttachments r =>
    cases h
    exact Leads.resetFound.steps
  | resetFound r => exact lockUnlocks_steps h fun l hl => .resetUnlocks hl
  | resetUnlocks r => exact (Commit.reset r).steps h
  | createKey session id publicKey =>
    refine attempt_steps h (.refl k s) fun g hg => ?_
    obtain ⟨_, -, hg⟩ := bind_eq_ok.1 hg
    obtain ⟨_, -, hg⟩ := bind_eq_ok.1 hg
    cases hg
    exact .creatingKey
  | creatingKey id row => exact lockKeys_steps h fun l hl => .createdKey hl
  | createdKey id row =>
    simp only [Flight.statement] at h
    split at h
    · cases h
    · exact (Commit.createdKey id row).steps h
  | deleteKey session id =>
    refine attempt_steps h (.refl k s) fun g hg => ?_
    obtain ⟨_, -, hg⟩ := bind_eq_ok.1 hg
    cases hg
    exact .deletingKey
  | deletingKey id => exact lockKeys_steps h fun l hl => .keyLocked hl
  | keyLocked id =>
    refine attempt_steps h (.refl k s) fun g hg => ?_
    obtain ⟨newest, hnewest, hg⟩ := bind_eq_ok.1 hg
    cases hg
    exact .keyRead (elim_eq_ok.1 hnewest)
  | keyRead id newest =>
    refine attempt_steps h (.refl k s) fun g hg => ?_
    obtain ⟨_, hused, hg⟩ := bind_eq_ok.1 hg
    rw [refuse_eq_ok, not_or, not_not] at hused
    cases hg
    exact .keyUnused hused.1 hused.2
  | keyUnused id =>
    refine attempt_steps h (.refl k s) fun g hg => ?_
    obtain ⟨_, -, hg⟩ := bind_eq_ok.1 hg
    cases hg
    exact .keyDeleted
  | keyDeleted id => exact (Commit.deletedKey id).steps h
  | create session id user kind reason =>
    refine attempt_steps h (.refl k s) fun g hg => ?_
    obtain ⟨_, -, hg⟩ := bind_eq_ok.1 hg
    obtain ⟨_, -, hg⟩ := bind_eq_ok.1 hg
    obtain ⟨_, hcovered, hg⟩ := bind_eq_ok.1 hg
    rw [refuse_eq_ok, not_not] at hcovered
    cases hg
    exact .covered hcovered rfl
  | covered id row => exact insertRecovery_steps h
  | created id row => exact (Commit.recovery id row).steps h
  | approve session id =>
    refine attempt_steps h (.refl k s) fun g hg => ?_
    obtain ⟨_, -, hg⟩ := bind_eq_ok.1 hg
    obtain ⟨_, -, hg⟩ := bind_eq_ok.1 hg
    obtain ⟨_, -, hg⟩ := bind_eq_ok.1 hg
    cases hg
    exact .approving
  | approving session id =>
    simp only [Flight.statement, Shared.approveRow] at h
    split at h
    · exact close_steps h
    · obtain ⟨_, -, h⟩ := Option.bind_eq_some_iff.1 h
      exact (Commit.approved session id).steps h
  | cancel session id =>
    simp only [Flight.statement, Shared.cancelRow] at h
    split at h
    · exact close_steps h
    · split at h
      · exact close_steps h
      · obtain ⟨_, -, h⟩ := Option.bind_eq_some_iff.1 h
        exact (Commit.cancelled session id).steps h
  | complete session id wrappedKey unlock =>
    refine attempt_steps h (.refl k s) fun g hg => ?_
    obtain ⟨row, -, hg⟩ := bind_eq_ok.1 hg
    cases hg
    exact .ready
  | ready id row wrappedKey unlock =>
    cases h
    exact Leads.completing.steps
  | completing id row wrappedKey unlock at' => exact completeRow_steps h
  | handedOver id at' => exact (Commit.handedOver id at').steps h
  | vault session id =>
    refine attempt_steps h (.refl k s) fun g hg => ?_
    obtain ⟨row, hready, hg⟩ := bind_eq_ok.1 hg
    cases hg
    exact .opening hready
  | opening user =>
    refine attempt_steps h (.refl k s) fun g hg => ?_
    obtain ⟨found, -, hg⟩ := bind_eq_ok.1 hg
    cases hg
    exact .opened
  | opened user unlock key => exact close_steps h

theorem next_steps (h : f.next crates k s = some (s', o)) : Steps crates k s f s' o := by
  unfold Flight.next at h
  split at h
  · exact close_steps h
  · exact statement_steps h

theorem Leads.quiet (h : Leads crates k s f s' g) : Quiet k s s' := by
  cases h with
  | sharing _ hl | createdKey hl | keyLocked hl => exact .withKeyLocks hl
  | deleted hl | removed hl | resetUnlocks hl =>
    exact .withUnlockLocks fun hk => Locks.acquireAll_keeps hl hk
  | inserted hfresh hl =>
    exact ⟨⟨fun _ h => h, fun _ hk => Locks.acquire_keeps hl hk, fun _ h => h, fun h => h⟩, rfl, rfl, rfl⟩
  | saved hl => exact .withEntryLocks fun hk => Locks.acquire_keeps hl hk
  | resetEntries hl => exact .withEntryLocks fun hk => Locks.acquireAll_keeps hl hk
  | created => exact ⟨⟨fun _ h => h, fun _ h => h, fun _ h => h, fun h => h⟩, rfl, rfl, rfl⟩
  | handedOver | oneTime => exact .withRecoveryLocks _
  | _ => exact .refl k s

/-! ## What a request has locked -/

/-- An unlock of the user's own. -/
def Own (user : Uuid) (row : UnlockRow) : Prop := row.userId = user ∧ row.kind ≠ .organisation

/-- The unlocks are there, and process `k` has locked them. -/
def Held (k : Nat) (s : Shared) (p : UnlockRow → Prop) (ids : List Uuid) : Prop :=
  ∀ id ∈ ids, s.unlockLocks id = some k ∧ ∃ row, s.tables.unlocks.lookup id = some row ∧ p row

/-- The entries are there, and process `k` has locked them. -/
def HeldEntries (k : Nat) (s : Shared) (r : Reset) : Prop :=
  ∀ id ∈ r.entries, s.entryLocks id = some k ∧
    ∃ row, s.tables.entries.lookup id = some row ∧ row.userId = r.user

def Shares (k : Nat) (s : Shared) (r : Replacement) : Prop :=
  r.row.kind = .organisation → (k, .share) ∈ s.keyLocks

/-- What a request has locked, and relies on. -/
def Ready (k : Nat) (s : Shared) : Flight → Prop
  | .sharing _ => (k, .share) ∈ s.keyLocks
  | .replacing r | .found r _ => Shares k s r
  | .deleted r ids => Shares k s r ∧ Held k s (UnlockRow.Is r.row.userId r.row.kind) ids
  | .inserted r ids => Shares k s r ∧ Held k s (UnlockRow.Is r.row.userId r.row.kind) ids ∧
      s.unlockLocks r.id = some k ∧ s.tables.unlocks.lookup r.id = none
  | .removing _ _ ids => ids.Nodup
  | .removed user id _ => ∃ other ≠ id, Held k s (Own user) [id, other]
  | .saved id _ _ => s.entryLocks id = some k
  | .resetEntries r | .resetAttachments r | .resetFound r => HeldEntries k s r
  | .resetUnlocks r => HeldEntries k s r ∧ Held k s (·.userId = r.user) r.unlocks
  | .createdKey _ _ => (k, .rowExclusive) ∈ s.keyLocks
  | .keyLocked _ | .keyRead _ _ | .keyUnused _ | .keyDeleted _ => (k, .exclusive) ∈ s.keyLocks
  | _ => True

/-- What the others have locked stays as it is. -/
structure Frame (k : Nat) (s s' : Shared) : Prop extends Others k s s' where
  unlocks : ∀ {k' id}, k' ≠ k → s.unlockLocks id = some k' →
    s'.tables.unlocks.lookup id = s.tables.unlocks.lookup id
  entries : ∀ {k' id}, k' ≠ k → s.entryLocks id = some k' →
    s'.tables.entries.lookup id = s.tables.entries.lookup id

theorem Quiet.frame (h : Quiet k s s') : Frame k s s' :=
  ⟨h.toOthers, fun _ _ => by rw [h.tables], fun _ _ => by rw [h.tables]⟩

theorem Frame.trans (h : Frame k s s') (h' : Frame k s' s'') : Frame k s s'' where
  toOthers := h.toOthers.trans h'.toOthers
  unlocks hne hk := (h'.unlocks hne (h.unlockLocks hne hk)).trans (h.unlocks hne hk)
  entries hne hk := (h'.entries hne (h.entryLocks hne hk)).trans (h.entries hne hk)

theorem Held.transfer {p : UnlockRow → Prop} (h : Held k' s p ids) (hne : k' ≠ k)
    (hf : Frame k s s') : Held k' s' p ids := by
  intro id hid
  obtain ⟨hlock, hrow⟩ := h id hid
  refine ⟨hf.unlockLocks hne hlock, ?_⟩
  rw [hf.unlocks hne hlock]
  exact hrow

theorem HeldEntries.transfer {r : Reset} (h : HeldEntries k' s r) (hne : k' ≠ k)
    (hf : Frame k s s') : HeldEntries k' s' r := by
  intro id hid
  obtain ⟨hlock, hrow⟩ := h id hid
  refine ⟨hf.entryLocks hne hlock, ?_⟩
  rw [hf.entries hne hlock]
  exact hrow

theorem Shares.transfer (h : Shares k' s r) (hne : k' ≠ k) (hf : Frame k s s') : Shares k' s' r :=
  fun hkind => hf.keyLocks hne (h hkind)

theorem Ready.transfer (h : Ready k' s g) (hne : k' ≠ k) (hf : Frame k s s') : Ready k' s' g := by
  cases g with
  | sharing | createdKey | keyLocked | keyRead | keyUnused | keyDeleted => exact hf.keyLocks hne h
  | replacing | found => exact Shares.transfer h hne hf
  | deleted r ids => exact ⟨h.1.transfer hne hf, h.2.transfer hne hf⟩
  | inserted r ids =>
    obtain ⟨hshares, hheld, hlock, hnone⟩ := h
    exact ⟨hshares.transfer hne hf, hheld.transfer hne hf, hf.unlockLocks hne hlock,
      (hf.unlocks hne hlock).trans hnone⟩
  | removing | saving => exact h
  | removed user id kinds =>
    obtain ⟨other, hother, hheld⟩ := h
    exact ⟨other, hother, hheld.transfer hne hf⟩
  | saved id row seen => exact hf.entryLocks hne h
  | resetEntries | resetAttachments | resetFound => exact HeldEntries.transfer h hne hf
  | resetUnlocks r => exact ⟨h.1.transfer hne hf, h.2.transfer hne hf⟩
  | _ => trivial

/-- The locks go after the commit. -/
theorem Commit.others {t : Shared} (h : Commit s f t) : Others k s t := by
  cases h <;> exact ⟨fun _ h => h, fun _ h => h, fun _ h => h, fun h => h⟩

/-- A commit writes only what its request has locked. -/
theorem Commit.frame {t : Shared} (h : Commit s f t) (hf : Ready k s f) : Frame k s t := by
  have hothers : Others k s t := h.others
  cases h with
  | unlock r ids =>
    obtain ⟨-, hheld, hlock, -⟩ := hf
    refine ⟨hothers, fun {k' id} hne hk => ?_, fun _ _ => rfl⟩
    have hid : id ≠ r.id := by
      rintro rfl
      rw [hlock] at hk
      exact hne (Option.some.inj hk).symm
    have hids : id ∉ ids := by
      intro hmem
      rw [(hheld id hmem).1] at hk
      exact hne (Option.some.inj hk).symm
    change ((s.tables.unlocks.eraseAll ids).insert r.id r.row).lookup id = _
    rw [HashMap.lookup_insert_eq, if_neg hid, HashMap.lookup_eraseAll, if_neg hids]
  | removal user id kinds =>
    obtain ⟨other, -, hheld⟩ := hf
    refine ⟨hothers, fun {k' id'} hne hk => ?_, fun _ _ => rfl⟩
    have hid : id' ∉ [id] := by
      intro hmem
      rw [List.mem_singleton.1 hmem, (hheld id List.mem_cons_self).1] at hk
      exact hne (Option.some.inj hk).symm
    exact (HashMap.lookup_eraseAll _ _ _).trans (if_neg hid)
  | entry id row seen =>
    refine ⟨hothers, fun _ _ => rfl, fun {k' id'} hne hk => ?_⟩
    have hid : id' ≠ id := by
      rintro rfl
      rw [show s.entryLocks id' = some k from hf] at hk
      exact hne (Option.some.inj hk).symm
    exact (HashMap.lookup_insert_eq _ _ _ _).trans (if_neg hid)
  | reset r =>
    obtain ⟨hentries, hunlocks⟩ := hf
    refine ⟨hothers, fun {k' id} hne hk => ?_, fun {k' id} hne hk => ?_⟩
    · have hid : id ∉ r.unlocks := by
        intro hmem
        rw [(hunlocks id hmem).1] at hk
        exact hne (Option.some.inj hk).symm
      exact (HashMap.lookup_eraseAll _ _ _).trans (if_neg hid)
    · have hid : id ∉ r.entries := by
        intro hmem
        rw [(hentries id hmem).1] at hk
        exact hne (Option.some.inj hk).symm
      exact (HashMap.lookup_eraseAll _ _ _).trans (if_neg hid)
  | createdKey | deletedKey | recovery | approved | cancelled | handedOver =>
    exact ⟨hothers, fun _ _ => rfl, fun _ _ => rfl⟩

/-- What process `k` does, for the others. -/
theorem Steps.frame (h : Steps crates k s f s' o) (hf : Ready k s f) : Frame k s s' := by
  rcases h with ⟨-, hquiet⟩ | ⟨-, t, hcommit, hquiet⟩ | ⟨g, -, hleads⟩
  · exact hquiet.frame
  · exact (hcommit.frame hf).trans hquiet.frame
  · exact hleads.quiet.frame

/-! ## What a request comes to rely on -/

theorem mem_replacedBy : id ∈ s.replacedBy row ↔
    ∃ old, s.tables.unlocks.lookup id = some old ∧ UnlockRow.Is row.userId row.kind old :=
  HashMap.mem_keysWhere

theorem mem_unlocksOf : id ∈ s.unlocksOf user ↔
    ∃ row, s.tables.unlocks.lookup id = some row ∧ row.userId = user :=
  HashMap.mem_keysWhere

theorem mem_entriesOf : id ∈ s.entriesOf user ↔
    ∃ row, s.tables.entries.lookup id = some row ∧ row.userId = user :=
  HashMap.mem_keysWhere

theorem kindsOf_fst (ids : List Uuid) :
    (s.kindsOf ids).map (·.1) = ids.filter fun id => (s.tables.unlocks.lookup id).isSome := by
  induction ids with
  | nil => rfl
  | cons id ids ih =>
    unfold Shared.kindsOf at ih ⊢
    cases hrow : s.tables.unlocks.lookup id with
    | none => simp [hrow, ih]
    | some row => simp [hrow, ih]

theorem mem_kindsOf {kind : UnlockKind} (h : (id, kind) ∈ s.kindsOf ids) :
    id ∈ ids ∧ ∃ row, s.tables.unlocks.lookup id = some row ∧ row.kind = kind := by
  obtain ⟨id', hid', hpair⟩ := List.mem_filterMap.1 h
  obtain ⟨row, hrow, heq⟩ := Option.map_eq_some_iff.1 hpair
  cases heq
  exact ⟨hid', row, hrow, rfl⟩

/-- An own unlock is removed only next to another one. -/
theorem checkRemoval_ok {kinds : List (Uuid × UnlockKind)} (h : checkRemoval id kinds = .ok ())
    (hnodup : (kinds.map (·.1)).Nodup) :
    (∃ kind ≠ .organisation, (id, kind) ∈ kinds) ∧
      ∃ other ≠ id, ∃ kind ≠ .organisation, (other, kind) ∈ kinds := by
  obtain ⟨kind, hkind, h⟩ := bind_eq_ok.1 h
  obtain ⟨_, hown, hlast⟩ := bind_eq_ok.1 h
  rw [refuse_eq_ok] at hown hlast
  obtain ⟨found, hfound, rfl⟩ := Option.map_eq_some_iff.1 (elim_eq_ok.1 hkind)
  have hmem : found ∈ kinds := List.mem_of_find?_eq_some hfound
  have hid : found.1 = id := by simpa using List.find?_some hfound
  refine ⟨⟨found.2, hown, hid ▸ hmem⟩, ?_⟩
  by_contra hnone
  push Not at hnone
  refine hlast ?_
  rw [List.countP_eq_length_filter]
  -- every own unlock is this one
  have hall : ∀ x ∈ (kinds.filter fun k => decide (k.2 ≠ .organisation)).map (·.1), x = id := by
    intro x hx
    obtain ⟨y, hy, rfl⟩ := List.mem_map.1 hx
    obtain ⟨hy, hkind⟩ := List.mem_filter.1 hy
    by_contra hne
    exact hnone y.1 hne y.2 (of_decide_eq_true hkind) hy
  have hone : ((kinds.filter fun k => decide (k.2 ≠ .organisation)).map (·.1)).Nodup :=
    hnodup.sublist (List.filter_sublist.map _)
  rw [List.eq_replicate_of_mem hall, List.nodup_replicate, List.length_map] at hone
  have hpos : 0 < (kinds.filter fun k => decide (k.2 ≠ .organisation)).length :=
    List.length_pos_of_mem (List.mem_filter.2 ⟨hmem, decide_eq_true hown⟩)
  omega

/-- The own unlock that is removed, and the one that stays. -/
theorem removing_held {kinds : List (Uuid × UnlockKind)} (hkinds : kinds =
    s.kindsOf (ids.filter (· ∈ s.unlocksOf user))) (hids : ids.Nodup)
    (hcheck : checkRemoval id kinds = .ok ()) (htables : s'.tables = s.tables)
    (hlocks : ∀ id ∈ ids.filter (· ∈ s.unlocksOf user), s'.unlockLocks id = some k) :
    ∃ other ≠ id, Held k s' (Own user) [id, other] := by
  subst hkinds
  have hnodup : ((s.kindsOf (ids.filter (· ∈ s.unlocksOf user))).map (·.1)).Nodup := by
    rw [kindsOf_fst]
    exact (hids.filter _).filter _
  have hown : ∀ {id kind}, kind ≠ .organisation →
      (id, kind) ∈ s.kindsOf (ids.filter (· ∈ s.unlocksOf user)) →
      s'.unlockLocks id = some k ∧ ∃ row, s'.tables.unlocks.lookup id = some row ∧ Own user row := by
    intro id kind hkind hmem
    obtain ⟨hid, row, hrow, rfl⟩ := mem_kindsOf hmem
    obtain ⟨row', hrow', huser⟩ := mem_unlocksOf.1 (of_decide_eq_true (List.mem_filter.1 hid).2)
    rw [hrow] at hrow'
    cases hrow'
    rw [htables]
    exact ⟨hlocks id hid, row, hrow, huser, hkind⟩
  obtain ⟨⟨kind, hkind, hmem⟩, other, hother, kind', hkind', hmem'⟩ := checkRemoval_ok hcheck hnodup
  refine ⟨other, hother, fun id' hid' => ?_⟩
  rcases List.mem_cons.1 hid' with rfl | hid'
  · exact hown hkind hmem
  · cases List.mem_singleton.1 hid'
    exact hown hkind' hmem'

/-- What process `k` relies on after its own statement. -/
theorem Leads.relies (h : Leads crates k s f s' g) (hf : Ready k s f) : Ready k s' g := by
  cases h with
  | sharing _ hl | createdKey hl | keyLocked hl => exact Modes.acquire_held hl
  | replacing hkind => exact fun horganisation => absurd horganisation hkind
  | checked => exact fun _ => hf
  | passkey => exact ⟨hf, fun id hid => by cases hid⟩
  | deleted hl =>
    exact ⟨hf, fun id hid => ⟨Locks.acquireAll_held hl id hid,
      mem_replacedBy.1 (of_decide_eq_true (List.mem_filter.1 hid).2)⟩⟩
  | inserted hfresh hl =>
    obtain ⟨hshares, hheld⟩ := hf
    exact ⟨hshares, fun id hid => ⟨Locks.acquire_keeps hl (hheld id hid).1, (hheld id hid).2⟩,
      Locks.acquire_held hl, AList.lookup_eq_none.2 hfresh⟩
  | removing => exact HashMap.nodup_keysWhere _ _
  | removed hl hcheck => exact removing_held rfl hf hcheck rfl (Locks.acquireAll_held hl)
  | saved hl => exact Locks.acquire_held hl
  | resetEntries hl =>
    exact fun id hid => ⟨Locks.acquireAll_held hl id hid,
      mem_entriesOf.1 (of_decide_eq_true (List.mem_filter.1 hid).2)⟩
  | resetUnlocks hl =>
    exact ⟨hf, fun id hid => ⟨Locks.acquireAll_held hl id hid,
      mem_unlocksOf.1 (of_decide_eq_true (List.mem_filter.1 hid).2)⟩⟩
  | oneTime => exact fun hkind => by cases hkind
  | found | resetAttachments | resetFound | keyRead | keyUnused | keyDeleted => exact hf
  | _ => trivial

/-! ## Unlocks that stay -/

/-- The user whose vault is reset with the next step. -/
def Flight.resets : Flight → Option Uuid
  | .resetUnlocks r => some r.user
  | _ => none

/-- There is an unlock of which `p` holds. -/
def Shared.Has (s : Shared) (p : UnlockRow → Prop) : Prop :=
  ∃ id row, s.tables.unlocks.lookup id = some row ∧ p row

/-- The step commits a reset of the user's vault. -/
structure ResetBy (s : Shared) (f : Flight) (s' : Shared) (user : Uuid) (r : Reset) : Prop where
  flight : f = .resetUnlocks r
  owner : r.user = user
  tables : s'.tables = (s.commitReset r).tables
  count : s'.resets = user :: s.resets

theorem ResetBy.resets {r : Reset} (h : ResetBy s f s' user r) : f.resets = some user := by
  rw [h.flight, ← h.owner]
  rfl

/-- An unlock of the user's stays, or is replaced by one of the same kind, unless the vault is reset;
the one that is removed has another one next to it. -/
theorem Steps.has {p : UnlockRow → Prop} (h : Steps crates k s f s' o) (hf : Ready k s f)
    (hsame : ∀ row row', row'.userId = row.userId → row'.kind = row.kind → p row → p row')
    (howner : ∀ row, p row → row.userId = user)
    (hother : ∀ row row', Own row.userId row → Own row.userId row' → p row → p row')
    (hp : s.Has p) : s'.Has p ∨ ∃ r, ResetBy s f s' user r := by
  obtain ⟨id, row, hrow, hrowp⟩ := hp
  have hkept : s'.tables.unlocks.lookup id = s.tables.unlocks.lookup id → s'.Has p :=
    fun heq => ⟨id, row, heq.trans hrow, hrowp⟩
  rcases h with ⟨-, hquiet⟩ | ⟨-, t, hcommit, hquiet⟩ | ⟨g, -, hleads⟩
  · exact .inl (hkept (by rw [hquiet.tables]))
  · cases hcommit with
    | unlock r ids =>
      obtain ⟨-, hheld, -, hnone⟩ := hf
      have hlookup : ∀ id, s'.tables.unlocks.lookup id =
          if id = r.id then some r.row else if id ∈ ids then none else s.tables.unlocks.lookup id := by
        intro id
        rw [hquiet.tables]
        exact (HashMap.lookup_insert_eq _ _ _ _).trans (by rw [HashMap.lookup_eraseAll])
      by_cases hid : id ∈ ids
      · -- it is replaced by another one of the user's
        obtain ⟨-, old, hold, his⟩ := hheld id hid
        rw [hrow] at hold
        cases hold
        exact .inl ⟨r.id, r.row, (hlookup _).trans (if_pos rfl),
          hsame row r.row his.1.symm his.2.symm hrowp⟩
      · refine .inl (hkept ?_)
        rw [hlookup, if_neg, if_neg hid]
        rintro rfl
        rw [hnone] at hrow
        cases hrow
    | removal user' id' kinds =>
      obtain ⟨other, hne, hheld⟩ := hf
      have hlookup : ∀ id, s'.tables.unlocks.lookup id =
          if id ∈ [id'] then none else s.tables.unlocks.lookup id := by
        intro id
        rw [hquiet.tables]
        exact HashMap.lookup_eraseAll _ _ _
      by_cases hid : id = id'
      · subst hid
        obtain ⟨-, own, hown, howns⟩ := hheld id List.mem_cons_self
        obtain ⟨-, rest, hrest, hrests⟩ := hheld other (List.mem_cons_of_mem _ List.mem_cons_self)
        rw [hrow] at hown
        cases hown
        refine .inl ⟨other, rest, ?_, hother row rest ⟨rfl, howns.2⟩ ?_ hrowp⟩
        · rw [hlookup, if_neg (by simpa using hne), hrest]
        · rw [howns.1]
          exact hrests
      · exact .inl (hkept ((hlookup id).trans (if_neg (by simpa using hid))))
    | reset r =>
      by_cases hid : id ∈ r.unlocks
      · obtain ⟨-, old, hold, hmine⟩ := hf.2 id hid
        rw [hrow] at hold
        cases hold
        have huser : r.user = user := hmine.symm.trans (howner row hrowp)
        refine .inr ⟨r, rfl, huser, hquiet.tables, ?_⟩
        rw [hquiet.resets, ← huser]
        rfl
      · refine .inl (hkept ?_)
        rw [hquiet.tables]
        exact (HashMap.lookup_eraseAll _ _ _).trans (if_neg hid)
    | _ =>
      have hlookup := congrArg (fun t : Tables => t.unlocks.lookup id) hquiet.tables
      exact .inl (hkept hlookup)
  · exact .inl (hkept (by rw [hleads.quiet.tables]))

/-! ## Every reachable state -/

/-- The request that makes the step. -/
def mover (w : World Shared Flight) : Interleave.Event Flight Outside → Option Flight
  | .next k => w.flights.lookup k
  | _ => none

/-- The tables that transactions write are written by nothing else. -/
structure Elsewhere (s s' : Shared) : Prop where
  unlocks : s'.tables.unlocks = s.tables.unlocks
  keys : s'.tables.keys = s.tables.keys
  entries : s'.tables.entries = s.tables.entries
  recoveries : s'.recoveries = s.recoveries
  resets : s'.resets = s.resets
  keyLocks : s'.keyLocks = s.keyLocks
  unlockLocks : s'.unlockLocks = s.unlockLocks
  entryLocks : s'.entryLocks = s.entryLocks

theorem outside_elsewhere {e : Outside} (h : s.outside e = some s') : Elsewhere s s' := by
  cases e <;> simp only [Shared.outside] at h
  · split at h
    · cases h
      exact ⟨rfl, rfl, rfl, rfl, rfl, rfl, rfl, rfl⟩
    · cases h
  · cases h
    exact ⟨rfl, rfl, rfl, rfl, rfl, rfl, rfl, rfl⟩
  · cases h
    exact ⟨rfl, rfl, rfl, rfl, rfl, rfl, rfl, rfl⟩

theorem Elsewhere.frame (h : Elsewhere s s') : Frame k s s' where
  keyLocks _ hk := h.keyLocks ▸ hk
  unlockLocks _ hk := h.unlockLocks ▸ hk
  entryLocks _ hk := h.entryLocks ▸ hk
  apart hs := h.keyLocks ▸ hs
  unlocks _ _ := by rw [h.unlocks]
  entries _ _ := by rw [h.entries]

/-- The locks of the keys do not conflict, and every request has locked what it relies on. -/
def Locked (w : World Shared Flight) : Prop :=
  Holds (fun s => s.keyLocks.Apart Mode.conflicts) Ready w

variable {w w' : World Shared Flight} {e : Interleave.Event Flight Outside}

theorem Steps.apart (h : Steps crates k s f s' o) (hs : s.keyLocks.Apart Mode.conflicts) :
    s'.keyLocks.Apart Mode.conflicts := by
  rcases h with ⟨-, hquiet⟩ | ⟨-, t, hcommit, hquiet⟩ | ⟨g, -, hleads⟩
  · exact hquiet.apart hs
  · exact hquiet.apart ((hcommit.others (k := k)).apart hs)
  · exact hleads.quiet.apart hs

theorem locked_step (hw : Locked w) (hs : step (system crates) w e = some w') : Locked w' := by
  refine hw.step hs ?_ ?_ ?_
  · intro k f hf
    cases f <;> trivial
  · intro k f s o he hf hn
    have hsteps := next_steps hn
    have hready : Ready k w.shared f := hw.flights k f hf
    refine ⟨hsteps.apart hw.shared, fun g hg => ?_, fun k' g hne hg => ?_⟩
    · subst hg
      rcases hsteps with ⟨hnone, -⟩ | ⟨hnone, -⟩ | ⟨g', hg', hleads⟩
      · cases hnone
      · cases hnone
      · cases hg'
        exact hleads.relies hready
    · exact (hw.flights k' g hg).transfer hne (hsteps.frame hready)
  · intro e' s he ho
    have helsewhere := outside_elsewhere ho
    refine ⟨?_, fun k g hg => ?_⟩
    · rw [helsewhere.keyLocks]
      exact hw.shared
    · -- no process makes this step
      exact (hw.flights k g hg).transfer (Nat.lt_succ_self k).ne helsewhere.frame

theorem locked_quiet (s : Shared) (h : s.keyLocks = []) : Locked (World.quiet s) := by
  refine Holds.quiet ?_
  rw [h]
  exact fun a ha => by cases ha

end Server.Unlocks
