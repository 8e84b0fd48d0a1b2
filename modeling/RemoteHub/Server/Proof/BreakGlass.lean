import RemoteHub.Server.BreakGlass

/-!
# Sessions from before a reset

`Since s user read`: `read` is the row that the last committed reset of the account left, or a later
one. Every session and every sign-in under way keeps it (`Sound`, `Ready`), as long as a reset is
committed only when its deletion has found all sessions of the account and no sign-in that the
password let in is under way (`Alone`). Without it a sign-in goes on with what it read before
(`old_sign_in_survives`): the version that it read still has its secret, and the reset has set
`last_totp_step` to 0.
-/

namespace Server.BreakGlass

open Model Codes Interleave

variable {c : Crypto} {s s' : Shared} {k k' : Nat} {f g : Flight} {o : Option Flight} {e : Outside}
  {user : Uuid} {read row : AccountRow} {token : Bytes}

/-! ## The invariant -/

/-- `read` is not older than any reset of the account. -/
def Shared.Since (s : Shared) (user : Uuid) (read : AccountRow) : Prop :=
  ∀ version, (user, version) ∈ s.resets → version ≤ read.totpVersion

structure Sound (s : Shared) : Prop where
  sessions : ∀ token session, s.sessions.lookup token = some session →
    s.Since session.user session.read
  accounts : ∀ user row, s.accounts.lookup user = some row → s.Since user row
  known : ∀ user row, s.accounts.lookup user = some row → user ∈ s.users
  resets : ∀ user version, (user, version) ∈ s.resets → user ∈ s.users

/-- The request has locked the row that it wrote. -/
def Ready (k : Nat) (s : Shared) : Flight → Prop
  | .codeMatches user read .. | .matched user read .. | .authenticated user read ..
  | .created user read .. => s.Since user read
  | .renewed user _ _ version | .stored user _ _ version | .swept user _ _ version _ =>
    s.locks user = some k ∧
      ∃ row, s.accounts.lookup user = some row ∧ version = row.totpVersion + 1
  | .removed user .. | .deleted user .. => s.locks user = some k
  | _ => True

/-- What others have locked, they still have, and the account has its version. -/
structure Others (k : Nat) (s s' : Shared) : Prop where
  locks : ∀ k' user, k' ≠ k → s.locks user = some k' → s'.locks user = some k'
  accounts : ∀ k' user row, k' ≠ k → s.locks user = some k' → s.accounts.lookup user = some row →
    ∃ row', s'.accounts.lookup user = some row' ∧ row'.totpVersion = row.totpVersion

theorem Others.ready (h : Others k s s') (hne : k' ≠ k) (hg : Ready k' s g)
    (hsince : ∀ user read, g.signsIn = some user → s.Since user read → s'.Since user read) :
    Ready k' s' g := by
  have hheld : ∀ {user : Uuid} {version : Int}, (s.locks user = some k' ∧
      ∃ row, s.accounts.lookup user = some row ∧ version = row.totpVersion + 1) →
      s'.locks user = some k' ∧
        ∃ row, s'.accounts.lookup user = some row ∧ version = row.totpVersion + 1 := by
    rintro user version ⟨hlock, row, hrow, rfl⟩
    obtain ⟨row', hrow', hversion⟩ := h.accounts k' user row hne hlock hrow
    exact ⟨h.locks k' user hne hlock, row', hrow', by rw [hversion]⟩
  cases g with
  | codeMatches | matched | authenticated | created => exact hsince _ _ rfl hg
  | renewed | stored | swept => exact hheld hg
  | removed | deleted => exact h.locks k' _ hne hg
  | _ => trivial

/-! ## What the statements leave alone -/

/-- A step without new sessions, without a reset and without a new version. -/
structure Keeps (s s' : Shared) : Prop where
  resets : s'.resets = s.resets
  sessions : ∀ token session, s'.sessions.lookup token = some session →
    s.sessions.lookup token = some session
  accounts : ∀ user row', s'.accounts.lookup user = some row' →
    ∃ row, s.accounts.lookup user = some row ∧ row'.totpVersion = row.totpVersion
  users : ∀ user ∈ s.users, user ∈ s'.users

theorem Shared.Since.of_resets (h : s.Since user read) (hresets : s'.resets = s.resets) :
    s'.Since user read := by
  intro version hversion
  rw [hresets] at hversion
  exact h version hversion

theorem Keeps.sound (h : Keeps s s') (hs : Sound s) : Sound s' where
  sessions token session hsession :=
    (hs.sessions token session (h.sessions token session hsession)).of_resets h.resets
  accounts user row' hrow' := by
    obtain ⟨row, hrow, hversion⟩ := h.accounts user row' hrow'
    intro version hmem
    rw [h.resets] at hmem
    rw [hversion]
    exact hs.accounts user row hrow version hmem
  known user row' hrow' := by
    obtain ⟨row, hrow, -⟩ := h.accounts user row' hrow'
    exact h.users user (hs.known user row hrow)
  resets user version hmem := by
    rw [h.resets] at hmem
    exact h.users user (hs.resets user version hmem)

theorem Sound.locks (hs : Sound s) (locks : Locks Uuid) : Sound { s with locks } :=
  ⟨hs.sessions, hs.accounts, hs.known, hs.resets⟩

theorem Others.refl : Others k s s := ⟨fun _ _ _ h => h, fun _ _ row _ _ h => ⟨row, h, rfl⟩⟩

/-- The request lets go of its locks at the end. -/
theorem Others.close (h : Others k s s') :
    Others k s { s' with locks := s'.locks.release k } where
  locks k' user hne hlock := Locks.release_others hne (h.locks k' user hne hlock)
  accounts := h.accounts

theorem lookup_use (s : Shared) (user user' : Uuid) (step : Nat) :
    (s.use user step).accounts.lookup user' = if user' = user then
      (s.accounts.lookup user').map fun row => { row with lastTotpStep := toI64 step }
    else s.accounts.lookup user' := HashMap.lookup_modify ..

theorem use_keeps (s : Shared) (user : Uuid) (step : Nat) : Keeps s (s.use user step) where
  resets := rfl
  sessions _ _ h := h
  accounts user' row' h := by
    rw [lookup_use] at h
    split at h
    · obtain ⟨row, hrow, rfl⟩ := Option.map_eq_some_iff.1 h
      exact ⟨row, hrow, rfl⟩
    · exact ⟨row', h, rfl⟩
  users _ h := h

theorem use_others (s : Shared) (user : Uuid) (step : Nat) : Others k s (s.use user step) where
  locks _ _ _ h := h
  accounts k' user' row _ _ h := by
    rw [lookup_use]
    split
    · rw [h]
      exact ⟨_, rfl, rfl⟩
    · exact ⟨row, h, rfl⟩

theorem lookup_without (s : Shared) (ended : List Bytes) (token : Bytes) :
    (s.without ended).lookup token = if token ∈ ended then none else s.sessions.lookup token := by
  rw [Shared.without, HashMap.lookup_foldl_erase]
  by_cases hended : token ∈ ended
  · rw [if_pos hended, if_pos hended]
  · rw [if_neg hended, if_neg hended]

theorem of_lookup_without {ended : List Bytes} {session : Session}
    (h : (s.without ended).lookup token = some session) :
    token ∉ ended ∧ s.sessions.lookup token = some session := by
  rw [lookup_without] at h
  split at h
  · cases h
  · exact ⟨‹_›, h⟩

theorem find_eq_some (h : s.find user = some row) : s.accounts.lookup user = some row := by
  obtain ⟨_, -, h⟩ := Option.bind_eq_some_iff.1 h
  exact h

/-! ## Steps -/

/-- What every statement but the commit of a reset does. -/
structure Quiet (k : Nat) (s s' : Shared) (o : Option Flight) : Prop where
  resets : s'.resets = s.resets
  sound : Sound s'
  others : Others k s s'
  ready : ∀ g, o = some g → Ready k s' g

theorem Quiet.close (hs : Sound s) (h : s.close k = some (s', o)) : Quiet k s s' o := by
  cases h
  exact ⟨rfl, hs.locks _, Others.refl.close, ready_of_none⟩

theorem Quiet.goOn (hs : Sound s) (h : s.goOn f = some (s', o)) (hf : Ready k s f) :
    Quiet k s s' o := by
  cases h
  refine ⟨rfl, hs, .refl, fun g hg => ?_⟩
  cases hg
  exact hf

theorem Quiet.goOnWith {α : Type} {found : Option α} {next : α → Flight} (hs : Sound s)
    (h : s.goOnWith k found next = some (s', o))
    (hnext : ∀ a, found = some a → Ready k s (next a)) : Quiet k s s' o := by
  cases hfound : found with
  | none =>
    rw [hfound] at h
    exact .close hs h
  | some a =>
    rw [hfound] at h
    exact .goOn hs h (hnext a hfound)

theorem Quiet.lock (hs : Sound s) (h : s.lock k user f = some (s', o))
    (hf : ∀ locks, locks user = some k → Ready k { s with locks } f) : Quiet k s s' o := by
  obtain ⟨locks, hlocks, h⟩ := Option.bind_eq_some_iff.1 h
  cases h
  refine ⟨rfl, hs.locks locks, ⟨?_, ?_⟩, fun g hg => ?_⟩
  · intro k' user' _ hlock
    exact Locks.acquire_keeps hlocks hlock
  · intro k' user' row _ _ hrow
    exact ⟨row, hrow, rfl⟩
  · cases hg
    exact hf locks (Locks.acquire_held hlocks)

theorem quiet_created (hs : Sound s) (hf : Ready k s (.created user read token))
    (h : (Flight.created user read token).statement c k s = some (s', o)) : Quiet k s s' o := by
  simp only [Flight.statement] at h
  split at h
  · exact .close hs h
  · cases h
    refine ⟨rfl, ⟨fun token' session hsession => ?_, hs.accounts, hs.known, hs.resets⟩,
      Others.close ⟨Others.refl.locks, Others.refl.accounts⟩, ready_of_none⟩
    simp only [HashMap.lookup_insert_eq] at hsession
    split at hsession
    · cases hsession
      exact hf
    · exact hs.sessions token' session hsession

theorem quiet_create {hash : String} {secret : Bytes} (hs : Sound s)
    (h : (Flight.create user hash secret).statement c k s = some (s', o)) : Quiet k s s' o := by
  simp only [Flight.statement] at h
  split at h
  · exact .close hs h
  · rename_i hnew
    rw [not_or, not_or] at hnew
    cases h
    refine ⟨rfl, ⟨hs.sessions, fun user' row' hrow' => ?_, fun user' row' hrow' => ?_,
      fun user' version hmem => ?_⟩, Others.close ⟨fun _ _ _ h => h, ?_⟩, ready_of_none⟩
    · simp only [HashMap.lookup_insert_eq] at hrow'
      split at hrow'
      · intro version hmem
        subst user'
        exact absurd (hs.resets user version hmem) hnew.1
      · exact hs.accounts user' row' hrow'
    · simp only [HashMap.lookup_insert_eq] at hrow'
      rw [AList.mem_insert]
      split at hrow'
      · exact .inl ‹_›
      · exact .inr (hs.known user' row' hrow')
    · rw [AList.mem_insert]
      exact .inr (hs.resets user' version hmem)
    · intro k' user' row _ _ hrow
      refine ⟨row, ?_, rfl⟩
      rw [HashMap.lookup_insert_eq, if_neg]
      · exact hrow
      · rintro rfl
        exact hnew.2.1 (AList.lookup_isSome.1 (by rw [hrow]; rfl))

theorem quiet_deleted {versions : List Int} {ended : List Bytes} (hs : Sound s)
    (hf : Ready k s (.deleted user versions ended))
    (h : (Flight.deleted user versions ended).statement c k s = some (s', o)) :
    Quiet k s s' o := by
  cases h
  have hkeeps : Keeps s { s with
      users := s.users.modify user fun row => { row with deleted := true }
      accounts := s.accounts.erase user
      secrets := versions.foldl (fun rows version => rows.erase (user, version)) s.secrets
      sessions := s.without ended } := by
    refine ⟨rfl, fun _ _ h => (of_lookup_without h).2, fun user' row' h => ?_, fun user' h => ?_⟩
    · exact ⟨row', (HashMap.of_lookup_erase h).2, rfl⟩
    · exact (HashMap.mem_modify _ _ _ _).2 h
  refine ⟨rfl, (hkeeps.sound hs).locks _, Others.close ⟨fun _ _ _ h => h, ?_⟩, ready_of_none⟩
  intro k' user' row hne hlock hrow
  refine ⟨row, ?_, rfl⟩
  rw [AList.lookup_erase_ne]
  · exact hrow
  · -- only this request has locked the account
    rintro rfl
    exact hne (Locks.free_of_held hf k' hlock)

theorem statement_quiet (hs : Sound s) (hf : Ready k s f)
    (hother : ∀ user hash secret version ended, f ≠ .swept user hash secret version ended)
    (h : f.statement c k s = some (s', o)) : Quiet k s s' o := by
  cases f with
  | signIn user password code now token =>
    refine .goOnWith hs h fun row hrow => ?_
    exact hs.accounts user row (find_eq_some (Option.eq_some_of_filter_eq_some hrow))
  | codeMatches => exact .goOnWith hs h fun _ _ => hf
  | matched user read step token =>
    simp only [Flight.statement] at h
    split at h
    · exact .close hs h
    · split at h
      · obtain ⟨_, -, h⟩ := Option.bind_eq_some_iff.1 h
        cases h
        refine ⟨rfl, (use_keeps s user step).sound hs, use_others s user step, fun g hg => ?_⟩
        cases hg
        exact hf
      · exact .close hs h
  | authenticated user read token =>
    simp only [Flight.statement] at h
    split at h
    · exact .close hs h
    · split at h
      · exact .close hs h
      · exact .goOn hs h hf
  | created => exact quiet_created hs hf h
  | create => exact quiet_create hs h
  | reset => exact .goOnWith hs h fun _ _ => trivial
  | found user hash secret =>
    simp only [Flight.statement] at h
    split at h
    · exact .close hs h
    · rename_i row hrow
      exact .lock hs h fun locks hlock => ⟨hlock, row, hrow, rfl⟩
  | renewed =>
    simp only [Flight.statement] at h
    split at h
    · exact .close hs h
    · exact .goOn hs h hf
  | stored => exact .goOn hs h hf
  | swept user hash secret version ended => exact absurd rfl (hother user hash secret version ended)
  | delete => exact .goOnWith hs h fun _ _ => trivial
  | deleting => exact .goOn hs h trivial
  | unsealed => exact .lock hs h fun locks hlock => hlock
  | removed => exact .goOn hs h hf
  | deleted => exact quiet_deleted hs hf h

/-! ## Runs -/

/-- A reset is committed when its deletion has found every session of the account and no sign-in that
the password let in is under way. -/
def Flight.Clear (w : World Shared Flight) (k : Nat) : Flight → Prop
  | .swept user _ _ _ ended => k ∈ w.shared.cancelled ∨
      (∀ e ∈ w.shared.sessions.entries, e.2.user = user → e.1 ∈ ended) ∧
        ∀ e ∈ w.flights.entries, e.2.signsIn ≠ some user
  | _ => True

def Alone (w : World Shared Flight) : Interleave.Event Flight Outside → Prop
  | .next k => ∀ f ∈ w.flights.lookup k, f.Clear w k
  | _ => True

instance (w : World Shared Flight) (k : Nat) (f : Flight) : Decidable (f.Clear w k) :=
  match f with
  | .swept user _ _ _ ended => inferInstanceAs (Decidable (k ∈ w.shared.cancelled ∨
      (∀ e ∈ w.shared.sessions.entries, e.2.user = user → e.1 ∈ ended) ∧
        ∀ e ∈ w.flights.entries, e.2.signsIn ≠ some user))
  | .signIn .. | .codeMatches .. | .matched .. | .authenticated .. | .created .. | .create ..
  | .reset .. | .found .. | .renewed .. | .stored .. | .delete .. | .deleting .. | .unsealed ..
  | .removed .. | .deleted .. => .isTrue trivial

instance (w : World Shared Flight) (ev : Interleave.Event Flight Outside) : Decidable (Alone w ev) :=
  match ev with
  | .next k => inferInstanceAs (Decidable (∀ f ∈ w.flights.lookup k, f.Clear w k))
  | .start .. | .outside _ => .isTrue trivial

theorem Shared.Since.append {user' : Uuid} {version : Int} (h : s.Since user read)
    (hresets : s'.resets = s.resets ++ [(user', version)]) (hne : user ≠ user') :
    s'.Since user read := by
  intro version' hmem
  rw [hresets, List.mem_append, List.mem_singleton, Prod.mk.injEq] at hmem
  rcases hmem with hmem | ⟨heq, -⟩
  · exact h version' hmem
  · exact absurd heq hne

/-- The commit of a reset. -/
theorem swept_ok {hash : String} {secret : Bytes} {version : Int} {ended : List Bytes}
    (hs : Sound s) (hf : Ready k s (.swept user hash secret version ended))
    (hfound : ∀ token session, s.sessions.lookup token = some session → session.user = user →
      token ∈ ended)
    (h : (Flight.swept user hash secret version ended).statement c k s = some (s', o)) :
    Sound s' ∧ Others k s s' ∧ o = none ∧ s'.resets = s.resets ++ [(user, version)] := by
  obtain ⟨hlock, row, hrow, hversion⟩ := hf
  cases h
  refine ⟨⟨?_, ?_, ?_, ?_⟩, Others.close ⟨fun _ _ _ h => h, ?_⟩, rfl, rfl⟩
  · intro token session hsession
    obtain ⟨hkept, hsession⟩ := of_lookup_without hsession
    refine (hs.sessions token session hsession).append rfl ?_
    intro heq
    exact hkept (hfound token session hsession heq)
  · intro user' row' hrow'
    simp only [HashMap.lookup_insert_eq] at hrow'
    split at hrow'
    · subst user'
      cases hrow'
      intro version' hmem
      rw [List.mem_append, List.mem_singleton, Prod.mk.injEq] at hmem
      rcases hmem with hmem | ⟨-, rfl⟩
      · have hold := hs.accounts user row hrow version' hmem
        simp only
        omega
      · exact le_refl _
    · exact (hs.accounts user' row' hrow').append rfl ‹_›
  · intro user' row' hrow'
    simp only [HashMap.lookup_insert_eq] at hrow'
    split at hrow'
    · subst user'
      exact hs.known user row hrow
    · exact hs.known user' row' hrow'
  · intro user' version' hmem
    rw [List.mem_append, List.mem_singleton, Prod.mk.injEq] at hmem
    rcases hmem with hmem | ⟨rfl, -⟩
    · exact hs.resets user' version' hmem
    · exact hs.known user' row hrow
  · intro k' user' row' hne hlock' hrow'
    refine ⟨row', ?_, rfl⟩
    rw [HashMap.lookup_insert_eq, if_neg]
    · exact hrow'
    · rintro rfl
      exact hne (Locks.free_of_held hlock k' hlock')

theorem ready_of_isNew (hf : f.isNew = true) : Ready k s f := by
  cases f with
  | signIn | create | reset | delete => trivial
  | _ => cases hf

theorem outside_ok (hs : Sound s) (h : s.outside e = some s') :
    Sound s' ∧ ∀ k g, Ready k s g → Ready k s' g := by
  cases e with
  | cancel k =>
    cases h
    exact ⟨⟨hs.sessions, hs.accounts, hs.known, hs.resets⟩, fun _ _ hg => hg⟩
  | confirm user step =>
    simp only [Shared.outside] at h
    split at h
    · obtain ⟨row, -, h⟩ := Option.bind_eq_some_iff.1 h
      split at h
      · cases h
        refine ⟨(use_keeps s user step).sound hs, fun k g hg => ?_⟩
        have hothers : Others (k + 1) s (s.use user step) := use_others s user step
        exact hothers.ready (Nat.ne_of_lt (Nat.lt_succ_self k)) hg fun _ _ _ hsince => hsince
      · cases h
    · cases h
  | block user blocked =>
    cases h
    have husers : ∀ user' ∈ s.users,
        user' ∈ s.users.modify user fun row => { row with blocked } :=
      fun _ hmem => (HashMap.mem_modify _ _ _ _).2 hmem
    exact ⟨⟨hs.sessions, hs.accounts, fun user row hrow => husers user (hs.known user row hrow),
      fun user version hmem => husers user (hs.resets user version hmem)⟩, fun _ _ hg => hg⟩
  | endSession token =>
    cases h
    refine ⟨⟨fun token' session hsession => ?_, hs.accounts, hs.known, hs.resets⟩, fun _ _ hg => hg⟩
    exact hs.sessions token' session (HashMap.of_lookup_erase hsession).2

theorem sound_step {w w' : World Shared Flight} {ev : Interleave.Event Flight Outside}
    (hw : Holds Sound Ready w) (hC : Alone w ev) (hs : step (system c) w ev = some w') :
    Holds Sound Ready w' := by
  refine hw.step hs (fun k f hf => ready_of_isNew hf) ?_ ?_
  · intro k f s o he hf hn
    subst he
    have hready := hw.flights k f hf
    simp only [system, Flight.next] at hn
    split at hn
    · have hquiet := Quiet.close hw.shared hn
      exact ⟨hquiet.sound, hquiet.ready, fun k' g hne hg =>
        hquiet.others.ready hne (hw.flights k' g hg) fun _ _ _ h => h.of_resets hquiet.resets⟩
    · rename_i hgoes
      by_cases hswept : ∃ user hash secret version ended, f = .swept user hash secret version ended
      · obtain ⟨user, hash, secret, version, ended, rfl⟩ := hswept
        obtain ⟨hfound, hnobody⟩ := (hC _ hf).resolve_left hgoes
        obtain ⟨hsound, hothers, rfl, hresets⟩ := swept_ok hw.shared hready
          (fun token session hsession => hfound ⟨token, session⟩ (HashMap.lookup_eq_some.1 hsession)) hn
        refine ⟨hsound, nofun, fun k' g hne hg => ?_⟩
        refine hothers.ready hne (hw.flights k' g hg) fun user' read hsigns hsince => ?_
        refine hsince.append hresets ?_
        rintro rfl
        exact hnobody ⟨k', g⟩ (HashMap.lookup_eq_some.1 hg) hsigns
      · have hquiet := statement_quiet hw.shared hready
          (fun user hash secret version ended heq => hswept ⟨user, hash, secret, version, ended, heq⟩)
          hn
        exact ⟨hquiet.sound, hquiet.ready, fun k' g hne hg =>
          hquiet.others.ready hne (hw.flights k' g hg) fun _ _ _ h => h.of_resets hquiet.resets⟩
  · intro e s _ ho
    obtain ⟨hsound, hkept⟩ := outside_ok hw.shared ho
    exact ⟨hsound, fun k g hg => hkept k g (hw.flights k g hg)⟩

/-- **A reset ends what was signed in before**: over every interleaving whose resets meet `Alone`, no
session was authenticated with a row from before a committed reset of its account. -/
theorem resets_end_sessions (c : Crypto) {es : List (Interleave.Event Flight Outside)}
    {w : World Shared Flight}
    (hr : Run.run (step (system c)) (World.quiet {}) es = some w)
    (hm : Run.Meets (step (system c)) Alone (World.quiet {}) es) :
    ∀ user version, (user, version) ∈ w.shared.resets →
      ∀ token session, w.shared.sessions.lookup token = some session → session.user = user →
        version ≤ session.read.totpVersion := by
  have hstart : Holds Sound Ready (World.quiet {} : World Shared Flight) := by
    refine .quiet ⟨?_, ?_, ?_, ?_⟩
    · intro token session hsession
      cases hsession
    · intro user row hrow
      cases hrow
    · intro user row hrow
      cases hrow
    · intro user version hmem
      cases hmem
  have hw : Holds Sound Ready w :=
    Run.inv_of_meets (I := fun _ w => Holds Sound Ready w) hstart
      (fun _ _ _ _ _ hC hs ht => sound_step ht hC hs) hm hr
  intro user version hmem token session hsession heq
  exact hw.shared.sessions token session hsession version (by rw [heq]; exact hmem)

/-- An argon2id hash of `password`. -/
def oldHash : String :=
  "$argon2id$v=19$m=65536,t=2,p=1$c29tc2FsdA$CTFhFdXPJO1aFaMaO6Mm5c8y7cJHAph8ArZWb2GRPPc"

/-- The secret of RFC 6238, its HMAC-SHA1 for the first time step, and the password's hash. -/
def rfcAccount : Crypto where
  hmac key message :=
    if key = Text.utf8 "12345678901234567890" ∧ message = [0, 0, 0, 0, 0, 0, 0, 1] then
      [117, 164, 138, 25, 212, 203, 225, 0, 100, 78, 138, 193, 57, 126, 234, 116, 122, 45, 51, 171]
    else List.replicate 20 0
  base32 _ := none
  passwordMatches password hash := password = "password" ∧ hash = oldHash

/-- An account, and a sign-in that has read it. -/
def signInBegins : List (Interleave.Event Flight Outside) :=
  [.start 0 (.create 1 oldHash (Text.utf8 "12345678901234567890")), .next 0,
    .start 1 (.signIn 1 "password" "287082" 59 [7]), .next 1]

def signInGoesOn : List (Interleave.Event Flight Outside) := List.replicate 4 (.next 1)

def accountReset : List (Interleave.Event Flight Outside) :=
  .start 2 (.reset 1 "$argon2id$v=19" (Text.utf8 "09876543210987654321")) ::
    List.replicate 5 (.next 2)

theorem resets_end_sessions_after_sign_in :
    ∃ w, Run.run (step (system rfcAccount)) (World.quiet {})
        (signInBegins ++ signInGoesOn ++ accountReset) =
        some w ∧
      (1, 2) ∈ w.shared.resets ∧
      ∀ user version, (user, version) ∈ w.shared.resets →
        ∀ token session, w.shared.sessions.lookup token = some session → session.user = user →
          version ≤ session.read.totpVersion := by
  have hrun : (Run.run (step (system rfcAccount)) (World.quiet {})
      (signInBegins ++ signInGoesOn ++ accountReset)).map (fun w => w.shared.resets) =
        some [(1, 2)] := by
    decide +kernel
  obtain ⟨w, hr, hresets⟩ := Option.map_eq_some_iff.1 hrun
  refine ⟨w, hr, ?_, resets_end_sessions rfcAccount hr (by decide +kernel)⟩
  rw [hresets]
  exact List.mem_cons_self

/-- The sign-in goes on with what it read. -/
theorem old_sign_in_survives :
    ¬∀ (es : List (Interleave.Event Flight Outside)) (w : World Shared Flight),
      Run.run (step (system rfcAccount)) (World.quiet {}) es = some w →
      ∀ user version, (user, version) ∈ w.shared.resets →
        ∀ token session, w.shared.sessions.lookup token = some session → session.user = user →
          version ≤ session.read.totpVersion := by
  intro hall
  have hrun : (Run.run (step (system rfcAccount)) (World.quiet {})
      (signInBegins ++ accountReset ++ signInGoesOn)).map
        (fun w => (w.shared.resets, w.shared.sessions.lookup [7])) =
      some ([(1, 2)], some ⟨1, ⟨oldHash, 1, 0⟩⟩) := by
    decide +kernel
  obtain ⟨w, hr, hw⟩ := Option.map_eq_some_iff.1 hrun
  rw [Prod.mk.injEq] at hw
  have hold := hall _ w hr 1 2 (by rw [hw.1]; exact List.mem_cons_self) [7] _ hw.2 rfl
  revert hold
  decide

end Server.BreakGlass
