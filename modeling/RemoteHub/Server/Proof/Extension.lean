import RemoteHub.Server.Extension
import RemoteHub.Server.Proof.Sessions

/-!
# What is left after a user's sessions were ended

`Since s user origin`: the sign-in `origin` is later than every end of the user's sessions. The
sessions in the table have it, and so do the codes that can still be traded (`Sound`, `Ready`), as long
as the sessions of a user are ended, or the user is unblocked, only when no code of the user holds and
none is being made or traded (`Settled`). The deletion takes the sessions only: a code that is left
becomes a session afterwards (`code_outlives_sessions`).

Each code is traded once at most, since its row is locked from its deletion to the commit (`Traded`,
`Held`).
-/

namespace Server.Extension

open Model Sessions Interleave

variable {config : Config} {s s' : Shared} {k k' : Nat} {f g : Flight} {o : Option Flight}
  {e : Outside} {user : Uuid} {origin : Nat} {hash code : Bytes} {row : CodeRow}

/-! ## Rows of sessions -/

/-- Every session was there before, of the same user and client. -/
def RowsFrom (t t' : Sessions.Shared) : Prop :=
  ∀ h row', t'.sessions.lookup h = some row' →
    ∃ row, t.sessions.lookup h = some row ∧ row'.userId = row.userId ∧ row'.client = row.client

variable {t t' : Sessions.Shared}

theorem RowsFrom.of_eq (h : t'.sessions = t.sessions) : RowsFrom t t' := by
  intro hash row' hrow'
  rw [h] at hrow'
  exact ⟨row', hrow', rfl, rfl⟩

theorem rowsFrom_touch (idle : Int) (t : Sessions.Shared) (hash : Bytes) :
    RowsFrom t (t.touch idle hash) := by
  intro h row' hrow'
  rw [Sessions.Shared.lookup_touch] at hrow'
  split at hrow'
  · obtain ⟨row, hrow, rfl⟩ := Option.map_eq_some_iff.1 hrow'
    refine ⟨row, hrow, ?_, touch_client⟩
    unfold SessionRow.touch
    split <;> rfl
  · exact ⟨row', hrow', rfl, rfl⟩

theorem rowsFrom_confirm (t : Sessions.Shared) (hash : Bytes) (began : Int) (right : Bool) :
    RowsFrom t (t.confirm hash began right) := by
  intro h row' hrow'
  rw [Sessions.Shared.lookup_confirm] at hrow'
  split at hrow'
  · obtain ⟨row, hrow, hconfirm⟩ := Option.bind_eq_some_iff.1 hrow'
    refine ⟨row, hrow, ?_, (confirm_eq_some hconfirm).1⟩
    unfold SessionRow.confirm at hconfirm
    split at hconfirm
    · cases hconfirm
      rfl
    · split at hconfirm
      · cases hconfirm
      · cases hconfirm
        rfl
  · exact ⟨row', hrow', rfl, rfl⟩

theorem rowsFrom_purge (idle : Int) (t : Sessions.Shared) : RowsFrom t (t.purge idle) := by
  intro h row' hrow'
  rw [Sessions.Shared.lookup_purge] at hrow'
  exact ⟨row', Option.eq_some_of_filter_eq_some hrow', rfl, rfl⟩

theorem rowsFrom_erase (t : Sessions.Shared) (hash : Bytes) :
    RowsFrom t { t with sessions := t.sessions.erase hash } := by
  intro h row' hrow'
  exact ⟨row', (HashMap.of_lookup_erase hrow').2, rfl, rfl⟩

theorem of_lookup_endSessions {row : SessionRow}
    (h : (t.endSessions user).sessions.lookup hash = some row) :
    t.sessions.lookup hash = some row ∧ row.userId ≠ user := by
  rw [Sessions.Shared.lookup_endSessions, Option.filter_eq_some_iff] at h
  exact ⟨h.1, by simpa using h.2⟩

/-! ## Since the end of the sessions -/

/-- The sign-in is later than every end of the user's sessions. -/
def Shared.Since (s : Shared) (user : Uuid) (origin : Nat) : Prop :=
  ∀ n, (user, n) ∈ s.ended → n ≤ origin

/-- The code cannot make an old session: its sign-in is new, or it does not hold at `now`. -/
def CodeRow.Safe (row : CodeRow) (s : Shared) (now : Int) : Prop :=
  row.userId ∉ s.store.blocked → s.Since row.userId row.origin ∨ row.expiresAt ≤ now

structure Sound (s : Shared) : Prop where
  sessions : ∀ h row, s.store.sessions.lookup h = some row →
    row.client = .web ∨ row.userId ∉ s.store.blocked → s.Since row.userId (s.originOf h)
  codes : ∀ code row, s.codes.lookup code = some row → row.Safe s s.store.clock
  ended : ∀ user n, (user, n) ∈ s.ended → n ≤ s.signIns
  issued : Issued s.store

/-- What is being made or traded is safe too. -/
def Ready (_ : Nat) (s : Shared) : Flight → Prop
  | .issuing user origin .. => user ∉ s.store.blocked → s.Since user origin
  | .exchange code _ _ now => now ≤ s.store.clock ∧
      ∀ row, s.codes.lookup code = some row → row.Safe s now
  | .deleted _ row _ _ now => row.Safe s now
  | .allowed _ row _ _ => row.userId ∉ s.store.blocked → s.Since row.userId row.origin
  | _ => True

/-- A step that ends nobody's sessions and unblocks nobody. -/
structure Later (s s' : Shared) : Prop where
  clock : s.store.clock ≤ s'.store.clock
  blocked : ∀ user, user ∉ s'.store.blocked → user ∉ s.store.blocked
  ended : s'.ended = s.ended

theorem Shared.Since.later (h : s.Since user origin) (hl : Later s s') : s'.Since user origin := by
  intro n hn
  rw [hl.ended] at hn
  exact h n hn

theorem CodeRow.Safe.later {now now' : Int} (h : row.Safe s now) (hl : Later s s')
    (hnow : now ≤ now') : row.Safe s' now' := by
  intro hblocked
  rcases h (hl.blocked _ hblocked) with hsince | hover
  · exact .inl (hsince.later hl)
  · exact .inr (le_trans hover hnow)

theorem Ready.later (hg : Ready k s g) (hl : Later s s')
    (hcodes : ∀ code row now, s'.codes.lookup code = some row →
      s.codes.lookup code = some row ∨ row.Safe s' now) : Ready k s' g := by
  cases g with
  | issuing user origin challenge code =>
    intro hblocked
    exact (hg (hl.blocked _ hblocked)).later hl
  | exchange code verifier hash now =>
    refine ⟨le_trans hg.1 hl.clock, fun row hrow => ?_⟩
    rcases hcodes code row now hrow with hold | hsafe
    · exact (hg.2 row hold).later hl (le_refl _)
    · exact hsafe
  | deleted code row verifier hash now => exact CodeRow.Safe.later hg hl (le_refl _)
  | allowed code row hash now =>
    intro hblocked
    exact (hg (hl.blocked _ hblocked)).later hl
  | _ => trivial

theorem Sound.later (hs : Sound s) (hl : Later s s') (hrows : RowsFrom s.store s'.store)
    (horigins : s'.origins = s.origins) (hissued : ∀ h ∈ s.store.issued, h ∈ s'.store.issued)
    (hsignIns : s'.signIns = s.signIns)
    (hcodes : ∀ code row, s'.codes.lookup code = some row →
      s.codes.lookup code = some row ∨ row.Safe s' s'.store.clock) : Sound s' := by
  have horigin : ∀ h, s'.originOf h = s.originOf h := by
    intro h
    unfold Shared.originOf
    rw [horigins]
  refine ⟨fun h row' hrow' hcase => ?_, fun code row hrow => ?_, fun user n hmem => ?_,
    fun h row' hrow' => ?_⟩
  · obtain ⟨row, hrow, huser, hclient⟩ := hrows h row' hrow'
    rw [horigin, huser]
    refine (hs.sessions h row hrow ?_).later hl
    rw [huser, hclient] at hcase
    exact hcase.imp id (hl.blocked _)
  · rcases hcodes code row hrow with hold | hsafe
    · exact (hs.codes code row hold).later hl hl.clock
    · exact hsafe
  · rw [hl.ended] at hmem
    rw [hsignIns]
    exact hs.ended user n hmem
  · obtain ⟨row, hrow, -⟩ := hrows h row' hrow'
    exact hissued h (hs.issued h row hrow)

/-! ## Statements -/

/-- What every statement does that does not end sessions. -/
structure Quiet (s s' : Shared) (o : Option Flight) : Prop where
  later : Later s s'
  sound : Sound s'
  codes : ∀ code row now, s'.codes.lookup code = some row →
    s.codes.lookup code = some row ∨ row.Safe s' now
  ready : ∀ k g, o = some g → Ready k s' g

theorem Later.refl (s : Shared) : Later s s := ⟨le_refl _, fun _ h => h, rfl⟩

theorem Quiet.close (hs : Sound s) (h : s.close k = some (s', o)) : Quiet s s' o := by
  cases h
  have hl : Later s { s with locks := s.locks.release k } := ⟨le_refl _, fun _ h => h, rfl⟩
  exact ⟨hl, hs.later hl (.of_eq rfl) rfl (fun _ h => h) rfl fun _ _ h => .inl h,
    fun _ _ _ h => .inl h, fun _ => ready_of_none⟩

/-- A transaction commits what it did and lets go of its locks. -/
theorem Quiet.commit {t : Shared} (hq : Quiet s t none) (h : t.close k = some (s', o)) :
    Quiet s s' o := by
  have hover := Quiet.close hq.sound h
  refine ⟨⟨le_trans hq.later.clock hover.later.clock,
    fun user hb => hq.later.blocked user (hover.later.blocked user hb), ?_⟩, hover.sound, ?_,
    hover.ready⟩
  · rw [hover.later.ended, hq.later.ended]
  · intro code row now hrow
    rcases hover.codes code row now hrow with hold | hsafe
    · rcases hq.codes code row now hold with hold | hsafe
      · exact .inl hold
      · exact .inr (hsafe.later hover.later (le_refl _))
    · exact .inr hsafe

theorem Quiet.goOn (hs : Sound s) (h : s.goOn f = some (s', o)) (hf : ∀ k, Ready k s f) :
    Quiet s s' o := by
  cases h
  refine ⟨.refl s, hs, fun _ _ _ h => .inl h, fun k g hg => ?_⟩
  cases hg
  exact hf k

theorem create_eq_some {client : Client}
    (h : s.create config hash user client origin = some s') :
    hash ∉ s.store.issued ∧
      s' = { s with
        store := { s.store with
          sessions := s.store.sessions.insert hash
            { userId := user, client, lastSeenAt := s.store.clock,
              expiresAt := s.store.clock + config.max }
          issued := hash :: s.store.issued
          arrived := s.store.arrived.insert hash s.store.clock }
        origins := s.origins.insert hash origin } := by
  obtain ⟨store, hstore, rfl⟩ := Option.map_eq_some_iff.1 h
  simp only [Sessions.Shared.outside] at hstore
  split at hstore
  · cases hstore
  · rename_i hnew
    cases hstore
    exact ⟨hnew, rfl⟩

/-- A new session comes from a new sign-in, or its user is blocked. -/
theorem quiet_create {client : Client} (hs : Sound s)
    (h : s.create config hash user client origin = some s')
    (hsafe : client = .web ∨ user ∉ s.store.blocked → s.Since user origin) : Quiet s s' none := by
  obtain ⟨hnew, rfl⟩ := create_eq_some h
  refine ⟨⟨le_refl _, fun _ h => h, rfl⟩, ⟨fun h row hrow hcase => ?_, hs.codes, hs.ended,
    fun h row hrow => ?_⟩, fun _ _ _ h => .inl h, fun _ => ready_of_none⟩
  · simp only [HashMap.lookup_insert_eq] at hrow
    unfold Shared.originOf
    rw [HashMap.lookup_insert_eq]
    split at hrow
    · cases hrow
      rw [if_pos ‹_›]
      exact hsafe hcase
    · rw [if_neg ‹_›]
      exact hs.sessions h row hrow hcase
  · simp only [HashMap.lookup_insert_eq] at hrow
    split at hrow
    · exact List.mem_cons.2 (.inl ‹_›)
    · exact List.mem_cons_of_mem _ (hs.issued h row hrow)

theorem quiet_signing (hs : Sound s)
    (h : (Flight.signing user hash).statement config k s = some (s', o)) : Quiet s s' o := by
  simp only [Flight.statement, Shared.finish] at h
  cases hcreate : s.create config hash user .web s.signIns with
  | none =>
    rw [hcreate] at h
    exact .close hs h
  | some t =>
    rw [hcreate] at h
    have hq := quiet_create hs hcreate fun _ n hn => hs.ended user n hn
    refine Quiet.commit (t := { t with signIns := t.signIns + 1 }) ?_ h
    refine ⟨⟨hq.later.clock, hq.later.blocked, hq.later.ended⟩, ⟨hq.sound.sessions, hq.sound.codes,
      fun user n hmem => ?_, hq.sound.issued⟩, hq.codes, fun _ => ready_of_none⟩
    exact Nat.le_succ_of_le (hq.sound.ended user n hmem)

theorem quiet_allowed {now : Int} (hs : Sound s) (hf : Ready k s (.allowed code row hash now))
    (h : (Flight.allowed code row hash now).statement config k s = some (s', o)) : Quiet s s' o := by
  simp only [Flight.statement, Shared.finish] at h
  cases hcreate : s.create config hash row.userId .extension row.origin with
  | none =>
    rw [hcreate] at h
    exact .close hs h
  | some t =>
    rw [hcreate] at h
    have hq := quiet_create hs hcreate fun hcase => hf (hcase.resolve_left nofun)
    refine Quiet.commit (t := { t with
      codes := t.codes.erase code
      traded := t.traded ++ [⟨code, now, row.expiresAt⟩] }) ?_ h
    refine ⟨⟨hq.later.clock, hq.later.blocked, hq.later.ended⟩, ⟨hq.sound.sessions,
      fun code' row' hrow' => ?_, hq.sound.ended, hq.sound.issued⟩, fun code' row' now' hrow' => ?_,
      fun _ => ready_of_none⟩
    · exact hq.sound.codes code' row' (HashMap.of_lookup_erase hrow').2
    · exact hq.codes code' row' now' (HashMap.of_lookup_erase hrow').2

theorem quiet_issuing {challenge : String} (hs : Sound s)
    (hf : Ready k s (.issuing user origin challenge code))
    (h : (Flight.issuing user origin challenge code).statement config k s = some (s', o)) :
    Quiet s s' o := by
  simp only [Flight.statement] at h
  split at h
  · exact .close hs h
  · refine Quiet.commit ?_ h
    have hl : Later s { s with
        codes := s.codes.insert code
          { userId := user, challenge, expiresAt := s.store.clock + codeLifetime, origin }
        issued := code :: s.issued } := ⟨le_refl _, fun _ h => h, rfl⟩
    have hcodes : ∀ code' row' now, (s.codes.insert code
        { userId := user, challenge, expiresAt := s.store.clock + codeLifetime, origin }).lookup
          code' = some row' →
        s.codes.lookup code' = some row' ∨ row'.Safe { s with
          codes := s.codes.insert code
            { userId := user, challenge, expiresAt := s.store.clock + codeLifetime, origin }
          issued := code :: s.issued } now := by
      intro code' row' now hrow'
      rw [HashMap.lookup_insert_eq] at hrow'
      split at hrow'
      · cases hrow'
        exact .inr fun hblocked => .inl ((hf hblocked).later hl)
      · exact .inl hrow'
    exact ⟨hl, hs.later hl (.of_eq rfl) rfl (fun _ h => h) rfl fun code' row' h =>
      hcodes code' row' _ h, hcodes, fun _ => ready_of_none⟩

theorem quiet_erase {t : Shared} (hs : Sound s) (ht : t = { s with codes := s.codes.erase code })
    (h : t.close k = some (s', o)) : Quiet s s' o := by
  subst ht
  refine Quiet.commit ?_ h
  have hl : Later s { s with codes := s.codes.erase code } := ⟨le_refl _, fun _ h => h, rfl⟩
  exact ⟨hl, hs.later hl (.of_eq rfl) rfl (fun _ h => h) rfl fun _ _ h =>
    .inl (HashMap.of_lookup_erase h).2, fun _ _ _ h => .inl (HashMap.of_lookup_erase h).2,
    fun _ => ready_of_none⟩

theorem quiet_deleted {verifier : String} {now : Int} (hs : Sound s)
    (hf : Ready k s (.deleted code row verifier hash now))
    (h : (Flight.deleted code row verifier hash now).statement config k s = some (s', o)) :
    Quiet s s' o := by
  simp only [Flight.statement] at h
  split at h
  · rename_i hcond
    refine .goOn hs h fun _ hblocked => ?_
    rcases hf hblocked with hsince | hover
    · exact hsince
    · exact absurd hover (not_le.2 hcond.1)
  · exact quiet_erase hs rfl h

theorem statement_quiet (hs : Sound s) (hf : Ready k s f) (hother : ∀ user, f ≠ .endSessions user)
    (h : f.statement config k s = some (s', o)) : Quiet s s' o := by
  cases f with
  | signIn user hash =>
    simp only [Flight.statement] at h
    split at h
    · exact .close hs h
    · exact .goOn hs h fun _ => trivial
  | signing => exact quiet_signing hs h
  | createCode hash input code =>
    simp only [Flight.statement] at h
    split at h
    · exact .close hs h
    · rename_i session hsession
      split at h
      · exact .close hs h
      · obtain ⟨row, hrow, -, -, -, rfl⟩ := Sessions.Shared.byHash_eq_some hsession
        exact .goOn hs h fun _ hblocked => hs.sessions hash row hrow (.inr hblocked)
  | issuing => exact quiet_issuing hs hf h
  | token code verifier hash =>
    simp only [Flight.statement] at h
    split at h
    · exact .goOn hs h fun _ => ⟨le_refl _, fun row hrow => hs.codes code row hrow⟩
    · exact .close hs h
  | exchange code verifier hash now =>
    simp only [Flight.statement] at h
    split at h
    · exact .close hs h
    · rename_i row hrow
      obtain ⟨locks, -, h⟩ := Option.bind_eq_some_iff.1 h
      cases h
      have hl : Later s { s with locks } := ⟨le_refl _, fun _ h => h, rfl⟩
      refine ⟨hl, hs.later hl (.of_eq rfl) rfl (fun _ h => h) rfl fun _ _ h => .inl h,
        fun _ _ _ h => .inl h, fun k g hg => ?_⟩
      cases hg
      exact (hf.2 row hrow).later hl (le_refl _)
  | deleted => exact quiet_deleted hs hf h
  | allowed => exact quiet_allowed hs hf h
  | endSessions user => exact absurd rfl (hother user)
  | block user =>
    cases h
    have hl : Later s { s with store := { s.store with blocked := user :: s.store.blocked } } :=
      ⟨le_refl _, fun _ h hmem => h (List.mem_cons_of_mem _ hmem), rfl⟩
    refine ⟨hl, hs.later hl (.of_eq rfl) rfl (fun _ h => h) rfl fun _ _ h => .inl h,
      fun _ _ _ h => .inl h, fun k g hg => ?_⟩
    cases hg
    trivial
  | delete user =>
    cases h
    have hl : Later s { s with deleted := user :: s.deleted } := ⟨le_refl _, fun _ h => h, rfl⟩
    refine ⟨hl, hs.later hl (.of_eq rfl) rfl (fun _ h => h) rfl fun _ _ h => .inl h,
      fun _ _ _ h => .inl h, fun k g hg => ?_⟩
    cases hg
    trivial

/-! ## Ending sessions and unblocking -/

/-- Whose code a request makes or trades. -/
def Flight.trades (s : Shared) : Flight → Option Uuid
  | .issuing user .. => some user
  | .exchange code .. => (s.codes.lookup code).map (·.userId)
  | .deleted _ row .. | .allowed _ row .. => some row.userId
  | _ => none

/-- No code of the user holds, and none is being made or traded. -/
def NoCodes (w : World Shared Flight) (user : Uuid) : Prop :=
  (∀ e ∈ w.shared.codes.entries, e.2.userId = user → e.2.expiresAt ≤ w.shared.store.clock) ∧
    ∀ e ∈ w.flights.entries, e.2.trades w.shared ≠ some user

def Flight.Clear (w : World Shared Flight) (k : Nat) : Flight → Prop
  | .endSessions user =>
    k ∈ w.shared.cancelled ∨ user ∈ w.shared.store.blocked ∨ NoCodes w user
  | _ => True

/-- The sessions of a user who is not blocked are ended, and a user is unblocked, only without codes;
then there is no session of the extension either. -/
def Settled (w : World Shared Flight) : Interleave.Event Flight Outside → Prop
  | .next k => ∀ f ∈ w.flights.lookup k, f.Clear w k
  | .outside (.unblock user) => user ∉ w.shared.store.blocked ∨ NoCodes w user ∧
      ∀ e ∈ w.shared.store.sessions.entries, e.2.userId = user → e.2.client = .web
  | _ => True

instance (w : World Shared Flight) (user : Uuid) : Decidable (NoCodes w user) :=
  inferInstanceAs (Decidable (_ ∧ _))

instance (w : World Shared Flight) (k : Nat) (f : Flight) : Decidable (f.Clear w k) :=
  match f with
  | .endSessions user => inferInstanceAs (Decidable (k ∈ w.shared.cancelled ∨
      user ∈ w.shared.store.blocked ∨ NoCodes w user))
  | .signIn .. | .signing .. | .createCode .. | .issuing .. | .token .. | .exchange ..
  | .deleted .. | .allowed .. | .block _ | .delete _ => .isTrue trivial

instance (w : World Shared Flight) (ev : Interleave.Event Flight Outside) : Decidable (Settled w ev) :=
  match ev with
  | .next k => inferInstanceAs (Decidable (∀ f ∈ w.flights.lookup k, f.Clear w k))
  | .outside (.unblock user) => inferInstanceAs (Decidable (user ∉ w.shared.store.blocked ∨
      NoCodes w user ∧
        ∀ e ∈ w.shared.store.sessions.entries, e.2.userId = user → e.2.client = .web))
  | .start .. | .outside (.tick _) | .outside (.cancel _) | .outside (.touch _)
  | .outside (.confirm ..) | .outside (.endSession _) | .outside .purge => .isTrue trivial

/-- What is said about other users stays. -/
theorem Ready.of_others (hg : Ready k s g) (hclock : s'.store.clock = s.store.clock)
    (hcodes : s'.codes = s.codes)
    (hsince : ∀ user' origin, g.trades s = some user' → user' ∉ s'.store.blocked →
      (user' ∉ s.store.blocked → s.Since user' origin) → s'.Since user' origin)
    (hsafe : ∀ (row : CodeRow) now, g.trades s = some row.userId → row.Safe s now →
      row.Safe s' now) :
    Ready k s' g := by
  cases g with
  | issuing user' origin challenge code =>
    intro hblocked
    exact hsince user' origin rfl hblocked hg
  | exchange code verifier hash now =>
    refine ⟨by rw [hclock]; exact hg.1, fun row hrow => ?_⟩
    rw [hcodes] at hrow
    exact hsafe row now (by simp [Flight.trades, hrow]) (hg.2 row hrow)
  | deleted code row verifier hash now => exact hsafe row now rfl hg
  | allowed code row hash now =>
    intro hblocked
    exact hsince row.userId row.origin rfl hblocked hg
  | _ => trivial

theorem Shared.Since.ended {user' : Uuid} (h : s.Since user' origin)
    (hended : s'.ended = s.ended ++ [(user, s.signIns)]) (hne : user' ≠ user) :
    s'.Since user' origin := by
  intro n hn
  rw [hended, List.mem_append, List.mem_singleton, Prod.mk.injEq] at hn
  rcases hn with hn | ⟨heq, -⟩
  · exact h n hn
  · exact absurd heq hne

/-- The end of a user's sessions. -/
theorem endSessions_ok {w : World Shared Flight} (hw : Holds Sound Ready w)
    (hC : user ∈ w.shared.store.blocked ∨ NoCodes w user)
    (h : (Flight.endSessions user).statement config k w.shared = some (s', o)) :
    Sound s' ∧ o = none ∧ ∀ k' g, w.flights.lookup k' = some g → Ready k' s' g := by
  cases h
  have hs := hw.shared
  have hsafe : ∀ (row : CodeRow) now, row.Safe w.shared now →
      (row.userId = user → user ∉ w.shared.store.blocked → row.expiresAt ≤ now) →
      row.Safe { w.shared with
        store := w.shared.store.endSessions user
        ended := w.shared.ended ++ [(user, w.shared.signIns)]
        locks := w.shared.locks.release k } now := by
    intro row now hsafe hown hblocked
    by_cases heq : row.userId = user
    · exact .inr (hown heq (by rw [← heq]; exact hblocked))
    · exact (hsafe hblocked).imp (fun hsince => hsince.ended rfl heq) id
  refine ⟨⟨fun h row hrow hcase => ?_, fun code row hrow => ?_, fun user' n hmem => ?_,
    fun h row hrow => ?_⟩, rfl, fun k' g hg => ?_⟩
  · obtain ⟨hrow, hother⟩ := of_lookup_endSessions hrow
    exact (hs.sessions h row hrow hcase).ended rfl hother
  · refine hsafe row _ (hs.codes code row hrow) fun heq hblocked => ?_
    exact (hC.resolve_left hblocked).1 ⟨code, row⟩ (HashMap.lookup_eq_some.1 hrow) heq
  · simp only [List.mem_append, List.mem_singleton, Prod.mk.injEq] at hmem
    rcases hmem with hmem | ⟨-, rfl⟩
    · exact hs.ended user' n hmem
    · exact le_refl _
  · exact hs.issued h row (of_lookup_endSessions hrow).1
  · have hnone : g.trades w.shared = some user → user ∈ w.shared.store.blocked := by
      intro htrades
      rcases hC with hblocked | hclear
      · exact hblocked
      · exact absurd htrades (hclear.2 ⟨k', g⟩ (HashMap.lookup_eq_some.1 hg))
    refine (hw.flights k' g hg).of_others rfl rfl ?_ ?_
    · intro user' origin htrades hblocked hsince
      refine (hsince hblocked).ended rfl ?_
      rintro rfl
      exact hblocked (hnone htrades)
    · intro row now htrades hrow
      refine hsafe row now hrow fun heq hblocked => ?_
      rw [heq] at htrades
      exact absurd (hnone htrades) hblocked

theorem unblock_ok {w : World Shared Flight} (hw : Holds Sound Ready w)
    (hC : user ∉ w.shared.store.blocked ∨ NoCodes w user ∧
      ∀ e ∈ w.shared.store.sessions.entries, e.2.userId = user → e.2.client = .web)
    (h : w.shared.outside config (.unblock user) = some s') :
    Sound s' ∧ ∀ k g, w.flights.lookup k = some g → Ready k s' g := by
  cases h
  have hs := hw.shared
  have hblocked : ∀ user', user' ≠ user → user' ∉ w.shared.store.blocked.filter (· ≠ user) →
      user' ∉ w.shared.store.blocked := by
    intro user' hne hnot hmem
    exact hnot (List.mem_filter.2 ⟨hmem, decide_eq_true hne⟩)
  have hsafe : ∀ (row : CodeRow) now, row.Safe w.shared now →
      (row.userId = user → user ∈ w.shared.store.blocked → row.expiresAt ≤ now) →
      row.Safe { w.shared with
        store := { w.shared.store with blocked := w.shared.store.blocked.filter (· ≠ user) } }
          now := by
    intro row now hsafe hown hnot
    by_cases heq : row.userId = user
    · by_cases hin : user ∈ w.shared.store.blocked
      · exact .inr (hown heq hin)
      · exact hsafe (by rw [heq]; exact hin)
    · exact hsafe (hblocked _ heq hnot)
  refine ⟨⟨fun h row hrow hcase => ?_, fun code row hrow => ?_, hs.ended, hs.issued⟩,
    fun k g hg => ?_⟩
  · refine hs.sessions h row hrow ?_
    rcases hcase with hweb | hnot
    · exact .inl hweb
    · by_cases heq : row.userId = user
      · rcases hC with hfree | hclear
        · exact .inr (by rw [heq]; exact hfree)
        · exact .inl (hclear.2 ⟨h, row⟩ (HashMap.lookup_eq_some.1 hrow) heq)
      · exact .inr (hblocked _ heq hnot)
  · refine hsafe row _ (hs.codes code row hrow) fun heq hin => ?_
    have hclear := hC.resolve_left fun hfree => hfree hin
    exact hclear.1.1 ⟨code, row⟩ (HashMap.lookup_eq_some.1 hrow) heq
  · have hnone : g.trades w.shared = some user → user ∉ w.shared.store.blocked := by
      intro htrades
      rcases hC with hfree | hclear
      · exact hfree
      · exact absurd htrades (hclear.1.2 ⟨k, g⟩ (HashMap.lookup_eq_some.1 hg))
    refine (hw.flights k g hg).of_others rfl rfl ?_ ?_
    · intro user' origin htrades hnot hsince
      by_cases heq : user' = user
      · subst heq
        exact hsince (hnone htrades)
      · exact hsince (hblocked _ heq hnot)
    · intro row now htrades hrow
      refine hsafe row now hrow fun heq hin => ?_
      rw [heq] at htrades
      exact absurd hin (hnone htrades)

theorem outside_quiet (hs : Sound s) (hother : ∀ user, e ≠ .unblock user)
    (h : s.outside config e = some s') : Quiet s s' none := by
  have hstore : ∀ store, s.store.clock ≤ store.clock → store.blocked = s.store.blocked →
      store.issued = s.store.issued → RowsFrom s.store store → Quiet s { s with store } none := by
    intro store hclock hblocked hissued hrows
    have hl : Later s { s with store } := by
      refine ⟨hclock, fun user hnot => ?_, rfl⟩
      rw [← hblocked]
      exact hnot
    refine ⟨hl, hs.later hl hrows rfl (fun h hmem => ?_) rfl fun _ _ h => .inl h,
      fun _ _ _ h => .inl h, fun _ => ready_of_none⟩
    simp only [hissued]
    exact hmem
  cases e with
  | tick clock =>
    simp only [Shared.outside] at h
    split at h
    · cases h
      exact hstore _ ‹_› rfl rfl (.of_eq rfl)
    · cases h
  | cancel k =>
    cases h
    have hl : Later s { s with cancelled := k :: s.cancelled } := ⟨le_refl _, fun _ h => h, rfl⟩
    exact ⟨hl, hs.later hl (.of_eq rfl) rfl (fun _ h => h) rfl fun _ _ h => .inl h,
      fun _ _ _ h => .inl h, fun _ => ready_of_none⟩
  | unblock user => exact absurd rfl (hother user)
  | touch hash =>
    cases h
    exact hstore _ (le_refl _) rfl rfl (rowsFrom_touch _ _ _)
  | confirm hash began right =>
    cases h
    refine hstore _ ?_ ?_ ?_ (rowsFrom_confirm _ _ _ _)
    · rw [Sessions.Shared.confirm_clock]
    · unfold Sessions.Shared.confirm
      split <;> rfl
    · rw [Sessions.Shared.confirm_issued]
  | endSession hash =>
    cases h
    exact hstore _ (le_refl _) rfl rfl (rowsFrom_erase _ _)
  | purge =>
    cases h
    have hq := hstore (s.store.purge config.idle) (le_refl _) rfl rfl (rowsFrom_purge _ _)
    have hcodes : ∀ code row, (s.purge config).codes.lookup code = some row →
        s.codes.lookup code = some row := by
      intro code row hrow
      have hlookup := HashMap.lookup_collect_where s.codes
        (fun code row => row.expiresAt ≤ s.store.clock ∧ s.locks code = none) code
      exact Option.eq_some_of_filter_eq_some (hlookup.symm.trans hrow)
    refine ⟨⟨hq.later.clock, hq.later.blocked, hq.later.ended⟩, ⟨hq.sound.sessions,
      fun code row hrow => hq.sound.codes code row (hcodes code row hrow), hq.sound.ended,
      hq.sound.issued⟩, fun code row now hrow => .inl (hcodes code row hrow), fun _ => ready_of_none⟩

/-! ## Runs -/

theorem sound_step {w w' : World Shared Flight} {ev : Interleave.Event Flight Outside}
    (hw : Holds Sound Ready w) (hC : Settled w ev) (hs : step (system config) w ev = some w') :
    Holds Sound Ready w' := by
  have hquiet : ∀ {s : Shared} {o : Option Flight}, Quiet w.shared s o →
      ∀ k g, w.flights.lookup k = some g → Ready k s g := by
    intro s o hq k g hg
    exact (hw.flights k g hg).later hq.later hq.codes
  refine hw.step hs ?_ ?_ ?_
  · intro k f hf
    cases f with
    | signIn | createCode | token | endSessions | block | delete => trivial
    | _ => cases hf
  · intro k f s o he hf hn
    subst he
    simp only [system, Flight.next] at hn
    split at hn
    · have hq := Quiet.close hw.shared hn
      exact ⟨hq.sound, hq.ready k, fun k' g _ hg => hquiet hq k' g hg⟩
    · rename_i hgoes
      by_cases hend : ∃ user, f = .endSessions user
      · obtain ⟨user, rfl⟩ := hend
        obtain ⟨hsound, rfl, hothers⟩ := endSessions_ok hw ((hC _ hf).resolve_left hgoes) hn
        exact ⟨hsound, nofun, fun k' g _ hg => hothers k' g hg⟩
      · have hq := statement_quiet hw.shared (hw.flights k f hf)
          (fun user heq => hend ⟨user, heq⟩) hn
        exact ⟨hq.sound, hq.ready k, fun k' g _ hg => hquiet hq k' g hg⟩
  · intro e s he ho
    subst he
    by_cases hunblock : ∃ user, e = .unblock user
    · obtain ⟨user, rfl⟩ := hunblock
      have ho' : w.shared.outside config (.unblock user) = some s := ho
      exact unblock_ok hw hC ho'
    · have hq := outside_quiet hw.shared (fun user heq => hunblock ⟨user, heq⟩) ho
      exact ⟨hq.sound, hquiet hq⟩

/-! ## Each code once -/

/-- The codes that were traded are gone, and each was traded once, before it ran out. -/
structure Traded (s : Shared) : Prop where
  once : (s.traded.map (·.code)).Nodup
  inTime : ∀ t ∈ s.traded, t.now < t.expiresAt
  gone : ∀ t ∈ s.traded, t.code ∈ s.issued ∧ t.code ∉ s.codes
  issued : ∀ code ∈ s.codes, code ∈ s.issued

/-- The request has locked the code that it deletes. -/
def Held (k : Nat) (s : Shared) : Flight → Prop
  | .deleted code row .. => s.locks code = some k ∧ s.codes.lookup code = some row
  | .allowed code row _ now =>
    s.locks code = some k ∧ s.codes.lookup code = some row ∧ now < row.expiresAt
  | _ => True

/-- What others have locked stays as it is. -/
structure Others (k : Nat) (s s' : Shared) : Prop where
  locks : ∀ k' code, k' ≠ k → s.locks code = some k' → s'.locks code = some k'
  codes : ∀ k' code row, k' ≠ k → s.locks code = some k' → s.codes.lookup code = some row →
    s'.codes.lookup code = some row

theorem Others.held (h : Others k s s') (hne : k' ≠ k) (hg : Held k' s g) : Held k' s' g := by
  cases g with
  | deleted code row verifier hash now =>
    exact ⟨h.locks k' code hne hg.1, h.codes k' code row hne hg.1 hg.2⟩
  | allowed code row hash now =>
    exact ⟨h.locks k' code hne hg.1, h.codes k' code row hne hg.1 hg.2.1, hg.2.2⟩
  | _ => trivial

theorem Others.close (h : Others k s s') :
    Others k s { s' with locks := s'.locks.release k } where
  locks k' code hne hlock := Locks.release_others hne (h.locks k' code hne hlock)
  codes := h.codes

theorem Others.of_eq (hlocks : s'.locks = s.locks) (hcodes : s'.codes = s.codes) :
    Others k s s' where
  locks _ _ _ h := by rw [hlocks]; exact h
  codes _ _ _ _ _ h := by rw [hcodes]; exact h

theorem Traded.of_eq (hs : Traded s) (htraded : s'.traded = s.traded) (hcodes : s'.codes = s.codes)
    (hissued : s'.issued = s.issued) : Traded s' := by
  refine ⟨?_, ?_, ?_, ?_⟩
  · rw [htraded]
    exact hs.once
  · rw [htraded]
    exact hs.inTime
  · rw [htraded, hissued, hcodes]
    exact hs.gone
  · rw [hcodes, hissued]
    exact hs.issued

/-- A code that is deleted. -/
theorem Traded.erase (hs : Traded s) (code : Bytes) :
    Traded { s with codes := s.codes.erase code } :=
  ⟨hs.once, hs.inTime, fun t ht => ⟨(hs.gone t ht).1, fun hmem => (hs.gone t ht).2
    (AList.mem_erase.1 hmem).2⟩, fun code' hmem => hs.issued code' (AList.mem_erase.1 hmem).2⟩

theorem others_erase (hlock : s.locks code = some k) :
    Others k s { s with codes := s.codes.erase code } := by
  refine ⟨fun _ _ _ h => h, fun k' code' row hne hlock' hrow => ?_⟩
  simp only
  rw [AList.lookup_erase_ne]
  · exact hrow
  · rintro rfl
    exact hne (Locks.free_of_held hlock k' hlock')

theorem create_codes {client : Client} (h : s.create config hash user client origin = some s') :
    s'.traded = s.traded ∧ s'.codes = s.codes ∧ s'.issued = s.issued ∧ s'.locks = s.locks := by
  obtain ⟨-, rfl⟩ := create_eq_some h
  exact ⟨rfl, rfl, rfl, rfl⟩

/-- What a statement does to the codes. -/
structure Exchanged (k : Nat) (s s' : Shared) (o : Option Flight) : Prop where
  traded : Traded s'
  others : Others k s s'
  held : ∀ g, o = some g → Held k s' g

theorem Exchanged.same {t : Shared} (hs : Traded s) (h : t.close k = some (s', o))
    (ht : t.traded = s.traded ∧ t.codes = s.codes ∧ t.issued = s.issued ∧ t.locks = s.locks) :
    Exchanged k s s' o := by
  cases h
  exact ⟨hs.of_eq ht.1 ht.2.1 ht.2.2.1, (Others.of_eq ht.2.2.2 ht.2.1).close, ready_of_none⟩

theorem Exchanged.goOn {t : Shared} (hs : Traded s) (h : t.goOn f = some (s', o))
    (ht : t.traded = s.traded ∧ t.codes = s.codes ∧ t.issued = s.issued ∧ t.locks = s.locks)
    (hf : Held k t f) : Exchanged k s s' o := by
  cases h
  refine ⟨hs.of_eq ht.1 ht.2.1 ht.2.2.1, .of_eq ht.2.2.2 ht.2.1, fun g hg => ?_⟩
  cases hg
  exact hf

theorem exchanged_allowed {now : Int} (hs : Traded s) (hf : Held k s (.allowed code row hash now))
    (h : (Flight.allowed code row hash now).statement config k s = some (s', o)) :
    Exchanged k s s' o := by
  obtain ⟨hlock, hrow, htime⟩ := hf
  simp only [Flight.statement, Shared.finish] at h
  cases hcreate : s.create config hash row.userId .extension row.origin with
  | none =>
    rw [hcreate] at h
    exact .same hs h ⟨rfl, rfl, rfl, rfl⟩
  | some t =>
    rw [hcreate] at h
    obtain ⟨htraded, hcodes, hissued, hlocks⟩ := create_codes hcreate
    simp only [Option.map_some, Option.getD_some] at h
    cases h
    have ht : Traded { t with codes := t.codes.erase code } :=
      (hs.of_eq htraded hcodes hissued).erase code
    have hin : code ∈ s.codes := AList.lookup_isSome.1 (by rw [hrow]; rfl)
    have hnew : code ∉ s.traded.map (·.code) := by
      intro hmem
      obtain ⟨trade, htrade, rfl⟩ := List.mem_map.1 hmem
      exact (hs.gone trade htrade).2 hin
    refine ⟨⟨?_, fun t' ht' => ?_, fun t' ht' => ?_, ht.issued⟩, ?_, ready_of_none⟩
    · simp only [List.map_append, List.map_cons, List.map_nil, htraded]
      refine List.nodup_append.2 ⟨hs.once, List.nodup_singleton _, fun a ha b hb heq => ?_⟩
      rw [List.mem_singleton.1 hb] at heq
      subst heq
      exact hnew ha
    · rcases List.mem_append.1 ht' with ht' | ht'
      · exact ht.inTime t' ht'
      · rw [List.mem_singleton.1 ht']
        exact htime
    · rcases List.mem_append.1 ht' with ht' | ht'
      · exact ht.gone t' ht'
      · rw [List.mem_singleton.1 ht']
        simp only [hissued]
        exact ⟨hs.issued code hin, fun hmem => (AList.mem_erase.1 hmem).1 rfl⟩
    · have hother := (others_erase (s := s) hlock).close
      refine ⟨fun k' code' hne hlock' => ?_, fun k' code' row' hne hlock' hrow' => ?_⟩
      · simp only [hlocks]
        exact hother.locks k' code' hne hlock'
      · simp only [hcodes]
        exact hother.codes k' code' row' hne hlock' hrow'

theorem exchanged_issuing {challenge : String} (hs : Traded s)
    (h : (Flight.issuing user origin challenge code).statement config k s = some (s', o)) :
    Exchanged k s s' o := by
  simp only [Flight.statement] at h
  split at h
  · exact .same hs h ⟨rfl, rfl, rfl, rfl⟩
  · rename_i hnew
    cases h
    refine ⟨⟨hs.once, hs.inTime, fun t ht => ⟨List.mem_cons_of_mem _ (hs.gone t ht).1, ?_⟩,
      fun code' hmem => ?_⟩, Others.close ⟨fun _ _ _ h => h, ?_⟩, ready_of_none⟩
    · rw [AList.mem_insert]
      rintro (heq | hmem)
      · rw [← heq] at hnew
        exact hnew (hs.gone t ht).1
      · exact (hs.gone t ht).2 hmem
    · rcases (AList.mem_insert _).1 hmem with rfl | hmem
      · exact List.mem_cons_self
      · exact List.mem_cons_of_mem _ (hs.issued code' hmem)
    · intro k' code' row' _ _ hrow'
      rw [HashMap.lookup_insert_eq, if_neg]
      · exact hrow'
      · rintro rfl
        exact hnew (hs.issued code' (AList.lookup_isSome.1 (by rw [hrow']; rfl)))

theorem statement_exchanged (hs : Traded s) (hf : Held k s f)
    (h : f.statement config k s = some (s', o)) : Exchanged k s s' o := by
  have hsame : s.traded = s.traded ∧ s.codes = s.codes ∧ s.issued = s.issued ∧ s.locks = s.locks :=
    ⟨rfl, rfl, rfl, rfl⟩
  cases f with
  | signIn user hash =>
    simp only [Flight.statement] at h
    split at h
    · exact .same hs h hsame
    · exact .goOn hs h hsame trivial
  | signing user hash =>
    simp only [Flight.statement, Shared.finish] at h
    cases hcreate : s.create config hash user .web s.signIns with
    | none =>
      rw [hcreate] at h
      exact .same hs h hsame
    | some t =>
      rw [hcreate] at h
      obtain ⟨htraded, hcodes, hissued, hlocks⟩ := create_codes hcreate
      exact .same hs h ⟨htraded, hcodes, hissued, hlocks⟩
  | createCode hash input code =>
    simp only [Flight.statement] at h
    split at h
    · exact .same hs h hsame
    · split at h
      · exact .same hs h hsame
      · exact .goOn hs h hsame trivial
  | issuing => exact exchanged_issuing hs h
  | token code verifier hash =>
    simp only [Flight.statement] at h
    split at h
    · exact .goOn hs h hsame trivial
    · exact .same hs h hsame
  | exchange code verifier hash now =>
    simp only [Flight.statement] at h
    split at h
    · exact .same hs h hsame
    · rename_i row hrow
      obtain ⟨locks, hlocks, h⟩ := Option.bind_eq_some_iff.1 h
      cases h
      refine ⟨hs.of_eq rfl rfl rfl, ⟨fun k' code' _ hlock => ?_, fun _ _ _ _ _ h => h⟩,
        fun g hg => ?_⟩
      · exact Locks.acquire_keeps hlocks hlock
      · cases hg
        exact ⟨Locks.acquire_held hlocks, hrow⟩
  | deleted code row verifier hash now =>
    simp only [Flight.statement] at h
    split at h
    · rename_i hcond
      exact .goOn hs h hsame ⟨hf.1, hf.2, hcond.1⟩
    · cases h
      exact ⟨(hs.erase code).of_eq rfl rfl rfl, (others_erase hf.1).close, ready_of_none⟩
  | allowed => exact exchanged_allowed hs hf h
  | endSessions user => exact .same hs h ⟨rfl, rfl, rfl, rfl⟩
  | block user => exact .goOn hs h ⟨rfl, rfl, rfl, rfl⟩ trivial
  | delete user => exact .goOn hs h ⟨rfl, rfl, rfl, rfl⟩ trivial

theorem outside_exchanged (hs : Traded s) (h : s.outside config e = some s') :
    Traded s' ∧ ∀ k g, Held k s g → Held k s' g := by
  cases e with
  | tick clock =>
    simp only [Shared.outside] at h
    split at h
    · cases h
      exact ⟨hs.of_eq rfl rfl rfl, fun _ _ hg => hg⟩
    · cases h
  | purge =>
    cases h
    have hlookup := fun code => HashMap.lookup_collect_where s.codes
      (fun code row => row.expiresAt ≤ s.store.clock ∧ s.locks code = none) code
    have hmem : ∀ code ∈ (s.purge config).codes, code ∈ s.codes := by
      intro code hmem
      obtain ⟨row, hrow⟩ := Option.isSome_iff_exists.1 (AList.lookup_isSome.2 hmem)
      have hold := Option.eq_some_of_filter_eq_some ((hlookup code).symm.trans hrow)
      exact AList.lookup_isSome.1 (by rw [hold]; rfl)
    -- a code that somebody has locked stays
    have hheld : ∀ {k : Nat} {code : Bytes} {row : CodeRow}, s.locks code = some k →
        s.codes.lookup code = some row → (s.purge config).codes.lookup code = some row := by
      intro k code row hlock hrow
      refine (hlookup code).trans ?_
      rw [hrow]
      simp [hlock]
    refine ⟨⟨hs.once, hs.inTime, fun t ht => ⟨(hs.gone t ht).1, fun hin => (hs.gone t ht).2
      (hmem _ hin)⟩, fun code hin => hs.issued code (hmem code hin)⟩, fun k g hg => ?_⟩
    cases g with
    | deleted code row verifier hash now => exact ⟨hg.1, hheld hg.1 hg.2⟩
    | allowed code row hash now => exact ⟨hg.1, hheld hg.1 hg.2.1, hg.2.2⟩
    | _ => trivial
  | _ =>
    cases h
    exact ⟨hs.of_eq rfl rfl rfl, fun _ _ hg => hg⟩

theorem traded_invariant : Invariant (system config) (fun _ _ => True) Traded Held where
  start k s f _ hf := by
    cases f with
    | signIn | createCode | token | endSessions | block | delete => trivial
    | _ => cases hf
  next w k f s o hw _ hf hn := by
    have hex : Exchanged k w.shared s o := by
      simp only [system, Flight.next] at hn
      split at hn
      · exact .same hw.shared hn ⟨rfl, rfl, rfl, rfl⟩
      · exact statement_exchanged hw.shared (hw.flights k f hf) hn
    exact ⟨hex.traded, hex.held, fun k' g hne _ hg => hex.others.held hne hg⟩
  outside w e s hw _ ho := outside_exchanged hw.shared ho

/-! ## The result -/

/-- A session that is found comes from a sign-in after every end of its user's sessions. -/
def NothingLeft (config : Config) (s : Shared) : Prop :=
  ∀ user n, (user, n) ∈ s.ended →
    ∀ hash session, s.store.byHash config.idle hash = some session → session.userId = user →
      n ≤ s.originOf hash

/-- Each code was traded once at most, before it ran out. -/
def TradedOnce (s : Shared) : Prop :=
  (s.traded.map (·.code)).Nodup ∧ ∀ t ∈ s.traded, t.now < t.expiresAt

/-- **Ended sessions leave nothing behind**, as long as they are ended and users are unblocked only
without codes; and each code is traded for one session at most, before it runs out, over every
interleaving. -/
theorem ended_sessions_leave_nothing (config : Config) (clock : Int)
    (es : List (Interleave.Event Flight Outside)) (w : World Shared Flight)
    (hr : Run.run (step (system config)) (World.quiet { store := { clock } }) es = some w) :
    (Run.Meets (step (system config)) Settled (World.quiet { store := { clock } }) es →
      NothingLeft config w.shared) ∧ TradedOnce w.shared := by
  constructor
  · intro hm
    have hstart : Holds Sound Ready (World.quiet { store := { clock } } : World Shared Flight) := by
      refine .quiet ⟨?_, ?_, ?_, ?_⟩
      · intro h row hrow
        cases hrow
      · intro code row hrow
        cases hrow
      · intro user n hmem
        cases hmem
      · intro h row hrow
        cases hrow
    have hw : Holds Sound Ready w := Run.inv_of_meets (I := fun _ w => Holds Sound Ready w) hstart
      (fun _ _ _ _ _ hC hs ht => sound_step ht hC hs) hm hr
    intro user n hmem hash session hsession huser
    obtain ⟨row, hrow, hblocked, -, -, rfl⟩ := Sessions.Shared.byHash_eq_some hsession
    have huser' : row.userId = user := huser
    exact hw.shared.sessions hash row hrow (.inr hblocked) n (by rw [huser']; exact hmem)
  · have hstart : Traded { store := { clock } } := by
      refine ⟨List.nodup_nil, ?_, ?_, ?_⟩
      · intro t ht
        cases ht
      · intro t ht
        cases ht
      · intro code hmem
        cases hmem
    have hw := traded_invariant.run hstart (Run.meets_of_forall (fun _ _ => trivial) _ _) hr
    exact ⟨hw.shared.once, hw.shared.inTime⟩

/-- The verifier of RFC 7636, appendix B, and its challenge. -/
def verifier : String := "dBjftJeZ4CVP-mB92K27uhbUJU1p1r_wW1gFWFOEjXk"

def challenge : String := "E9Melhoa2OwvFrEMTJguCHaoeK1t8URWbuGJSstw-cM"

def rfcConfig : Config where
  idle := 30 * minute
  max := 60 * minute
  extensionIds := ["abcdefghijklmnopabcdefghijklmnop"]
  challengeOf value := if value = verifier then challenge else ""

/-- A user signs in and gets a code. -/
def codeIssued : List (Interleave.Event Flight Outside) :=
  [.start 0 (.signIn 1 [1]), .next 0, .next 0,
    .start 1 (.createCode [1] ⟨"abcdefghijklmnopabcdefghijklmnop", challenge, "Edge"⟩ [2]), .next 1,
    .next 1]

/-- The extension trades the code. -/
def codeTraded : List (Interleave.Event Flight Outside) :=
  .start 2 (.token [2] verifier [3]) :: List.replicate 4 (.next 2)

/-- An administrator ends the user's sessions. -/
def sessionsEnded : List (Interleave.Event Flight Outside) := [.start 3 (.endSessions 1), .next 3]

def signedInAgain : List (Interleave.Event Flight Outside) :=
  [.start 4 (.signIn 1 [4]), .next 4, .next 4]

theorem ended_sessions_leave_nothing_after_trade :
    ∃ w, Run.run (step (system rfcConfig)) (World.quiet { store := { clock := 0 } })
        (codeIssued ++ codeTraded ++ sessionsEnded ++ signedInAgain) = some w ∧
      w.shared.traded = [⟨[2], 0, 60 * second⟩] ∧ w.shared.ended = [(1, 1)] ∧
      w.shared.store.sessions.keys = [[4]] ∧
      NothingLeft rfcConfig w.shared ∧ TradedOnce w.shared := by
  have hrun : (Run.run (step (system rfcConfig)) (World.quiet { store := { clock := 0 } })
      (codeIssued ++ codeTraded ++ sessionsEnded ++ signedInAgain)).map
        (fun w => (w.shared.traded, w.shared.ended, w.shared.store.sessions.keys)) =
      some ([⟨[2], 0, 60 * second⟩], [(1, 1)], [[4]]) := by decide
  obtain ⟨w, hr, hw⟩ := Option.map_eq_some_iff.1 hrun
  simp only [Prod.mk.injEq] at hw
  have hmain := ended_sessions_leave_nothing rfcConfig 0 _ w hr
  exact ⟨w, hr, hw.1, hw.2.1, hw.2.2, hmain.1 (by decide), hmain.2⟩

/-- The code is traded after the sessions were ended. -/
theorem code_outlives_sessions :
    ¬∀ (es : List (Interleave.Event Flight Outside)) (w : World Shared Flight),
      Run.run (step (system rfcConfig)) (World.quiet { store := { clock := 0 } }) es = some w →
      NothingLeft rfcConfig w.shared ∧ TradedOnce w.shared := by
  intro hall
  have hrun : (Run.run (step (system rfcConfig)) (World.quiet { store := { clock := 0 } })
      (codeIssued ++ sessionsEnded ++ codeTraded)).map (fun w => (w.shared.ended,
        (w.shared.store.byHash rfcConfig.idle [3]).map (·.userId), w.shared.originOf [3])) =
      some ([(1, 1)], some 1, 0) := by decide
  obtain ⟨w, hr, hw⟩ := Option.map_eq_some_iff.1 hrun
  simp only [Prod.mk.injEq] at hw
  obtain ⟨session, hsession, huser⟩ := Option.map_eq_some_iff.1 hw.2.1
  have hnew := (hall _ w hr).1 1 1 (by rw [hw.1]; exact List.mem_cons_self) [3] session hsession huser
  rw [hw.2.2] at hnew
  exact absurd hnew (by decide)

end Server.Extension
