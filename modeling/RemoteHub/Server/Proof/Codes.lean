import RemoteHub.Server.Codes

/-!
# Each code is accepted once

`Shared.last` is the step that the row of a user keeps. Who accepts a code has locked the row, and the
step is beyond the one in it (`Ready`); nobody else writes the row meanwhile. So all steps accepted
since the factor was set up are up to the one in the row (`Bounded`), and they increase in the order
in which they are accepted (`codes_increase`).
-/

namespace Server.Codes

open Model Interleave

/-- The last step of the user's codes that was used, as it is stored. -/
def Shared.last (s : Shared) : Path → Uuid → Option Int
  | .directory, user => (s.factors.lookup user).map (·.lastTotpStep)
  | .breakGlass, user => (s.accounts.lookup user).map (·.lastTotpStep)
  | .account, user => s.codes.lookup user

variable {c : Crypto} {s s' t : Shared} {k : Nat} {f : Flight} {o : Option Flight} {p : Path}
  {u : Uuid} {step : Nat}

theorem lt_of_toI64 {n m : Nat} (h : toI64 n < toI64 m) : n < m := by
  unfold toI64 at h
  split at h <;> split at h <;> omega

theorem toI64_le {n m : Nat} (h : n ≤ m) : toI64 n ≤ toI64 m := by
  unfold toI64
  split <;> split <;> omega

/-- What a request in flight relies on. -/
def Ready (k : Nat) (s : Shared) : Flight → Prop
  | .used user step _ => s.locks (.factor .directory user) = some k ∧
      ∃ last, s.last .directory user = some last ∧ last < toI64 step
  | .enrolled user .. | .resetting user => s.locks (.factor .directory user) = some k
  | .renewed user .. | .sealed user .. | .deleting user =>
    s.locks (.factor .breakGlass user) = some k
  | .taken user step => s.locks (.factor .account user) = some k ∧
      ∀ last, s.last .account user = some last → last < toI64 step
  | _ => True

/-- A request keeps what it relies on while others leave alone what it has locked. -/
theorem Ready.later (h : Ready k s f)
    (hlocks : ∀ key, s.locks key = some k → s'.locks key = some k)
    (hrows : ∀ p u, s.locks (.factor p u) = some k → s'.last p u = s.last p u) :
    Ready k s' f := by
  cases f with
  | used user step removes =>
    obtain ⟨hlock, hlast⟩ := h
    refine ⟨hlocks _ hlock, ?_⟩
    rw [hrows _ _ hlock]
    exact hlast
  | taken user step =>
    obtain ⟨hlock, hlast⟩ := h
    refine ⟨hlocks _ hlock, ?_⟩
    rw [hrows _ _ hlock]
    exact hlast
  | enrolled user secret step version => exact hlocks _ h
  | resetting user => exact hlocks _ h
  | renewed user hash secret version => exact hlocks _ h
  | sealed user hash secret version => exact hlocks _ h
  | deleting user => exact hlocks _ h
  | _ => trivial

/-! ## What a statement does -/

/-- The rows and the log after a statement. -/
inductive Recorded (s s' : Shared) : Prop
  | nothing (hlog : s'.log = s.log)
      (hlast : ∀ p u, s'.last p u = s.last p u ∨ p ≠ .account ∧ s'.last p u = none)
  | accepted (p : Path) (u : Uuid) (step : Nat)
      (hstep : ∀ last, s.last p u = some last → last < toI64 step)
      (hrow : s.last p u = none → p = .account)
      (hlog : s'.log = s.log ++ [.accepted (p, u) step])
      (hlast : s'.last p u = some (toI64 step) ∨ p ≠ .account ∧ s'.last p u = none)
      (hothers : ∀ p' u', (p', u') ≠ (p, u) → s'.last p' u' = s.last p' u')
  | opened (p : Path) (u : Uuid) (hlog : s'.log = s.log ++ [.opened (p, u)])
      (hothers : ∀ p' u', (p', u') ≠ (p, u) → s'.last p' u' = s.last p' u')
  | enrolled (p : Path) (u : Uuid) (step : Nat)
      (hlog : s'.log = s.log ++ [.opened (p, u)] ++ [.accepted (p, u) step])
      (hlast : s'.last p u = some (toI64 step))
      (hothers : ∀ p' u', (p', u') ≠ (p, u) → s'.last p' u' = s.last p' u')

structure Outcome (k : Nat) (s s' : Shared) (o : Option Flight) : Prop where
  locks : ∀ k' key, k' ≠ k → s.locks key = some k' → s'.locks key = some k'
  rows : ∀ k' p u, k' ≠ k → s.locks (.factor p u) = some k' → s'.last p u = s.last p u
  recorded : Recorded s s'
  ready : ∀ g, o = some g → Ready k s' g

/-- A statement that only reads. -/
theorem Outcome.reads {g : Flight} (h : s.goOn g = some (s', o)) (hg : Ready k s g) :
    Outcome k s s' o := by
  cases h
  refine ⟨fun _ _ _ h => h, fun _ _ _ _ _ => rfl, .nothing rfl fun _ _ => .inl rfl,
    fun g hg' => ?_⟩
  cases hg'
  exact hg

theorem Outcome.locked {key : Lock} {g : Flight} (h : s.lock k key g = some (s', o))
    (hg : ∀ t, t.last = s.last → t.locks key = some k →
      (∀ key, s.locks key = some k → t.locks key = some k) → Ready k t g) : Outcome k s s' o := by
  obtain ⟨locks, hlocks, h⟩ := Option.bind_eq_some_iff.1 h
  cases h
  refine ⟨fun k' key' _ hk' => Locks.acquire_keeps hlocks hk', fun _ _ _ _ _ => rfl,
    .nothing rfl fun _ _ => .inl rfl, fun g' hg' => ?_⟩
  cases hg'
  exact hg _ rfl (Locks.acquire_held hlocks) fun key' hkey' => Locks.acquire_keeps hlocks hkey'

/-- A commit that writes the row of one user, which nobody else has locked. -/
theorem Outcome.commits (h : t.close k = some (s', o)) (p : Path) (u : Uuid)
    (hfree : s.locks.Free k (.factor p u)) (hlocks : t.locks = s.locks)
    (hothers : ∀ p' u', (p', u') ≠ (p, u) → t.last p' u' = s.last p' u')
    (hrecorded : ∀ t', t'.log = t.log → t'.last = t.last → Recorded s t') : Outcome k s s' o := by
  cases h
  refine ⟨fun k' key hne hk' => Locks.release_others hne (by rw [hlocks]; exact hk'), ?_,
    hrecorded _ rfl rfl, ready_of_none⟩
  intro k' p' u' hne hk'
  refine hothers p' u' fun heq => hne ?_
  cases heq
  exact hfree k' hk'

/-- A code is accepted. -/
theorem Outcome.accepts (h : t.close k = some (s', o)) (p : Path) (u : Uuid) (step : Nat)
    (hfree : s.locks.Free k (.factor p u)) (hlocks : t.locks = s.locks)
    (hlog : t.log = s.log ++ [.accepted (p, u) step])
    (hothers : ∀ p' u', (p', u') ≠ (p, u) → t.last p' u' = s.last p' u')
    (hstep : ∀ last, s.last p u = some last → last < toI64 step)
    (hrow : s.last p u = none → p = .account)
    (hlast : t.last p u = some (toI64 step) ∨ p ≠ .account ∧ t.last p u = none) :
    Outcome k s s' o := by
  refine .commits h p u hfree hlocks hothers fun t' hlog' hlast' => ?_
  refine .accepted p u step hstep hrow (by rw [hlog', hlog]) (by rwa [hlast']) ?_
  intro p' u' hne
  rw [hlast', hothers p' u' hne]

/-- A factor is set up, and the row of the user starts anew. -/
theorem Outcome.starts (h : t.close k = some (s', o)) (p : Path) (u : Uuid)
    (hfree : s.locks.Free k (.factor p u)) (hlocks : t.locks = s.locks)
    (hlog : t.log = s.log ++ [.opened (p, u)])
    (hothers : ∀ p' u', (p', u') ≠ (p, u) → t.last p' u' = s.last p' u') : Outcome k s s' o := by
  refine .commits h p u hfree hlocks hothers fun t' hlog' hlast' => ?_
  refine .opened p u (by rw [hlog', hlog]) fun p' u' hne => ?_
  rw [hlast', hothers p' u' hne]

/-- A factor is removed. -/
theorem Outcome.drops (h : t.close k = some (s', o)) (p : Path) (u : Uuid)
    (hfree : s.locks.Free k (.factor p u)) (hlocks : t.locks = s.locks) (hlog : t.log = s.log)
    (hp : p ≠ .account) (hrow : t.last p u = none)
    (hothers : ∀ p' u', (p', u') ≠ (p, u) → t.last p' u' = s.last p' u') : Outcome k s s' o := by
  refine .commits h p u hfree hlocks hothers fun t' hlog' hlast' => ?_
  refine .nothing (by rw [hlog', hlog]) fun p' u' => ?_
  rw [hlast']
  by_cases heq : (p', u') = (p, u)
  · cases heq
    exact .inr ⟨hp, hrow⟩
  · exact .inl (hothers p' u' heq)

/-- The end of a request that changes nothing. -/
theorem Outcome.close (h : s.close k = some (s', o)) : Outcome k s s' o := by
  cases h
  exact ⟨fun k' key hne hk' => Locks.release_others hne hk', fun _ _ _ _ _ => rfl,
    .nothing rfl fun _ _ => .inl rfl, ready_of_none⟩

/-- The row of another user, or of another kind of user. -/
theorem last_eq {p' : Path} {u' : Uuid} (hne : (p', u') ≠ (p, u))
    (hfactors : (p = .directory → u' ≠ u) → t.factors.lookup u' = s.factors.lookup u')
    (haccounts : (p = .breakGlass → u' ≠ u) → t.accounts.lookup u' = s.accounts.lookup u')
    (hcodes : (p = .account → u' ≠ u) → t.codes.lookup u' = s.codes.lookup u') :
    t.last p' u' = s.last p' u' := by
  have hother : p = p' → u' ≠ u := fun hp hu => hne (by rw [hp, hu])
  cases p' with
  | directory => exact congrArg (Option.map _) (hfactors hother)
  | breakGlass => exact congrArg (Option.map _) (haccounts hother)
  | account => exact hcodes hother

theorem Outcome.readsWith {α : Type} {found : Option α} {next : α → Flight}
    (h : s.goOnWith k found next = some (s', o)) (hg : ∀ a, Ready k s (next a)) :
    Outcome k s s' o := by
  cases found with
  | none => exact .close h
  | some a => exact .reads h (hg a)

theorem statement_ok (hready : Ready k s f) (h : f.statement c k s = some (s', o)) :
    Outcome k s s' o := by
  cases f with
  | signIn user code newSecret hasKeys now =>
    simp only [Flight.statement] at h
    split at h
    · exact .readsWith h fun _ => trivial
    · split at h
      · exact .reads h trivial
      · exact .close h
  | verify user code now removes =>
    simp only [Flight.statement] at h
    split at h
    · exact .close h
    · exact .locked h fun _ _ _ _ => trivial
  | locked user version code now removes => exact .readsWith h fun _ => trivial
  | checked user step removes =>
    simp only [Flight.statement] at h
    split at h
    · exact .close h
    · rename_i row hrow
      split at h
      · rename_i hlt
        refine .locked h fun t hlast hlock _ => ⟨hlock, row.lastTotpStep, ?_, hlt⟩
        rw [hlast, Shared.last, hrow]
        rfl
      · exact .close h
  | used user step removes =>
    obtain ⟨hlock, last, hlast, hlt⟩ := hready
    refine .accepts h .directory user step (Locks.free_of_held hlock) rfl rfl ?_ ?_ ?_ ?_
    · intro p' u' hne
      refine last_eq hne (fun hu => ?_) (fun _ => rfl) fun _ => rfl
      simp only [Shared.accept]
      split
      · exact AList.lookup_erase_ne (hu rfl)
      · rw [HashMap.lookup_modify, if_neg (hu rfl)]
    · intro last' hlast'
      rw [hlast] at hlast'
      cases hlast'
      exact hlt
    · intro hnone
      rw [hlast] at hnone
      cases hnone
    · cases removes with
      | true => exact .inr ⟨nofun, by simp [Shared.accept, Shared.last]⟩
      | false =>
        left
        obtain ⟨row, hrow, -⟩ := Option.map_eq_some_iff.1 hlast
        simp [Shared.accept, Shared.last, HashMap.lookup_modify, hrow]
  | enroll user secret code now => exact .readsWith h fun _ => trivial
  | fits user secret step => exact .reads h trivial
  | numbered user secret step version =>
    simp only [Flight.statement] at h
    split at h
    · exact .close h
    · exact .locked h fun _ _ _ _ => trivial
  | stored user secret step version => exact .locked h fun _ _ hlock _ => hlock
  | enrolled user secret step version =>
    have hothers : ∀ p' u', (p', u') ≠ (.directory, user) →
        { s with factors := s.factors.insert user ⟨version, toI64 step⟩ }.last p' u' =
          s.last p' u' := by
      intro p' u' hne
      exact last_eq hne (fun hu => AList.lookup_insert_ne (hu rfl)) (fun _ => rfl) fun _ => rfl
    refine .commits h .directory user (Locks.free_of_held hready) rfl hothers ?_
    intro t' hlog hlast
    refine .enrolled .directory user step hlog ?_ fun p' u' hne => ?_
    · rw [hlast]
      simp [Shared.accept, Shared.start, Shared.last]
    · rw [hlast]
      exact hothers p' u' hne
  | reset user =>
    simp only [Flight.statement] at h
    split at h
    · exact .locked h fun _ _ hlock _ => hlock
    · exact .close h
  | resetting user =>
    refine .drops h .directory user (Locks.free_of_held hready) rfl rfl nofun ?_ fun p' u' hne => ?_
    · simp [Shared.last]
    · exact last_eq hne (fun hu => AList.lookup_erase_ne (hu rfl)) (fun _ => rfl) fun _ => rfl
  | authenticate user password code now => exact .readsWith h fun _ => trivial
  | verifyCode user code now => exact .readsWith h fun _ => trivial
  | codeMatches user version code now => exact .readsWith h fun _ => trivial
  | matched user step =>
    simp only [Flight.statement] at h
    split at h
    · exact .close h
    · rename_i row hrow
      split at h
      · rename_i hlt
        obtain ⟨locks, hlocks, h⟩ := Option.bind_eq_some_iff.1 h
        have hlast : s.last .breakGlass user = some row.lastTotpStep := by simp [Shared.last, hrow]
        refine .accepts h .breakGlass user step (Locks.acquire_eq_some hlocks).1 rfl rfl ?_ ?_ ?_ ?_
        · intro p' u' hne
          exact last_eq hne (fun _ => rfl) (fun hu => AList.lookup_insert_ne (hu rfl)) fun _ => rfl
        · intro last hlast'
          rw [hlast] at hlast'
          cases hlast'
          exact hlt
        · intro hnone
          rw [hlast] at hnone
          cases hnone
        · simp [Shared.accept, Shared.last]
      · exact .close h
  | createAccount user hash secret =>
    simp only [Flight.statement] at h
    split at h
    · exact .close h
    · obtain ⟨locks, hlocks, h⟩ := Option.bind_eq_some_iff.1 h
      refine .starts h .breakGlass user (Locks.acquire_eq_some hlocks).1 rfl rfl fun p' u' hne => ?_
      exact last_eq hne (fun _ => rfl) (fun hu => AList.lookup_insert_ne (hu rfl)) fun _ => rfl
  | resetAccount user hash secret =>
    simp only [Flight.statement] at h
    split at h
    · exact .close h
    · exact .locked h fun _ _ hlock _ => hlock
  | renewed user hash secret version =>
    simp only [Flight.statement] at h
    split at h
    · exact .close h
    · exact .locked h fun _ _ _ hkeeps => hkeeps _ hready
  | sealed user hash secret version =>
    refine .starts h .breakGlass user (Locks.free_of_held hready) rfl rfl fun p' u' hne => ?_
    exact last_eq hne (fun _ => rfl) (fun hu => AList.lookup_insert_ne (hu rfl)) fun _ => rfl
  | deleteAccount user =>
    simp only [Flight.statement] at h
    split at h
    · exact .locked h fun _ _ hlock _ => hlock
    · exact .close h
  | deleting user =>
    refine .drops h .breakGlass user (Locks.free_of_held hready) rfl rfl nofun ?_ ?_
    · simp [Shared.last]
    · intro p' u' hne
      exact last_eq hne (fun _ => rfl) (fun hu => AList.lookup_erase_ne (hu rfl)) fun _ => rfl
  | localCode user app code now => exact .readsWith h fun _ => trivial
  | localMatched user step =>
    simp only [Flight.statement] at h
    split at h
    · rename_i hnone
      refine .locked h fun t hlast hlock _ => ⟨hlock, fun last hlast' => ?_⟩
      rw [hlast, Shared.last, hnone] at hlast'
      cases hlast'
    · rename_i last hrow
      split at h
      · rename_i hlt
        refine .locked h fun t hlast hlock _ => ⟨hlock, fun last' hlast' => ?_⟩
        rw [hlast, Shared.last, hrow] at hlast'
        cases hlast'
        exact hlt
      · exact .close h
  | taken user step =>
    obtain ⟨hlock, hlt⟩ := hready
    refine .accepts h .account user step (Locks.free_of_held hlock) rfl rfl ?_ hlt (fun _ => rfl) ?_
    · intro p' u' hne
      exact last_eq hne (fun _ => rfl) (fun _ => rfl) fun hu => AList.lookup_insert_ne (hu rfl)
    · simp [Shared.accept, Shared.last]

theorem next_ok (hready : Ready k s f) (h : f.next c k s = some (s', o)) : Outcome k s s' o := by
  unfold Flight.next at h
  split at h
  · exact .close h
  · exact statement_ok hready h

/-! ## Runs -/

/-- The accepted steps increase, and the row of the user keeps the last one. -/
structure Bounded (s : Shared) : Prop where
  ordered : Acceptance.Ordered (· < ·) s.log
  last : ∀ p u last, s.last p u = some last →
    ∀ step ∈ Acceptance.current (p, u) s.log, toI64 step ≤ last
  unused : ∀ u, s.last .account u = none → Acceptance.current (.account, u) s.log = []

/-- A code is accepted beyond all that were. -/
theorem Bounded.lt (hs : Bounded s) (hstep : ∀ last, s.last p u = some last → last < toI64 step)
    (hrow : s.last p u = none → p = .account) {v : Nat} (hv : v ∈ Acceptance.current (p, u) s.log) :
    v < step := by
  cases hlast : s.last p u with
  | none =>
    have hp := hrow hlast
    subst hp
    rw [hs.unused u hlast] at hv
    cases hv
  | some last =>
    have hle := hs.last p u last hlast v hv
    exact lt_of_toI64 (Int.lt_of_le_of_lt hle (hstep last hlast))

/-- The row of the user says what was accepted, or the factor is gone. -/
theorem Bounded.accepted (hs : Bounded s) (hlog : s'.log = s.log ++ [.accepted (p, u) step])
    (hlt : ∀ v ∈ Acceptance.current (p, u) s.log, v < step)
    (hlast : s'.last p u = some (toI64 step) ∨ p ≠ .account ∧ s'.last p u = none)
    (hothers : ∀ p' u', (p', u') ≠ (p, u) → s'.last p' u' = s.last p' u') : Bounded s' := by
  refine ⟨by rw [hlog]; exact hs.ordered.accept hlt, fun p' u' last h => ?_, fun u' h => ?_⟩
  · rw [hlog, Acceptance.current_accepted]
    by_cases heq : (p, u) = (p', u')
    · rw [if_pos heq]
      cases heq
      rcases hlast with hlast | ⟨-, hlast⟩
      · rw [hlast] at h
        cases h
        intro v hv
        rcases List.mem_append.1 hv with hv | hv
        · exact toI64_le (Nat.le_of_lt (hlt v hv))
        · rw [List.mem_singleton.1 hv]
      · rw [hlast] at h
        cases h
    · rw [if_neg heq]
      rw [hothers p' u' (Ne.symm heq)] at h
      exact hs.last p' u' last h
  · rw [hlog, Acceptance.current_accepted]
    by_cases heq : (p, u) = (.account, u')
    · cases heq
      rcases hlast with hlast | ⟨hp, -⟩
      · rw [hlast] at h
        cases h
      · exact absurd rfl hp
    · rw [if_neg heq]
      rw [hothers .account u' (Ne.symm heq)] at h
      exact hs.unused u' h

theorem Bounded.opened (hs : Bounded s) (hlog : s'.log = s.log ++ [.opened (p, u)])
    (hothers : ∀ p' u', (p', u') ≠ (p, u) → s'.last p' u' = s.last p' u') : Bounded s' := by
  refine ⟨by rw [hlog]; exact hs.ordered.opened _, fun p' u' last h => ?_, fun u' h => ?_⟩
  · rw [hlog, Acceptance.current_opened]
    by_cases heq : (p, u) = (p', u')
    · rw [if_pos heq]
      nofun
    · rw [if_neg heq]
      rw [hothers p' u' (Ne.symm heq)] at h
      exact hs.last p' u' last h
  · rw [hlog, Acceptance.current_opened]
    by_cases heq : (p, u) = (.account, u')
    · rw [if_pos heq]
    · rw [if_neg heq]
      rw [hothers .account u' (Ne.symm heq)] at h
      exact hs.unused u' h

theorem Recorded.bounded (h : Recorded s s') (hs : Bounded s) : Bounded s' := by
  cases h with
  | nothing hlog hlast =>
    refine ⟨by rw [hlog]; exact hs.ordered, fun p u last h => ?_, fun u h => ?_⟩
    · rcases hlast p u with hsame | ⟨-, hnone⟩
      · rw [hlog]
        exact hs.last p u last (by rw [← hsame, h])
      · rw [hnone] at h
        cases h
    · rcases hlast .account u with hsame | ⟨hp, -⟩
      · rw [hlog]
        exact hs.unused u (by rw [← hsame, h])
      · exact absurd rfl hp
  | accepted p u step hstep hrow hlog hlast hothers =>
    exact hs.accepted hlog (fun v => hs.lt hstep hrow) hlast hothers
  | opened p u hlog hothers => exact hs.opened hlog hothers
  | enrolled p u step hlog hlast hothers =>
    -- the row starts anew, then the code is accepted
    have ht : Bounded { s' with log := s.log ++ [.opened (p, u)] } := hs.opened rfl hothers
    refine ht.accepted hlog (fun v hv => ?_) (.inl hlast) fun _ _ _ => rfl
    rw [Acceptance.current_opened, if_pos rfl] at hv
    cases hv

theorem invariant : Invariant (system c) (fun _ _ => True) Bounded Ready where
  start k s f _ hf := by
    cases f with
    | used | enrolled | resetting | renewed | sealed | deleting | taken => cases hf
    | _ => trivial
  next w k f s o hw _ hf h := by
    obtain ⟨hlocks, hrows, hrecorded, hready⟩ := next_ok (hw.flights k f hf) h
    exact ⟨hrecorded.bounded hw.shared, hready, fun k' g hne _ hg =>
      hg.later (fun key => hlocks k' key hne) fun p u => hrows k' p u hne⟩
  outside w e s hw _ h := by
    cases e with
    | cancel k =>
      cases h
      exact ⟨⟨hw.shared.ordered, hw.shared.last, hw.shared.unused⟩, fun k g hg =>
        hg.later (fun _ h => h) fun _ _ _ => rfl⟩

/-- **Each code is accepted once**: over any interleaving of sign-ins, confirmations, enrolments and
resets, the steps of the codes that are accepted for a user increase from one enrolment to the next,
that of the enrolment included. -/
theorem codes_increase (c : Crypto) (s : Shared) (hstart : s.log = [])
    (es : List (Interleave.Event Flight Outside)) (w : World Shared Flight)
    (hrun : Run.run (Interleave.step (system c)) (World.quiet s) es = some w) :
    Acceptance.Ordered (· < ·) w.shared.log := by
  have h0 : Bounded s := by
    refine ⟨?_, ?_, ?_⟩
    · rw [hstart]
      exact .nil
    · rw [hstart]
      nofun
    · rw [hstart]
      exact fun _ _ => rfl
  exact (invariant.run h0 (Run.meets_of_forall (fun _ _ => trivial) _ _) hrun).shared.ordered

/-- The secret of RFC 6238, `12345678901234567890`. -/
def rfcSecret : Bytes := Text.utf8 "12345678901234567890"

/-- HMAC-SHA1 and base32 of that secret, for the first time step. -/
def rfcCrypto : Crypto where
  hmac key message :=
    if key = rfcSecret ∧ message = [0, 0, 0, 0, 0, 0, 0, 1] then
      [117, 164, 138, 25, 212, 203, 225, 0, 100, 78, 138, 193, 57, 126, 234, 116, 122, 45, 51, 171]
    else List.replicate 20 0
  base32 text := if text = "GEZDGNBVGY3TQOJQGEZDGNBVGY3TQOJQ" then some rfcSecret else none
  passwordMatches _ _ := false

/-- A break-glass account. -/
def oneAccount : Shared where
  accounts := .collect [(1, { passwordHash := "", totpVersion := 1, lastTotpStep := 0 })]
  secrets := .collect [((1, 1), rfcSecret)]

/-- The account confirms twice with one code at the same time; a directory user sets up the app and
tries the code again. -/
def sameCodes : List (Interleave.Event Flight Outside) :=
  [.start 0 (.verifyCode 1 "287082" 59), .start 1 (.verifyCode 1 "287082" 59),
    .next 0, .next 1, .next 0, .next 1, .next 1, .next 0,
    .start 2 (.signIn 2 (some "287082") (some "GEZDGNBVGY3TQOJQGEZDGNBVGY3TQOJQ") false 59)] ++
    List.replicate 6 (.next 2) ++ [.start 3 (.verify 2 "287082" 59 false)] ++
    List.replicate 3 (.next 3)

theorem codes_increase_same_codes :
    ∃ w, Run.run (Interleave.step (system rfcCrypto)) (World.quiet oneAccount) sameCodes = some w ∧
      w.shared.log = [.accepted (.breakGlass, 1) 1, .opened (.directory, 2),
        .accepted (.directory, 2) 1] ∧
      w.flights.keys = [] ∧ Acceptance.Ordered (· < ·) w.shared.log := by
  have hrun : (Run.run (Interleave.step (system rfcCrypto)) (World.quiet oneAccount) sameCodes).map
      (fun w => (w.shared.log, w.flights.keys)) =
      some ([.accepted (.breakGlass, 1) 1, .opened (.directory, 2), .accepted (.directory, 2) 1],
        []) := by decide +kernel
  obtain ⟨w, hw, hkeys⟩ := Option.map_eq_some_iff.1 hrun
  simp only [Prod.mk.injEq] at hkeys
  exact ⟨w, hw, hkeys.1, hkeys.2, codes_increase rfcCrypto oneAccount rfl sameCodes w hw⟩

end Server.Codes
