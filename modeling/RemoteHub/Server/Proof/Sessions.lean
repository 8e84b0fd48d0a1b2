import RemoteHub.Server.Sessions

/-!
# The life of a session

`lookup_touch`, `lookup_input` and so on say what each operation leaves of a session's row;
`next_cases` and `outside_cases` say which operation a step is. A row that is idle for the idle time
stays so until a right confirmation (`idle_next`, `idle_outside`), and only a browser's session
confirms (`Browser`). `session_lifetime` puts the rules about the end of a session together.
-/

namespace Server.Sessions

open Model Interleave

variable {idle max : Int} {s s' : Shared} {f : Flight} {o : Option Flight} {e : Outside}
  {h hash : Bytes} {row : SessionRow}

/-! ## What the operations leave of a row -/

namespace Shared

theorem lookup_touch :
    (s.touch idle hash).sessions.lookup h =
      if h = hash then (s.sessions.lookup h).map (·.touch idle s.clock)
      else s.sessions.lookup h :=
  HashMap.lookup_modify _ _ _ _

theorem lookup_confirm {began : Int} {right : Bool} :
    (s.confirm hash began right).sessions.lookup h =
      if h = hash then (s.sessions.lookup h).bind (·.confirm began right)
      else s.sessions.lookup h := by
  unfold confirm
  split
  · rename_i row' hrow
    rw [HashMap.lookup_insert_eq]
    by_cases heq : h = hash
    · subst heq
      simp [hrow]
    · simp [heq]
  · rename_i hrow
    by_cases heq : h = hash
    · subst heq
      simp [hrow]
    · simp [heq, AList.lookup_erase_ne heq]

/-- The row that the query of an input finds is the one it changes. -/
theorem lookup_input (idle : Int) (s : Shared) (k : Nat) (reachable : Bool) (a : Activity)
    (h : Bytes) :
    (s.input idle k reachable a).sessions.lookup h = s.sessions.lookup h ∨
      h = a.tokenHash ∧ ∃ row row', s.sessions.lookup h = some row ∧
        row.input idle s.clock = some row' ∧
        (s.input idle k reachable a).sessions.lookup h = some row' := by
  unfold input
  simp only
  split
  · exact .inl rfl
  · split
    · exact .inl rfl
    · split
      · rename_i row' hquery
        obtain ⟨row, hrow, hinput⟩ := Option.bind_eq_some_iff.1 hquery
        by_cases heq : h = a.tokenHash
        · subst heq
          exact .inr ⟨rfl, row, row', hrow, hinput, AList.lookup_insert _⟩
        · exact .inl (AList.lookup_insert_ne heq)
      · exact .inl rfl

theorem lookup_purge :
    (s.purge idle).sessions.lookup h = (s.sessions.lookup h).filter fun row =>
      ¬row.Over idle s.clock :=
  HashMap.lookup_collect_filter _ _ _

theorem lookup_endSessions {user : Uuid} :
    (s.endSessions user).sessions.lookup h = (s.sessions.lookup h).filter fun row =>
      ¬row.userId = user :=
  HashMap.lookup_collect_filter s.sessions (fun row => row.userId = user) h

@[simp]
theorem touch_clock : (s.touch idle hash).clock = s.clock := rfl

@[simp]
theorem touch_issued : (s.touch idle hash).issued = s.issued := rfl

@[simp]
theorem confirm_clock {began : Int} {right : Bool} :
    (s.confirm hash began right).clock = s.clock := by
  unfold confirm
  split <;> rfl

@[simp]
theorem confirm_issued {began : Int} {right : Bool} :
    (s.confirm hash began right).issued = s.issued := by
  unfold confirm
  split <;> rfl

@[simp]
theorem input_clock {k : Nat} {reachable : Bool} {a : Activity} :
    (s.input idle k reachable a).clock = s.clock := by
  unfold input
  simp only
  split
  · rfl
  · split
    · rfl
    · split <;> rfl

@[simp]
theorem input_issued {k : Nat} {reachable : Bool} {a : Activity} :
    (s.input idle k reachable a).issued = s.issued := by
  unfold input
  simp only
  split
  · rfl
  · split
    · rfl
    · split <;> rfl

/-- `by_hash`, read backwards. -/
theorem byHash_eq_some {session : Session} (hs : s.byHash idle h = some session) :
    ∃ row, s.sessions.lookup h = some row ∧ row.userId ∉ s.blocked ∧ s.clock < row.expiresAt ∧
      (row.client = .web ∨ s.clock - idle < row.lastSeenAt) ∧
      session = { tokenHash := h, userId := row.userId, client := row.client,
                  locked := row.Locked idle s.clock, confirmed := row.confirmed s.clock } := by
  obtain ⟨row, hrow, hs⟩ := Option.bind_eq_some_iff.1 hs
  split at hs
  · rename_i hcond
    cases hs
    exact ⟨row, hrow, hcond.1, hcond.2.1, hcond.2.2, rfl⟩
  · cases hs

end Shared

/-! ## Steps -/

/-- What a request can do. -/
theorem next_cases (hn : Flight.next idle s f = some (s', o)) :
    s' = s ∨ (∃ hash answer, f = .touch hash answer ∧ s' = s.touch idle hash) ∨
      ∃ hash right began, f = .commit hash right began ∧ s' = s.confirm hash began right := by
  cases f with
  | find hash keepAlive answer =>
    simp only [Flight.next] at hn
    split at hn
    · cases hn
      exact .inl rfl
    · split at hn <;> cases hn <;> exact .inl rfl
  | touch hash answer =>
    cases hn
    exact .inr (.inl ⟨hash, answer, rfl, rfl⟩)
  | start hash right =>
    cases hn
    exact .inl rfl
  | commit hash right began =>
    cases hn
    exact .inr (.inr ⟨hash, right, began, rfl, rfl⟩)

/-- What happens to a row outside the requests. -/
inductive RowStep (idle : Int) (s s' : Shared) (h : Bytes) : Prop
  | same (hrow : s'.sessions.lookup h = s.sessions.lookup h)
  | gone (hrow : s'.sessions.lookup h = none)
  | created (row : SessionRow) (hnew : h ∉ s.issued) (hissued : h ∈ s'.issued)
      (hseen : row.lastSeenAt = s.clock) (hconfirmed : row.confirmedAt = none)
      (hrow : s'.sessions.lookup h = some row)
  | input (row row' : SessionRow) (hrow : s.sessions.lookup h = some row)
      (hinput : row.input idle s.clock = some row') (hrow' : s'.sessions.lookup h = some row')

theorem filter_same_or_none {α : Type} (p : α → Bool) (x : Option α) :
    x.filter p = x ∨ x.filter p = none := by
  cases x with
  | none => exact .inl rfl
  | some a =>
    by_cases hp : p a
    · exact .inl (by simp [hp])
    · exact .inr (by simp [hp])

/-- A step outside the requests: the clock does not go back, no token is forgotten, and what happens
to a row. -/
theorem outside_cases (ho : s.outside idle max e = some s') :
    s.clock ≤ s'.clock ∧ (∀ h ∈ s.issued, h ∈ s'.issued) ∧ ∀ h, RowStep idle s s' h := by
  cases e with
  | tick clock =>
    simp only [Shared.outside] at ho
    split at ho
    · rename_i hle
      cases ho
      exact ⟨hle, fun _ h => h, fun _ => .same rfl⟩
    · cases ho
  | create hash user client =>
    simp only [Shared.outside] at ho
    split at ho
    · cases ho
    · rename_i hnew
      cases ho
      refine ⟨le_refl _, fun _ h => List.mem_cons_of_mem _ h, fun h => ?_⟩
      by_cases heq : h = hash
      · subst heq
        exact .created _ hnew List.mem_cons_self rfl rfl (AList.lookup_insert _)
      · exact .same (AList.lookup_insert_ne heq)
  | delete hash =>
    cases ho
    refine ⟨le_refl _, fun _ h => h, fun h => ?_⟩
    by_cases heq : h = hash
    · subst heq
      exact .gone (AList.lookup_erase _ _)
    · exact .same (AList.lookup_erase_ne heq)
  | endSessions user =>
    cases ho
    refine ⟨le_refl _, fun _ h => h, fun h => ?_⟩
    rcases filter_same_or_none (fun row : SessionRow => decide ¬row.userId = user)
      (s.sessions.lookup h) with hsame | hnone
    · exact .same (Shared.lookup_endSessions.trans hsame)
    · exact .gone (Shared.lookup_endSessions.trans hnone)
  | block user =>
    cases ho
    exact ⟨le_refl _, fun _ h => h, fun _ => .same rfl⟩
  | unblock user =>
    cases ho
    exact ⟨le_refl _, fun _ h => h, fun _ => .same rfl⟩
  | connect k hash =>
    simp only [Shared.outside] at ho
    split at ho
    · cases ho
    · cases ho
      exact ⟨le_refl _, fun _ h => h, fun _ => .same rfl⟩
  | input k reachable =>
    obtain ⟨a, -, rfl⟩ := Option.map_eq_some_iff.1 ho
    refine ⟨by simp, by simp, fun h => ?_⟩
    rcases Shared.lookup_input idle s k reachable a h with
      hsame | ⟨-, row, row', hrow, hinput, hrow'⟩
    · exact .same hsame
    · exact .input row row' hrow hinput hrow'
  | purge =>
    cases ho
    refine ⟨le_refl _, fun _ h => h, fun h => ?_⟩
    rcases filter_same_or_none (fun row : SessionRow => decide ¬row.Over idle s.clock)
      (s.sessions.lookup h) with hsame | hnone
    · exact .same (Shared.lookup_purge.trans hsame)
    · exact .gone (Shared.lookup_purge.trans hnone)

/-! ## Idle sessions -/

theorem touch_of_locked {now : Int} (hrow : row.Locked idle now) : row.touch idle now = row := by
  unfold SessionRow.touch
  rw [if_neg]
  intro hcond
  exact absurd hrow (Int.not_le.2 hcond.2)

theorem input_of_locked {now : Int} (hrow : row.Locked idle now) : row.input idle now = none := by
  unfold SessionRow.input
  rw [if_neg]
  intro hcond
  exact absurd hrow (Int.not_le.2 hcond.2)

theorem SessionRow.Locked.later {now now' : Int} (hrow : row.Locked idle now) (hle : now ≤ now') :
    row.Locked idle now' := by
  unfold SessionRow.Locked at hrow ⊢
  omega

/-- What a confirmation leaves has the same client, and a wrong one leaves when it was last seen. -/
theorem confirm_eq_some {began : Int} {right : Bool} {row' : SessionRow}
    (hc : row.confirm began right = some row') :
    row'.client = row.client ∧ (right = false → row'.lastSeenAt = row.lastSeenAt) := by
  unfold SessionRow.confirm at hc
  split at hc
  · rename_i hright
    cases hc
    exact ⟨rfl, fun hwrong => by rw [hright] at hwrong; cases hwrong⟩
  · split at hc
    · cases hc
    · cases hc
      exact ⟨rfl, fun _ => rfl⟩

theorem touch_client {now : Int} : (row.touch idle now).client = row.client := by
  unfold SessionRow.touch
  split <;> rfl

theorem input_client {now : Int} {row' : SessionRow} (hi : row.input idle now = some row') :
    row'.client = row.client := by
  unfold SessionRow.input at hi
  split at hi
  · cases hi
    rfl
  · cases hi

/-- The session's token was given out, and it is idle for the idle time if it is there at all. -/
structure Idle (idle : Int) (h : Bytes) (s : Shared) : Prop where
  issued : h ∈ s.issued
  locked : ∀ row, s.sessions.lookup h = some row → row.Locked idle s.clock

theorem idle_next (hi : Idle idle h s) (hn : Flight.next idle s f = some (s', o))
    (hnot : ∀ began, f = .commit h true began → s.sessions.lookup h = none) : Idle idle h s' := by
  rcases next_cases hn with rfl | ⟨hash, answer, rfl, rfl⟩ | ⟨hash, right, began, rfl, rfl⟩
  · exact hi
  · refine ⟨hi.issued, fun row hrow => ?_⟩
    rw [Shared.lookup_touch] at hrow
    split at hrow
    · obtain ⟨row₀, hrow₀, rfl⟩ := Option.map_eq_some_iff.1 hrow
      rw [touch_of_locked (hi.locked row₀ hrow₀)]
      exact hi.locked row₀ hrow₀
    · exact hi.locked row hrow
  · refine ⟨by simpa using hi.issued, fun row hrow => ?_⟩
    rw [Shared.confirm_clock]
    rw [Shared.lookup_confirm] at hrow
    split at hrow
    · rename_i heq
      subst heq
      obtain ⟨row₀, hrow₀, hc⟩ := Option.bind_eq_some_iff.1 hrow
      have hwrong : right = false := by
        cases right with
        | false => rfl
        | true =>
          rw [hnot began rfl] at hrow₀
          cases hrow₀
      have hseen := (confirm_eq_some hc).2 hwrong
      have hlocked := hi.locked row₀ hrow₀
      unfold SessionRow.Locked at hlocked ⊢
      rw [hseen]
      exact hlocked
    · exact hi.locked row hrow

theorem idle_outside (hi : Idle idle h s) (ho : s.outside idle max e = some s') :
    Idle idle h s' := by
  obtain ⟨hclock, hissued, hrows⟩ := outside_cases ho
  refine ⟨hissued h hi.issued, fun row hrow => ?_⟩
  cases hrows h with
  | same hsame =>
    rw [hsame] at hrow
    exact (hi.locked row hrow).later hclock
  | gone hnone =>
    rw [hnone] at hrow
    cases hrow
  | created _ hnew => exact absurd hi.issued hnew
  | input row₀ row' hrow₀ hinput hrow' =>
    rw [input_of_locked (hi.locked row₀ hrow₀)] at hinput
    cases hinput

/-! ## Only browsers confirm -/

/-- The session's token was given out, to a client of this kind. -/
structure Given (c : Client) (h : Bytes) (s : Shared) : Prop where
  issued : h ∈ s.issued
  client : ∀ row, s.sessions.lookup h = some row → row.client = c

theorem given_next {c : Client} (hg : Given c h s) (hn : Flight.next idle s f = some (s', o)) :
    Given c h s' := by
  rcases next_cases hn with rfl | ⟨hash, answer, rfl, rfl⟩ | ⟨hash, right, began, rfl, rfl⟩
  · exact hg
  · refine ⟨hg.issued, fun row hrow => ?_⟩
    rw [Shared.lookup_touch] at hrow
    split at hrow
    · obtain ⟨row₀, hrow₀, rfl⟩ := Option.map_eq_some_iff.1 hrow
      rw [touch_client]
      exact hg.client row₀ hrow₀
    · exact hg.client row hrow
  · refine ⟨by simpa using hg.issued, fun row hrow => ?_⟩
    rw [Shared.lookup_confirm] at hrow
    split at hrow
    · obtain ⟨row₀, hrow₀, hc⟩ := Option.bind_eq_some_iff.1 hrow
      rw [(confirm_eq_some hc).1]
      exact hg.client row₀ hrow₀
    · exact hg.client row hrow

theorem given_outside {c : Client} (hg : Given c h s) (ho : s.outside idle max e = some s') :
    Given c h s' := by
  obtain ⟨-, hissued, hrows⟩ := outside_cases ho
  refine ⟨hissued h hg.issued, fun row hrow => ?_⟩
  cases hrows h with
  | same hsame =>
    rw [hsame] at hrow
    exact hg.client row hrow
  | gone hnone =>
    rw [hnone] at hrow
    cases hrow
  | created _ hnew => exact absurd hg.issued hnew
  | input row₀ row' hrow₀ hinput hrow' =>
    rw [hrow'] at hrow
    cases hrow
    rw [input_client hinput]
    exact hg.client row₀ hrow₀

/-- Every session's token was given out. -/
def Issued (s : Shared) : Prop := ∀ h row, s.sessions.lookup h = some row → h ∈ s.issued

/-- A confirmation on its way is one of a browser. -/
def Flight.OfBrowser (_ : Nat) (s : Shared) : Flight → Prop
  | .touch hash (some _) | .start hash _ | .commit hash _ _ => Given .web hash s
  | _ => True

theorem Flight.OfBrowser.later {k : Nat} (hf : f.OfBrowser k s)
    (hg : ∀ h, Given .web h s → Given .web h s') : f.OfBrowser k s' := by
  cases f with
  | find hash keepAlive answer => trivial
  | touch hash answer =>
    cases answer with
    | none => trivial
    | some right => exact hg hash hf
  | start hash right => exact hg hash hf
  | commit hash right began => exact hg hash hf

theorem goOn_ofBrowser {k : Nat} {answer : Option Bool} {g : Flight}
    (hanswer : answer.isSome → Given .web h s) (hgo : Flight.goOn h answer = some g) :
    g.OfBrowser k s := by
  obtain ⟨right, rfl, rfl⟩ := Option.map_eq_some_iff.1 hgo
  exact hanswer rfl

theorem next_ofBrowser {k : Nat} (hI : Issued s) (hf : f.OfBrowser k s)
    (hn : Flight.next idle s f = some (s', o)) : ∀ g, o = some g → g.OfBrowser k s' := by
  have hlater : ∀ h, Given .web h s → Given .web h s' := fun h hg => given_next hg hn
  intro g hg
  subst hg
  cases f with
  | find hash keepAlive answer =>
    simp only [Flight.next] at hn
    split at hn
    · cases hn
    · rename_i session hfound
      obtain ⟨row, hrow, -, -, -, rfl⟩ := Shared.byHash_eq_some hfound
      have hweb : (if row.client = .web then answer else none).isSome = true →
          Given .web hash s := by
        intro hsome
        by_cases hclient : row.client = .web
        · refine ⟨hI hash row hrow, fun row' hrow' => ?_⟩
          rw [hrow] at hrow'
          cases hrow'
          exact hclient
        · rw [if_neg hclient] at hsome
          cases hsome
      simp only at hn
      split at hn
      · cases hn
        generalize hanswer : (if row.client = .web then answer else none) = x at hweb
        cases x with
        | none => trivial
        | some right => exact hweb rfl
      · obtain ⟨rfl, hgo⟩ := Prod.mk.inj (Option.some.inj hn)
        exact goOn_ofBrowser hweb hgo
  | touch hash answer =>
    obtain ⟨-, hgo⟩ := Prod.mk.inj (Option.some.inj hn)
    refine goOn_ofBrowser (fun hsome => ?_) hgo
    obtain ⟨right, rfl⟩ := Option.isSome_iff_exists.1 hsome
    exact hlater hash hf
  | start hash right =>
    cases hn
    exact hf
  | commit hash right began => cases hn

theorem issued_next (hI : Issued s) (hn : Flight.next idle s f = some (s', o)) : Issued s' := by
  intro h row hrow
  rcases next_cases hn with rfl | ⟨hash, answer, rfl, rfl⟩ | ⟨hash, right, began, rfl, rfl⟩
  · exact hI h row hrow
  · rw [Shared.lookup_touch] at hrow
    split at hrow
    · obtain ⟨row₀, hrow₀, -⟩ := Option.map_eq_some_iff.1 hrow
      exact hI h row₀ hrow₀
    · exact hI h row hrow
  · rw [Shared.confirm_issued]
    rw [Shared.lookup_confirm] at hrow
    split at hrow
    · obtain ⟨row₀, hrow₀, -⟩ := Option.bind_eq_some_iff.1 hrow
      exact hI h row₀ hrow₀
    · exact hI h row hrow

theorem issued_outside (hI : Issued s) (ho : s.outside idle max e = some s') : Issued s' := by
  intro h row hrow
  obtain ⟨-, hissued, hrows⟩ := outside_cases ho
  cases hrows h with
  | same hsame =>
    rw [hsame] at hrow
    exact hissued h (hI h row hrow)
  | gone hnone =>
    rw [hnone] at hrow
    cases hrow
  | created _ _ hin => exact hin
  | input row₀ row' hrow₀ hinput hrow' => exact hissued h (hI h row₀ hrow₀)

/-! ## Runs -/

theorem invariant (idle max : Int) :
    Invariant (system idle max) (fun _ _ => True) Issued Flight.OfBrowser where
  start k s f _ hf := by
    cases f with
    | find hash keepAlive answer => trivial
    | _ => cases hf
  next w k f s o hw _ hf hn := by
    refine ⟨issued_next hw.shared hn, next_ofBrowser hw.shared (hw.flights k f hf) hn, ?_⟩
    intro k' g _ _ hg
    exact hg.later fun h hgiven => given_next hgiven hn
  outside w e s hw _ ho := by
    refine ⟨issued_outside hw.shared ho, fun k g hg => ?_⟩
    exact hg.later fun h hgiven => given_outside hgiven ho

variable {w w' : World Shared Flight} {es : List (Interleave.Event Flight Outside)}

/-- The step is not the commit of a right confirmation of this session. -/
def NotConfirmed (h : Bytes) (w : World Shared Flight) (e : Interleave.Event Flight Outside) : Prop :=
  ∀ k began, e = .next k → w.flights.lookup k ≠ some (.commit h true began)

theorem idle_step {ev : Interleave.Event Flight Outside} (hi : Idle idle h w.shared)
    (hnot : ∀ k began, ev = .next k → w.flights.lookup k = some (.commit h true began) →
      w.shared.sessions.lookup h = none)
    (hs : step (system idle max) w ev = some w') : Idle idle h w'.shared := by
  rcases step_cases hs with ⟨k, f, rfl, -, -, rfl⟩ | ⟨k, f, s, o, rfl, hf, hn, rfl⟩ |
    ⟨e, s, rfl, ho, rfl⟩
  · exact hi
  · refine idle_next hi hn fun began heq => ?_
    subst heq
    exact hnot k began rfl hf
  · exact idle_outside hi ho

/-- A locked session stays locked until a right confirmation. -/
theorem locked_until_confirmed (hi : Idle idle h w.shared)
    (hm : Run.Meets (step (system idle max)) (NotConfirmed h) w es)
    (hr : Run.run (step (system idle max)) w es = some w') : Idle idle h w'.shared := by
  refine Run.inv_of_meets (I := fun _ w => Idle idle h w.shared) hi ?_ hm hr
  intro _ t ev t' _ hnot hs ht
  exact idle_step ht (fun k began hk hf => absurd hf (hnot k began hk)) hs

theorem given_step {c : Client} {ev : Interleave.Event Flight Outside} (hg : Given c h w.shared)
    (hs : step (system idle max) w ev = some w') : Given c h w'.shared := by
  rcases step_cases hs with ⟨k, f, rfl, -, -, rfl⟩ | ⟨k, f, s, o, rfl, hf, hn, rfl⟩ |
    ⟨e, s, rfl, ho, rfl⟩
  · exact hg
  · exact given_next hg hn
  · exact given_outside hg ho

/-- An idle session of the extension stays idle. -/
theorem extension_stays_idle (hw : Holds Issued Flight.OfBrowser w)
    (hg : Given .extension h w.shared) (hi : Idle idle h w.shared)
    (hr : Run.run (step (system idle max)) w es = some w') :
    Given .extension h w'.shared ∧ Idle idle h w'.shared := by
  have hall := Run.inv_of_run (I := fun _ w => Holds Issued Flight.OfBrowser w ∧
    Given .extension h w.shared ∧ Idle idle h w.shared) ⟨hw, hg, hi⟩ ?_ hr
  · exact hall.2
  · intro _ t ev t' _ hs ht
    obtain ⟨hholds, hgiven, hidle⟩ := ht
    refine ⟨(invariant idle max).step hholds trivial hs, given_step hgiven hs,
      idle_step hidle (fun k began hk hf => ?_) hs⟩
    -- a confirmation is one of a browser, so the session is gone
    have hweb : Given .web h t.shared := hholds.flights k _ hf
    cases hrow : t.shared.sessions.lookup h with
    | none => rfl
    | some row =>
      have hclient := hgiven.client row hrow
      rw [hweb.client row hrow] at hclient
      cases hclient

theorem byHash_of_idle (hg : Given .extension h s) (hi : Idle idle h s) :
    s.byHash idle h = none := by
  cases hs : s.byHash idle h with
  | none => rfl
  | some session =>
    obtain ⟨row, hrow, -, -, hopen, -⟩ := Shared.byHash_eq_some hs
    have hlocked := hi.locked row hrow
    rw [hg.client row hrow] at hopen
    rcases hopen with hweb | hseen
    · cases hweb
    · exact absurd hlocked (Int.not_le.2 hseen)

/-- A session that is found is not over. -/
theorem byHash_purge {session : Session} (hs : s.byHash idle h = some session) :
    (s.purge idle).byHash idle h = some session := by
  obtain ⟨row, hrow, -, hexpires, hopen, -⟩ := Shared.byHash_eq_some hs
  have hover : ¬row.Over idle s.clock := by
    intro hover
    rcases hover with hend | ⟨hclient, hidle⟩
    · exact absurd hexpires (Int.not_lt.2 hend)
    · rcases hopen with hweb | hseen
      · exact hclient hweb
      · exact absurd hidle (Int.not_le.2 hseen)
  have hkept : (s.purge idle).sessions.lookup h = s.sessions.lookup h := by
    rw [Shared.lookup_purge, hrow]
    simp [hover]
  unfold Shared.byHash at hs ⊢
  rw [hkept]
  exact hs

/-- A background request reads its session and is over. -/
theorem background_step {k : Nat} (hf : w.flights.lookup k = some (.find hash false none))
    (hs : step (system idle max) w (.next k) = some w') :
    w'.shared = w.shared ∧ k ∉ w'.flights := by
  have hnext : Flight.next idle w.shared (.find hash false none) = some (w.shared, none) := by
    simp only [Flight.next]
    split
    · rfl
    · simp [Flight.goOn]
  obtain ⟨f, hf', hs⟩ := Option.bind_eq_some_iff.1 hs
  obtain ⟨r, hr, rfl⟩ := Option.map_eq_some_iff.1 hs
  rw [hf] at hf'
  cases hf'
  have heq : r = (w.shared, none) := Option.some.inj (hr.symm.trans hnext)
  subst heq
  exact ⟨rfl, fun hmem => (AList.mem_erase.1 hmem).1 rfl⟩

/-- **Session lifetime**: what is locked stays locked until a confirmation, background requests do
not count, an idle session of the extension is not found again, none is found at its end or later,
and none is purged that would be found. -/
theorem session_lifetime (idle max clock : Int)
    (hr : Run.run (step (system idle max)) (World.quiet { clock }) es = some w) :
    (∀ h row es' w', w.shared.sessions.lookup h = some row → row.client = .web →
      row.Locked idle w.shared.clock →
      Run.Meets (step (system idle max)) (NotConfirmed h) w es' →
      Run.run (step (system idle max)) w es' = some w' →
      ∀ row', w'.shared.sessions.lookup h = some row' → row'.Locked idle w'.shared.clock) ∧
    (∀ k hash w', w.flights.lookup k = some (.find hash false none) →
      step (system idle max) w (.next k) = some w' → w'.shared = w.shared ∧ k ∉ w'.flights) ∧
    (∀ h row es' w', w.shared.sessions.lookup h = some row → row.client = .extension →
      row.Locked idle w.shared.clock →
      Run.run (step (system idle max)) w es' = some w' → w'.shared.byHash idle h = none) ∧
    (∀ h row session, w.shared.sessions.lookup h = some row →
      w.shared.byHash idle h = some session → w.shared.clock < row.expiresAt) ∧
    ∀ h session w', w.shared.byHash idle h = some session →
      step (system idle max) w (.outside .purge) = some w' →
      w'.shared.byHash idle h = some session := by
  have hw : Holds Issued Flight.OfBrowser w :=
    (invariant idle max).run (fun h row hrow => by cases hrow)
      (Run.meets_of_forall (fun _ _ => trivial) _ _) hr
  refine ⟨?_, ?_, ?_, ?_, ?_⟩
  · intro h row es' w' hrow _ hlocked hm hr' row' hrow'
    have hidle : Idle idle h w.shared := by
      refine ⟨hw.shared h row hrow, fun row₀ hrow₀ => ?_⟩
      rw [hrow] at hrow₀
      cases hrow₀
      exact hlocked
    exact (locked_until_confirmed hidle hm hr').locked row' hrow'
  · intro k hash w' hf hs
    exact background_step hf hs
  · intro h row es' w' hrow hclient hlocked hr'
    have hissued := hw.shared h row hrow
    have hgiven : Given .extension h w.shared := by
      refine ⟨hissued, fun row₀ hrow₀ => ?_⟩
      rw [hrow] at hrow₀
      cases hrow₀
      exact hclient
    have hidle : Idle idle h w.shared := by
      refine ⟨hissued, fun row₀ hrow₀ => ?_⟩
      rw [hrow] at hrow₀
      cases hrow₀
      exact hlocked
    obtain ⟨hgiven', hidle'⟩ := extension_stays_idle hw hgiven hidle hr'
    exact byHash_of_idle hgiven' hidle'
  · intro h row session hrow hs
    obtain ⟨row', hrow', -, hexpires, -⟩ := Shared.byHash_eq_some hs
    rw [hrow] at hrow'
    cases hrow'
    exact hexpires
  · intro h session w' hs hp
    cases hp
    exact byHash_purge hs

/-- A session that is idle for a minute. -/
def idleMinute : List (Interleave.Event Flight Outside) :=
  [.outside (.create [1] 7 .web), .outside (.tick (60 * second)),
    .start 0 (.find [1] true none), .next 0]

theorem session_lifetime_of_idleMinute :
    ∃ w, Run.run (step (system minute (60 * minute))) (World.quiet { clock := 0 }) idleMinute =
        some w ∧ (w.shared.sessions.lookup [1]).isSome ∧
      ∀ h row es' w', w.shared.sessions.lookup h = some row → row.client = .web →
        row.Locked minute w.shared.clock →
        Run.Meets (step (system minute (60 * minute))) (NotConfirmed h) w es' →
        Run.run (step (system minute (60 * minute))) w es' = some w' →
        ∀ row', w'.shared.sessions.lookup h = some row' → row'.Locked minute w'.shared.clock := by
  refine ⟨_, rfl, by decide, ?_⟩
  have hr : Run.run (step (system minute (60 * minute))) (World.quiet { clock := 0 }) idleMinute =
    some _ := rfl
  exact (session_lifetime minute (60 * minute) 0 hr).1

end Server.Sessions
