import RemoteHub.Server.Refresh

/-!
# How far sessions lag behind the directory

`Timely delay period`: what a directory answered is written within `delay`, as is what a request read or
began with, and rounds that leave no question without an answer begin within `period` of one another. Then a
session is checked within `period + every + delay` (`Row.Fresh`), and its groups are at most `lag` older than
that: those of a browser's session are as old as its check, those of an extension's are as old as
the browser's session it comes from, until it is checked itself.

`Steps` says what a step does to the sessions, `Ready` what a request relies on; both go over to the next state
by `Steps`. A round relies on every session it has not reached yet (`Caller.Ready`). Every run is timely for some
delay and period (`timely_of_run`), so what does not speak of them holds in every run.
-/

namespace Server.Refresh

open Model Sessions Interleave
open Directory (Sid)

variable {config : Config} {delay period : Int} {k : Nat} {s t s' : Shared} {o : Option Flight}
  {hash : Bytes} {row row' : Row} {user : Uuid} {sid : Sid} {groups : List String} {time : Int}

/-! ## Timely runs -/

/-- How old that is what a request is about to write. -/
def Flight.brought : Flight → Option Int
  | .signing _ _ answeredAt _ _ _ => some answeredAt
  | .updating _ _ answeredAt _ _ _ => some answeredAt
  | .issuing _ _ _ readAt _ => some readAt
  | .allowed _ _ _ began => some began
  | _ => none

def Outside.ticks : Outside → Option Int
  | .tick clock => some clock
  | _ => none

/-- What a request brings along is written within the delay, and the next complete round begins within
the period. -/
def Timely (delay period : Int) (w : World Shared Flight) : Interleave.Event Flight Outside → Prop
  | .start _ _ => True
  | .next k => ∀ f ∈ w.flights.lookup k, ∀ time ∈ f.brought, w.shared.clock ≤ time + delay
  | .outside e => ∀ clock ∈ e.ticks, clock ≤ w.shared.followed + period

instance (w : World Shared Flight) : ∀ e, Decidable (Timely delay period w e)
  | .start _ _ => .isTrue trivial
  | .next k => inferInstanceAs (Decidable (∀ f ∈ w.flights.lookup k, ∀ time ∈ f.brought,
      w.shared.clock ≤ time + delay))
  | .outside e => inferInstanceAs (Decidable (∀ clock ∈ e.ticks, clock ≤ w.shared.followed + period))

/-! ## Sessions -/

/-- The directory gave the groups at `time`. -/
def Shared.Answered (s : Shared) (sid : Sid) (groups : List String) (time : Int) : Prop :=
  time ≤ s.clock ∧ ∃ sids, ⟨time, sid, .ok sids⟩ ∈ s.asked ∧ groups = texts sids

/-- The user's groups, if the directory has to do with the user. -/
def Shared.Given (s : Shared) (user : Uuid) (groups : List String) (time : Int) : Prop :=
  ∃ kind, s.users.lookup user = some kind ∧ ∀ sid, kind = some sid → s.Answered sid groups time

/-- The session was over at `time`, or checked not long before. -/
def Row.Fresh (delay time : Int) (row : Row) : Prop :=
  row.expiresAt ≤ time ∨ time ≤ row.checkedAt + (every + delay)

/-- How much older the groups of a session are than its check. -/
def lag (delay period : Int) : Client → Int
  | .web => delay
  | .extension => period + every + 3 * delay + codeLifetime

/-- The same session, as far as the directory is concerned. -/
structure Row.Same (row' row : Row) : Prop where
  userId : row'.userId = row.userId
  client : row'.client = row.client
  expiresAt : row'.expiresAt = row.expiresAt
  groups : row'.groups = row.groups
  checkedAt : row'.checkedAt = row.checkedAt
  answeredAt : row'.answeredAt = row.answeredAt

/-- What time leaves as it is. -/
structure Later (s s' : Shared) : Prop where
  clock : s.clock ≤ s'.clock
  followed : s.followed ≤ s'.followed
  issued : ∀ hash ∈ s.issued, hash ∈ s'.issued
  users : ∀ user kind, s.users.lookup user = some kind → s'.users.lookup user = some kind
  asked : ∀ a ∈ s.asked, a ∈ s'.asked

/-- Where a session of the next state comes from. -/
inductive RowStep (delay period : Int) (s s' : Shared) (hash : Bytes) (row' : Row) : Prop
  | kept (row : Row) (h : s.sessions.lookup hash = some row) (same : row'.Same row)
  | written (row : Row) (h : s.sessions.lookup hash = some row) (userId : row'.userId = row.userId)
      (client : row'.client = row.client) (expiresAt : row'.expiresAt = row.expiresAt)
      (given : s'.Given row'.userId row'.groups row'.answeredAt)
      (checked : s.clock ≤ row'.checkedAt + delay) (answered : s.clock ≤ row'.answeredAt + delay)
      (lagging : row'.checkedAt ≤ row'.answeredAt + delay)
  | created (h : hash ∉ s.issued) (issued : hash ∈ s'.issued)
      (given : s'.Given row'.userId row'.groups row'.answeredAt)
      (checked : s.clock ≤ row'.checkedAt + delay)
      (lagging : s'.isDirectory row'.userId = true →
        row'.checkedAt ≤ row'.answeredAt + lag delay period row'.client)

structure Steps (delay period : Int) (s s' : Shared) : Prop where
  later : Later s s'
  rows : ∀ hash row', s'.sessions.lookup hash = some row' → RowStep delay period s s' hash row'

structure Row.Sound (delay period : Int) (s : Shared) (hash : Bytes) (row : Row) : Prop where
  issued : hash ∈ s.issued
  given : s.Given row.userId row.groups row.answeredAt
  lagging : s.isDirectory row.userId = true → row.checkedAt ≤ row.answeredAt + lag delay period row.client
  fresh : s.isDirectory row.userId = true → row.Fresh delay s.followed

structure CodeRow.Sound (delay period : Int) (s : Shared) (row : CodeRow) : Prop where
  given : s.Given row.userId row.groups row.answeredAt
  lagging : s.isDirectory row.userId = true → row.expiresAt ≤ row.answeredAt + lag delay period .extension

structure Connection.Sound (delay : Int) (s : Shared) (c : Connection) : Prop where
  given : s.Given c.user c.groups c.answeredAt
  asked : c.asked = true → c.began ≤ c.answeredAt + delay

/-- What holds in every state of a timely run. -/
structure Sound (delay period : Int) (s : Shared) : Prop where
  rows : ∀ hash row, s.sessions.lookup hash = some row → row.Sound delay period s hash
  codes : ∀ code row, s.codes.lookup code = some row → row.Sound delay period s
  connections : ∀ c ∈ s.connections, c.Sound delay s
  followed : s.followed ≤ s.clock
  regular : s.clock ≤ s.followed + period

/-! ## Requests -/

/-- What a check relies on: every session of its user that is not checked yet is one of `mine`, the
question came since `since`. -/
def Caller.Ready (delay : Int) (s : Shared) (since : Int) (mine : Bytes → Row → Prop) : Caller → Prop
  | .connection hash began =>
    began ≤ since ∧ hash ∈ s.issued ∧ ∀ row, s.sessions.lookup hash = some row → mine hash row
  | .round began complete rest =>
    began ≤ since ∧ (∀ e ∈ rest, s.users.lookup e.1 = some (some e.2)) ∧
      (complete = true → ∀ hash row, s.sessions.lookup hash = some row → s.isDirectory row.userId = true →
        row.Fresh delay began ∨ mine hash row ∨ row.userId ∈ rest.map Prod.fst)

/-- The sessions of the user. -/
def OfUser (user : Uuid) (_ : Bytes) (row : Row) : Prop := row.userId = user

/-- The sessions that a statement found. -/
def Among (found : List Bytes) (hash : Bytes) (_ : Row) : Prop := hash ∈ found

/-- What a request relies on. -/
def Ready (delay period : Int) (_ : Nat) (s : Shared) : Flight → Prop
  | .authenticated sid groups answeredAt _ _ => s.Answered sid groups answeredAt
  | .signing sid groups answeredAt now _ _ =>
    s.Answered sid groups answeredAt ∧ answeredAt ≤ now ∧ now ≤ s.clock
  | .issuing user groups answeredAt readAt _ =>
    s.Given user groups answeredAt ∧
      (s.isDirectory user = true → readAt ≤ answeredAt + (period + every + 2 * delay))
  | .allowed _ row _ now =>
    s.Given row.userId row.groups row.answeredAt ∧
      (s.isDirectory row.userId = true → now ≤ row.answeredAt + lag delay period .extension)
  | .ask user sid caller =>
    s.users.lookup user = some (some sid) ∧ caller.Ready delay s s.clock (OfUser user)
  | .asking _ user sid caller =>
    s.users.lookup user = some (some sid) ∧ caller.Ready delay s s.clock (OfUser user)
  | .answered user groups answeredAt caller =>
    s.Given user groups answeredAt ∧ answeredAt ≤ s.clock ∧
      caller.Ready delay s answeredAt (OfUser user)
  | .updating user groups answeredAt now found caller =>
    s.Given user groups answeredAt ∧ answeredAt ≤ now ∧ now ≤ s.clock ∧
      (∀ hash ∈ found, hash ∈ s.issued ∧ ∀ row, s.sessions.lookup hash = some row → row.userId = user) ∧
      caller.Ready delay s answeredAt (Among found)
  | .refused user _ _ caller => caller.Ready delay s s.clock (OfUser user)
  | .deleting _ _ _ found caller => caller.Ready delay s s.clock (Among found)
  | .reload hash began asked =>
    hash ∈ s.issued ∧ began ≤ s.clock ∧
      (asked = true → ∀ row, s.sessions.lookup hash = some row → began ≤ row.answeredAt + delay)
  | _ => True

/-! ## Later states -/

theorem Shared.Answered.later (h : s.Answered sid groups time) (hl : Later s s') :
    s'.Answered sid groups time := by
  obtain ⟨htime, sids, hmem, hgroups⟩ := h
  exact ⟨htime.trans hl.clock, sids, hl.asked _ hmem, hgroups⟩

theorem Shared.Given.later (h : s.Given user groups time) (hl : Later s s') :
    s'.Given user groups time := by
  obtain ⟨kind, hkind, hsid⟩ := h
  exact ⟨kind, hl.users user kind hkind, fun sid hs => (hsid sid hs).later hl⟩

/-- Users do not change. -/
theorem Shared.Given.isDirectory (h : s.Given user groups time) (hl : Later s s') :
    s'.isDirectory user = s.isDirectory user := by
  obtain ⟨kind, hkind, -⟩ := h
  rw [Shared.isDirectory, Shared.isDirectory, hkind, hl.users user kind hkind]

theorem Later.refl (s : Shared) : Later s s where
  clock := le_refl _
  followed := le_refl _
  issued _ h := h
  users _ _ h := h
  asked _ h := h

theorem isDirectory_of_lookup (h : s.users.lookup user = some (some sid)) :
    s.isDirectory user = true := by
  rw [Shared.isDirectory, h]
  rfl

theorem lag_nonneg (hdelay : 0 ≤ delay) (hperiod : 0 ≤ period) (client : Client) :
    delay ≤ lag delay period client := by
  cases client with
  | web => exact le_refl _
  | extension =>
    simp only [lag, every, codeLifetime, minute, second]
    omega

/-- A session that was checked just now. -/
theorem Row.fresh_of_checked (h : s.clock ≤ row.checkedAt + delay) (htime : time ≤ s.clock) :
    row.Fresh delay time := by
  refine .inr ?_
  simp only [every, minute, second]
  omega

/-- A step leaves sound sessions sound. -/
theorem Row.Sound.step (hdelay : 0 ≤ delay) (hperiod : 0 ≤ period) (hs : Server.Refresh.Sound delay period s)
    (hsteps : Steps delay period s s') (hfollowed : s'.followed = s.followed)
    (hrow : s'.sessions.lookup hash = some row') : row'.Sound delay period s' hash := by
  have hl := hsteps.later
  cases hsteps.rows hash row' hrow with
  | kept row h same =>
    have hold := hs.rows hash row h
    have hdirectory := hold.given.isDirectory hl
    refine ⟨hl.issued _ hold.issued, ?_, ?_, ?_⟩
    · rw [same.userId, same.groups, same.answeredAt]
      exact hold.given.later hl
    · rw [same.userId, hdirectory, same.checkedAt, same.answeredAt, same.client]
      exact hold.lagging
    · rw [same.userId, hdirectory, hfollowed, Row.Fresh, same.expiresAt, same.checkedAt]
      exact hold.fresh
  | written row h userId client expiresAt given checked answered lagging =>
    refine ⟨hl.issued _ (hs.rows hash row h).issued, given, fun _ => ?_, fun _ => ?_⟩
    · have hlag := lag_nonneg hdelay hperiod row'.client
      omega
    · exact Row.fresh_of_checked checked (hfollowed ▸ hs.followed)
  | created h issued given checked lagging =>
    exact ⟨issued, given, lagging, fun _ => Row.fresh_of_checked checked (hfollowed ▸ hs.followed)⟩

/-- What a check relies on stays so. -/
theorem Caller.Ready.step {caller : Caller} {since since' : Int} {mine : Bytes → Row → Prop}
    (hmine : ∀ hash row row', row'.userId = row.userId → mine hash row → mine hash row')
    (h : caller.Ready delay s since mine) (hs : Server.Refresh.Sound delay period s)
    (hsteps : Steps delay period s s') (hsince : since ≤ since') (hclock : since ≤ s.clock) :
    caller.Ready delay s' since' mine := by
  have hl := hsteps.later
  cases caller with
  | connection own began =>
    obtain ⟨hbegan, hissued, hown⟩ := h
    refine ⟨hbegan.trans hsince, hl.issued _ hissued, fun row' hrow' => ?_⟩
    cases hsteps.rows own row' hrow' with
    | kept row h same => exact hmine own row row' same.userId (hown row h)
    | written row h userId => exact hmine own row row' userId (hown row h)
    | created h => exact absurd hissued h
  | round began complete rest =>
    obtain ⟨hbegan, hrest, hrows⟩ := h
    refine ⟨hbegan.trans hsince, fun e he => hl.users _ _ (hrest e he), fun hcomplete own row' hrow' hdir => ?_⟩
    cases hsteps.rows own row' hrow' with
    | kept row h same =>
      rw [same.userId, (hs.rows own row h).given.isDirectory hl] at hdir
      rcases hrows hcomplete own row h hdir with hfresh | hm | hmem
      · refine .inl ?_
        rw [Row.Fresh, same.expiresAt, same.checkedAt]
        exact hfresh
      · exact .inr (.inl (hmine own row row' same.userId hm))
      · exact .inr (.inr (same.userId ▸ hmem))
    | written row h userId client expiresAt given checked answered lagging =>
      exact .inl (Row.fresh_of_checked checked (hbegan.trans hclock))
    | created h issued given checked lagging =>
      exact .inl (Row.fresh_of_checked checked (hbegan.trans hclock))

theorem ofUser_mono (user : Uuid) (hash : Bytes) (row row' : Row) (h : row'.userId = row.userId)
    (hm : OfUser user hash row) : OfUser user hash row' := h.trans hm

theorem among_mono (found : List Bytes) (hash : Bytes) (row row' : Row) (_ : row'.userId = row.userId)
    (hm : Among found hash row) : Among found hash row' := hm

/-- What a request relies on stays so, whatever another one does. -/
theorem Ready.step {g : Flight} (hg : Ready delay period k s g) (hs : Sound delay period s)
    (hsteps : Steps delay period s s') : Ready delay period k s' g := by
  have hl := hsteps.later
  have hclock := hl.clock
  cases g with
  | authenticated sid groups answeredAt hash id => exact hg.later hl
  | signing sid groups answeredAt now hash id =>
    exact ⟨hg.1.later hl, hg.2.1, hg.2.2.trans hclock⟩
  | issuing user groups answeredAt readAt code =>
    exact ⟨hg.1.later hl, by rw [hg.1.isDirectory hl]; exact hg.2⟩
  | allowed code row hash now => exact ⟨hg.1.later hl, by rw [hg.1.isDirectory hl]; exact hg.2⟩
  | ask user sid caller =>
    exact ⟨hl.users _ _ hg.1, hg.2.step (ofUser_mono user) hs hsteps hclock (le_refl _)⟩
  | asking directory user sid caller =>
    exact ⟨hl.users _ _ hg.1, hg.2.step (ofUser_mono user) hs hsteps hclock (le_refl _)⟩
  | answered user groups answeredAt caller =>
    exact ⟨hg.1.later hl, hg.2.1.trans hclock, hg.2.2.step (ofUser_mono user) hs hsteps (le_refl _) hg.2.1⟩
  | updating user groups answeredAt now found caller =>
    obtain ⟨hgiven, hanswered, hnow, hfound, hcaller⟩ := hg
    refine ⟨hgiven.later hl, hanswered, hnow.trans hclock, fun hash hmem => ?_,
      hcaller.step (among_mono found) hs hsteps (le_refl _) (hanswered.trans hnow)⟩
    obtain ⟨hissued, huser⟩ := hfound hash hmem
    refine ⟨hl.issued _ hissued, fun row' hrow' => ?_⟩
    cases hsteps.rows hash row' hrow' with
    | kept row h same => exact same.userId.trans (huser row h)
    | written row h userId => exact userId.trans (huser row h)
    | created h => exact absurd hissued h
  | refused user sid reason caller => exact Caller.Ready.step (ofUser_mono user) hg hs hsteps hclock (le_refl _)
  | deleting user sid reason found caller => exact Caller.Ready.step (among_mono found) hg hs hsteps hclock (le_refl _)
  | reload hash began asked =>
    obtain ⟨hissued, hbegan, hrow⟩ := hg
    refine ⟨hl.issued _ hissued, hbegan.trans hclock, fun hasked row' hrow' => ?_⟩
    cases hsteps.rows hash row' hrow' with
    | kept row h same => rw [same.answeredAt]; exact hrow hasked row h
    | written row h userId client expiresAt given checked answered => exact hbegan.trans answered
    | created h => exact absurd hissued h
  | signIn | authenticating | createCode | token | exchange | connect | due | settings | ending | setting =>
    exact trivial

/-! ## What a statement does -/

theorem Row.Same.refl (row : Row) : row.Same row := ⟨rfl, rfl, rfl, rfl, rfl, rfl⟩

/-- A step that writes no session. -/
theorem Steps.of_same (hl : Later s t) (h : ∀ hash row', t.sessions.lookup hash = some row' →
    ∃ row, s.sessions.lookup hash = some row ∧ row'.Same row) : Steps delay period s t := by
  refine ⟨hl, fun hash row' hrow' => ?_⟩
  obtain ⟨row, hrow, hsame⟩ := h hash row' hrow'
  exact .kept row hrow hsame

theorem Steps.of_eq (hl : Later s t) (h : t.sessions = s.sessions) : Steps delay period s t :=
  .of_same hl fun _ row' hrow' => ⟨row', h ▸ hrow', .refl row'⟩

theorem Steps.refl (s : Shared) : Steps delay period s s := .of_eq (.refl s) rfl

theorem CodeRow.Sound.later {row : CodeRow} (h : row.Sound delay period s) (hl : Later s s') :
    row.Sound delay period s' :=
  ⟨h.given.later hl, by rw [h.given.isDirectory hl]; exact h.lagging⟩

theorem Connection.Sound.later {c : Connection} (h : c.Sound delay s) (hl : Later s s') :
    c.Sound delay s' := ⟨h.given.later hl, h.asked⟩

/-- What a step that no round ends with has to keep besides the sessions. -/
theorem Sound.step (hdelay : 0 ≤ delay) (hperiod : 0 ≤ period) (hs : Sound delay period s)
    (hsteps : Steps delay period s t) (hfollowed : t.followed = s.followed)
    (hclock : t.clock ≤ s.followed + period)
    (hcodes : ∀ code row, t.codes.lookup code = some row →
      s.codes.lookup code = some row ∨ row.Sound delay period t)
    (hconnections : ∀ c ∈ t.connections, c ∈ s.connections ∨ c.Sound delay t) :
    Sound delay period t where
  rows hash row hrow := Row.Sound.step hdelay hperiod hs hsteps hfollowed hrow
  codes code row hrow := by
    rcases hcodes code row hrow with hold | hnew
    · exact (hs.codes code row hold).later hsteps.later
    · exact hnew
  connections c hc := by
    rcases hconnections c hc with hold | hnew
    · exact (hs.connections c hold).later hsteps.later
    · exact hnew
  followed := hfollowed ▸ hs.followed.trans hsteps.later.clock
  regular := hfollowed ▸ hclock

/-- A statement keeps everything, its request included. -/
structure Good (delay period : Int) (k : Nat) (s s' : Shared) (o : Option Flight) : Prop where
  steps : Steps delay period s s'
  sound : Sound delay period s'
  ready : ∀ g, o = some g → Ready delay period k s' g

theorem Good.close (hsteps : Steps delay period s t) (ht : Sound delay period t)
    (h : t.close = some (s', o)) : Good delay period k s s' o := by
  cases h
  exact ⟨hsteps, ht, ready_of_none⟩

theorem Good.goOn {f : Flight} (hsteps : Steps delay period s t) (ht : Sound delay period t)
    (hf : Ready delay period k t f) (h : t.goOn f = some (s', o)) : Good delay period k s s' o := by
  cases h
  refine ⟨hsteps, ht, fun g hg => ?_⟩
  cases hg
  exact hf

/-! ## Rounds -/

theorem Steps.followed (hsteps : Steps delay period s t) {followed : Int} (h : t.followed ≤ followed) :
    Steps delay period s { t with followed } where
  later :=
    { clock := hsteps.later.clock
      followed := hsteps.later.followed.trans h
      issued := hsteps.later.issued
      users := hsteps.later.users
      asked := hsteps.later.asked }
  rows hash row' hrow' := by
    cases hsteps.rows hash row' hrow' with
    | kept row h same => exact .kept row h same
    | written row h userId client expiresAt given checked answered lagging =>
      exact .written row h userId client expiresAt given checked answered lagging
    | created h issued given checked lagging => exact .created h issued given checked lagging

theorem Row.Fresh.max {time' : Int} (h : row.Fresh delay time) (h' : row.Fresh delay time') :
    row.Fresh delay (max time time') := by
  rcases le_total time time' with hle | hle
  · rwa [max_eq_right hle]
  · rwa [max_eq_left hle]

/-- A round that found every session of a directory user checked says so. -/
theorem nextUser_good {began : Int} {complete : Bool} {rest : List (Uuid × Sid)}
    (hsteps : Steps delay period s t) (ht : Sound delay period t) (hbegan : began ≤ t.clock)
    (hrest : ∀ e ∈ rest, t.users.lookup e.1 = some (some e.2))
    (hrows : complete = true → ∀ hash row, t.sessions.lookup hash = some row →
      t.isDirectory row.userId = true → row.Fresh delay began ∨ row.userId ∈ rest.map Prod.fst)
    (h : t.nextUser began complete rest = some (s', o)) : Good delay period k s s' o := by
  cases rest with
  | nil =>
    cases h
    cases complete with
    | false => exact ⟨hsteps.followed (le_refl _), ht, ready_of_none⟩
    | true =>
      refine ⟨hsteps.followed (le_max_right _ _), ?_, ready_of_none⟩
      exact
        { rows := fun hash row hrow => by
            have hold := ht.rows hash row hrow
            refine ⟨hold.issued, hold.given, hold.lagging, fun hdir => ?_⟩
            have hfresh := (hrows rfl hash row hrow hdir).resolve_right fun hmem => by cases hmem
            exact hfresh.max (hold.fresh hdir)
          codes := fun code row hrow => ⟨(ht.codes code row hrow).given, (ht.codes code row hrow).lagging⟩
          connections := fun c hc => ⟨(ht.connections c hc).given, (ht.connections c hc).asked⟩
          followed := max_le hbegan ht.followed
          regular := by
            have hregular := ht.regular
            show t.clock ≤ max began t.followed + period
            omega }
  | cons e rest =>
    refine .goOn hsteps ht ?_ h
    refine ⟨hrest e List.mem_cons_self, hbegan, fun e' he' => hrest e' (List.mem_cons_of_mem _ he'),
      fun hcomplete hash row hrow hdir => ?_⟩
    rcases hrows hcomplete hash row hrow hdir with hfresh | hmem
    · exact .inl hfresh
    · rcases List.mem_cons.1 hmem with heq | hmem
      · exact .inr (.inl heq)
      · exact .inr (.inr hmem)

variable {caller : Caller} {since : Int} {mine : Bytes → Row → Prop}

/-- The directory could not be asked. -/
theorem kept_unasked_good (hsteps : Steps delay period s t) (ht : Sound delay period t)
    (hcaller : caller.Ready delay t since mine) (hsince : since ≤ t.clock)
    (h : t.kept false caller = some (s', o)) : Good delay period k s s' o := by
  cases caller with
  | connection hash began =>
    obtain ⟨hbegan, hissued, -⟩ := hcaller
    refine .goOn hsteps ht ?_ h
    exact ⟨hissued, hbegan.trans hsince, fun hasked => by cases hasked⟩
  | round began complete rest =>
    obtain ⟨hbegan, hrest, -⟩ := hcaller
    refine nextUser_good hsteps ht (hbegan.trans hsince) hrest (fun hcomplete => ?_) h
    rw [Bool.and_false] at hcomplete
    cases hcomplete

/-- The sessions have been written since the question. -/
theorem kept_asked_good (hdelay : 0 ≤ delay) (hsteps : Steps delay period s t)
    (ht : Sound delay period t) (hcaller : caller.Ready delay t since mine) (hsince : since ≤ t.clock)
    (hmine : ∀ hash row, t.sessions.lookup hash = some row → mine hash row →
      row.answeredAt = since ∧ since ≤ row.checkedAt)
    (h : t.kept true caller = some (s', o)) : Good delay period k s s' o := by
  cases caller with
  | connection hash began =>
    obtain ⟨hbegan, hissued, hrows⟩ := hcaller
    refine .goOn hsteps ht ?_ h
    refine ⟨hissued, hbegan.trans hsince, fun _ row hrow => ?_⟩
    have := (hmine hash row hrow (hrows row hrow)).1
    omega
  | round began complete rest =>
    obtain ⟨hbegan, hrest, hrows⟩ := hcaller
    refine nextUser_good hsteps ht (hbegan.trans hsince) hrest (fun hcomplete hash row hrow hdir => ?_) h
    rw [Bool.and_true] at hcomplete
    rcases hrows hcomplete hash row hrow hdir with hfresh | hm | hmem
    · exact .inl hfresh
    · refine .inl (.inr ?_)
      have := (hmine hash row hrow hm).2
      simp only [every, minute, second]
      omega
    · exact .inr hmem

/-- The sessions are gone. -/
theorem lost_good (hsteps : Steps delay period s t) (ht : Sound delay period t)
    (hcaller : caller.Ready delay t since mine) (hsince : since ≤ t.clock)
    (hmine : ∀ hash row, t.sessions.lookup hash = some row → ¬ mine hash row)
    (h : t.lost caller = some (s', o)) : Good delay period k s s' o := by
  cases caller with
  | connection hash began => exact .close hsteps ht h
  | round began complete rest =>
    obtain ⟨hbegan, hrest, hrows⟩ := hcaller
    refine nextUser_good hsteps ht (hbegan.trans hsince) hrest (fun hcomplete hash row hrow hdir => ?_) h
    rcases hrows hcomplete hash row hrow hdir with hfresh | hm | hmem
    · exact .inl hfresh
    · exact absurd hm (hmine hash row hrow)
    · exact .inr hmem

/-! ## Statements -/

theorem parse_eq {text : String} (h : Sid.parse text = some sid) : sid = ⟨text⟩ := by
  simp only [Sid.parse] at h
  split at h
  · cases h
  · split at h
    · cases h
    · split at h <;> cases h
      rfl

theorem of_verdict_groups {answer : Except Directory.LdapDirectory.AuthError (List Sid)}
    (h : verdict answer = .groups groups) : ∃ sids, answer = .ok sids ∧ groups = texts sids := by
  unfold verdict at h
  split at h <;> cases h
  exact ⟨_, rfl, rfl⟩

theorem byHash_eq_some (h : s.byHash config hash = some row) :
    s.sessions.lookup hash = some row ∧ s.clock < row.expiresAt := by
  obtain ⟨hrow, hp⟩ := Option.filter_eq_some_iff.1 h
  exact ⟨hrow, (of_decide_eq_true hp).2.1⟩

theorem mem_sessionsOf {p : Uuid → Bool} :
    hash ∈ s.sessionsOf p ↔ ∃ row, s.sessions.lookup hash = some row ∧ p row.userId = true :=
  HashMap.mem_keysWhere

theorem later_ask (directory : Nat) (sid : Sid) : Later s (s.ask directory sid) :=
  { Later.refl s with asked := fun _ ha => List.mem_append_left _ ha }

theorem answered_ask {directory : Nat} {sids : List Sid} (h : s.directories directory sid = .ok sids) :
    (s.ask directory sid).Answered sid (texts sids) s.clock :=
  ⟨le_refl _, sids, List.mem_append_right _ (by rw [h]; exact List.mem_singleton_self _), rfl⟩

/-- A new session, whatever was written before it in the same transaction. -/
theorem steps_create {s₁ : Shared} {client : Client} {answeredAt now : Int} (hl : Later s s₁)
    (hsessions : s₁.sessions = s.sessions) (hissued : s₁.issued = s.issued)
    (h : s₁.create config hash user client groups answeredAt now = some t)
    (hgiven : s₁.Given user groups answeredAt) (hchecked : s.clock ≤ now + delay)
    (hlag : s₁.isDirectory user = true → now ≤ answeredAt + lag delay period client) :
    Steps delay period s t := by
  unfold Shared.create at h
  split at h
  · cases h
  · rename_i hnew
    cases h
    refine ⟨{ hl with issued := fun own hown => List.mem_cons_of_mem _ (hl.issued own hown) },
      fun own row' hrow' => ?_⟩
    rw [HashMap.lookup_insert_eq] at hrow'
    split at hrow'
    · rename_i heq
      cases hrow'
      subst heq
      exact .created (hissued ▸ hnew) List.mem_cons_self hgiven hchecked hlag
    · exact .kept row' (hsessions ▸ hrow') (.refl row')

theorem create_frame {client : Client} {answeredAt now : Int}
    (h : s.create config hash user client groups answeredAt now = some t) :
    t.clock = s.clock ∧ t.followed = s.followed ∧ t.codes = s.codes ∧ t.connections = s.connections := by
  unfold Shared.create at h
  split at h <;> cases h
  exact ⟨rfl, rfl, rfl, rfl⟩

theorem upsert_spec {id : Uuid} (h : s.upsert sid id = some (user, t)) :
    ∃ users, t = { s with users } ∧ users.lookup user = some (some sid) ∧
      ∀ user kind, s.users.lookup user = some kind → users.lookup user = some kind := by
  unfold Shared.upsert at h
  split at h
  · rename_i user' huser
    cases h
    obtain ⟨e, he, rfl⟩ := Option.map_eq_some_iff.1 huser
    have hmem := HashMap.lookup_eq_some.2 (List.mem_of_find?_eq_some he)
    have hsid := List.find?_some he
    rw [decide_eq_true_eq] at hsid
    rw [hsid] at hmem
    exact ⟨s.users, rfl, hmem, fun _ _ hkind => hkind⟩
  · split at h
    · cases h
    · rename_i hnew
      cases h
      refine ⟨_, rfl, AList.lookup_insert s.users, fun user kind hkind => ?_⟩
      rw [HashMap.lookup_insert_eq, if_neg, hkind]
      rintro rfl
      exact hnew (AList.lookup_isSome.1 (by rw [hkind]; rfl))

/-- The sessions that a `DELETE` found are gone. -/
theorem steps_eraseAll (hl : Later s t) {found : List Bytes} (h : t.sessions = s.sessions.eraseAll found) :
    Steps delay period s t :=
  .of_same hl fun _ row' hrow' => ⟨row', (HashMap.of_lookup_eraseAll (h ▸ hrow')).2, .refl row'⟩

theorem refresh_refresh (groups : List String) (answeredAt now : Int) (row : Row) :
    Row.refresh groups answeredAt now (Row.refresh groups answeredAt now row) =
      Row.refresh groups answeredAt now row := rfl

theorem mem_due {e : Uuid × Sid} (h : e ∈ s.due) : s.users.lookup e.1 = some (some e.2) := by
  obtain ⟨row, -, hrow⟩ := List.mem_filterMap.1 (List.mem_dedup.1 h)
  split at hrow
  · obtain ⟨sid, hsid, rfl⟩ := Option.map_eq_some_iff.1 hrow
    exact Option.join_eq_some_iff.1 hsid
  · cases hrow

/-- A round asks about everyone whose sessions were not checked lately. -/
theorem fresh_or_due (hdelay : 0 ≤ delay) (hrow : s.sessions.lookup hash = some row)
    (hdir : s.isDirectory row.userId = true) :
    row.Fresh delay s.clock ∨ row.userId ∈ s.due.map Prod.fst := by
  by_cases hover : row.expiresAt ≤ s.clock
  · exact .inl (.inl hover)
  by_cases hchecked : s.clock - every ≤ row.checkedAt
  · exact .inl (.inr (by omega))
  obtain ⟨kind, hkind, hsome⟩ := (Option.any_eq_true _ _).1 hdir
  obtain ⟨sid, rfl⟩ := Option.isSome_iff_exists.1 hsome
  refine .inr (List.mem_map.2 ⟨(row.userId, sid), List.mem_dedup.2 (List.mem_filterMap.2
    ⟨⟨hash, row⟩, HashMap.lookup_eq_some.1 hrow, ?_⟩), rfl⟩)
  rw [if_pos ⟨not_le.1 hover, not_le.1 hchecked⟩, hkind]
  rfl

/-! ## The statements one by one -/

/-- Nothing happened to what time leaves as it is. -/
theorem Later.of_eq (hclock : t.clock = s.clock) (hfollowed : t.followed = s.followed)
    (hissued : t.issued = s.issued) (husers : t.users = s.users) (hasked : t.asked = s.asked) :
    Later s t where
  clock := hclock.ge
  followed := hfollowed.ge
  issued _ h := by rw [hissued]; exact h
  users _ _ h := by rw [husers]; exact h
  asked _ h := by rw [hasked]; exact h

/-- A question about the user relies on the sessions that the next statement finds. -/
theorem Caller.Ready.found (h : caller.Ready delay s since (OfUser user)) :
    caller.Ready delay s since (Among (s.sessionsOf (· = user))) := by
  have hmine : ∀ hash row, s.sessions.lookup hash = some row → OfUser user hash row →
      Among (s.sessionsOf (· = user)) hash row := fun hash row hrow huser =>
    mem_sessionsOf.2 ⟨row, hrow, decide_eq_true huser⟩
  cases caller with
  | connection hash began =>
    obtain ⟨hbegan, hissued, hrows⟩ := h
    exact ⟨hbegan, hissued, fun row hrow => hmine hash row hrow (hrows row hrow)⟩
  | round began complete rest =>
    obtain ⟨hbegan, hrest, hrows⟩ := h
    refine ⟨hbegan, hrest, fun hcomplete hash row hrow hdir => ?_⟩
    rcases hrows hcomplete hash row hrow hdir with hfresh | hm | hmem
    · exact .inl hfresh
    · exact .inr (.inl (hmine hash row hrow hm))
    · exact .inr (.inr hmem)

/-- What `UPDATE sessions` leaves. -/
theorem of_lookup_refresh {found : List Bytes} {answeredAt now : Int}
    (h : (s.sessions.modifyAll found (Row.refresh groups answeredAt now)).lookup hash = some row') :
    ∃ row, s.sessions.lookup hash = some row ∧
      ((hash ∈ found ∧ row' = row.refresh groups answeredAt now) ∨ (hash ∉ found ∧ row' = row)) := by
  rw [HashMap.lookup_modifyAll _ _ (refresh_refresh groups answeredAt now)] at h
  split at h
  · obtain ⟨row, hrow, rfl⟩ := Option.map_eq_some_iff.1 h
    exact ⟨row, hrow, .inl ⟨‹_›, rfl⟩⟩
  · exact ⟨row', h, .inr ⟨‹_›, rfl⟩⟩

section
variable (hdelay : 0 ≤ delay) (hperiod : 0 ≤ period) (hs : Sound delay period s)
include hdelay hperiod hs

/-- The clock stands, and only sessions are new. -/
theorem sound_of_steps (hsteps : Steps delay period s t) (hclock : t.clock = s.clock)
    (hfollowed : t.followed = s.followed) (hconnections : t.connections = s.connections)
    (hcodes : ∀ code row, t.codes.lookup code = some row → s.codes.lookup code = some row) :
    Sound delay period t :=
  hs.step hdelay hperiod hsteps hfollowed (by rw [hclock]; exact hs.regular)
    (fun code row hrow => .inl (hcodes code row hrow)) fun _ hc => .inl (hconnections ▸ hc)

theorem sound_ask (directory : Nat) (sid : Sid) : Sound delay period (s.ask directory sid) :=
  sound_of_steps hdelay hperiod hs (.of_eq (later_ask directory sid) rfl) rfl rfl rfl
    fun _ _ hrow => hrow

theorem signing_good {answeredAt now : Int} {id : Uuid}
    (hf : Ready delay period k s (.signing sid groups answeredAt now hash id))
    (hprompt : s.clock ≤ answeredAt + delay)
    (h : Flight.statement config s (.signing sid groups answeredAt now hash id) = some (s', o)) :
    Good delay period k s s' o := by
  obtain ⟨hanswered, hle, hnow⟩ := hf
  rw [Flight.statement] at h
  cases hdone : (s.upsert sid id).bind fun r => r.2.create config hash r.1 .web groups answeredAt now with
  | none =>
    rw [hdone] at h
    exact .close (.refl s) hs h
  | some t =>
    rw [hdone] at h
    obtain ⟨⟨user, s₁⟩, hupsert, hcreate⟩ := Option.bind_eq_some_iff.1 hdone
    obtain ⟨users, rfl, huser, husers⟩ := upsert_spec hupsert
    have hl : Later s { s with users } := { Later.refl s with users := husers }
    have hgiven : ({ s with users } : Shared).Given user groups answeredAt := by
      refine ⟨some sid, huser, fun sid' hsid => ?_⟩
      cases hsid
      exact hanswered.later hl
    have hsteps : Steps delay period s t := by
      refine steps_create hl rfl rfl hcreate hgiven (by omega) fun _ => ?_
      rw [lag]
      omega
    obtain ⟨hclock, hfollowed, hcodes, hconnections⟩ := create_frame hcreate
    have ht := sound_of_steps hdelay hperiod hs hsteps hclock hfollowed hconnections
      fun _ _ hrow => hcodes ▸ hrow
    exact .close hsteps ht h

theorem allowed_good {code : Bytes} {row : CodeRow} {now : Int}
    (hf : Ready delay period k s (.allowed code row hash now)) (hprompt : s.clock ≤ now + delay)
    (h : Flight.statement config s (.allowed code row hash now) = some (s', o)) :
    Good delay period k s s' o := by
  obtain ⟨hgiven, hlag⟩ := hf
  rw [Flight.statement] at h
  have hl : Later s { s with codes := s.codes.erase code } := .of_eq rfl rfl rfl rfl rfl
  cases hcreate : ({ s with codes := s.codes.erase code } : Shared).create config hash row.userId
      .extension row.groups row.answeredAt now with
  | none =>
    rw [hcreate] at h
    exact .close (.refl s) hs h
  | some t =>
    rw [hcreate] at h
    have hsteps : Steps delay period s t :=
      steps_create hl rfl rfl hcreate (hgiven.later hl) hprompt hlag
    obtain ⟨hclock, hfollowed, hcodes, hconnections⟩ := create_frame hcreate
    have ht := sound_of_steps hdelay hperiod hs hsteps hclock hfollowed hconnections
      fun _ _ hrow => (HashMap.of_lookup_erase (hcodes ▸ hrow)).2
    exact .close hsteps ht h

/-- A code has the groups of the browser's session, which may be as old as it can be. -/
theorem issuing_good {answeredAt readAt : Int} {code : Bytes}
    (hf : Ready delay period k s (.issuing user groups answeredAt readAt code))
    (hprompt : s.clock ≤ readAt + delay)
    (h : Flight.statement config s (.issuing user groups answeredAt readAt code) = some (s', o)) :
    Good delay period k s s' o := by
  obtain ⟨hgiven, hread⟩ := hf
  rw [Flight.statement] at h
  refine .close ?_ ?_ h
  · exact .of_eq (.of_eq rfl rfl rfl rfl rfl) rfl
  refine hs.step hdelay hperiod (.of_eq (.of_eq rfl rfl rfl rfl rfl) rfl) rfl hs.regular
    (fun own row hrow => ?_) fun _ hc => .inl hc
  rw [HashMap.lookup_insert_eq] at hrow
  split at hrow
  · cases hrow
    refine .inr ⟨hgiven.later (.of_eq rfl rfl rfl rfl rfl), fun hdir => ?_⟩
    have := hread hdir
    simp only [lag]
    omega
  · exact .inl hrow

theorem updating_good {answeredAt now : Int} {found : List Bytes}
    (hf : Ready delay period k s (.updating user groups answeredAt now found caller))
    (hprompt : s.clock ≤ answeredAt + delay)
    (h : Flight.statement config s (.updating user groups answeredAt now found caller) = some (s', o)) :
    Good delay period k s s' o := by
  obtain ⟨hgiven, hanswered, hnow, hfound, hcaller⟩ := hf
  rw [Flight.statement] at h
  have hl : Later s { s with sessions := s.sessions.modifyAll found (Row.refresh groups answeredAt now) } :=
    .of_eq rfl rfl rfl rfl rfl
  have hsteps : Steps delay period s
      { s with sessions := s.sessions.modifyAll found (Row.refresh groups answeredAt now) } := by
    refine ⟨hl, fun own row' hrow' => ?_⟩
    obtain ⟨row, hrow, ⟨hmem, rfl⟩ | ⟨-, rfl⟩⟩ := of_lookup_refresh hrow'
    · have hchecked : s.clock ≤ now + delay := by omega
      have hlagging : now ≤ answeredAt + delay := by omega
      have huser : row.userId = user := (hfound own hmem).2 row hrow
      exact .written row hrow rfl rfl rfl (huser ▸ hgiven.later hl) hchecked hprompt hlagging
    · exact .kept _ hrow (.refl _)
  have ht := sound_of_steps hdelay hperiod hs hsteps rfl rfl rfl fun _ _ hrow => hrow
  refine kept_asked_good hdelay hsteps ht (Caller.Ready.step (among_mono found) hcaller hs hsteps
    (le_refl _) (hanswered.trans hnow)) (hanswered.trans hnow) (fun own row' hrow' hmem => ?_) h
  obtain ⟨row, -, ⟨-, rfl⟩ | ⟨hnot, -⟩⟩ := of_lookup_refresh hrow'
  · exact ⟨rfl, hanswered⟩
  · exact absurd hmem hnot

theorem deleting_good {reason : Reason} {found : List Bytes}
    (hf : caller.Ready delay s s.clock (Among found))
    (h : Flight.statement config s (.deleting user sid reason found caller) = some (s', o)) :
    Good delay period k s s' o := by
  have hsteps : Steps delay period s (s.endedBy user sid reason found) :=
    steps_eraseAll (.of_eq rfl rfl rfl rfl rfl) rfl
  have ht := sound_of_steps hdelay hperiod hs hsteps rfl rfl rfl fun _ _ hrow => hrow
  exact lost_good hsteps ht (Caller.Ready.step (among_mono found) hf hs hsteps (le_refl _) (le_refl _))
    (le_refl _) (fun own row hrow hmem => (HashMap.of_lookup_eraseAll hrow).1 hmem) h

theorem connected_good {began : Int} {asked : Bool} (hrow : s.sessions.lookup hash = some row)
    (hasked : asked = true → began ≤ row.answeredAt + delay)
    (h : (s.connected row began asked).close = some (s', o)) : Good delay period k s s' o := by
  have hl : Later s (s.connected row began asked) := .of_eq rfl rfl rfl rfl rfl
  refine .close (.of_eq hl rfl) ?_ h
  refine hs.step hdelay hperiod (.of_eq hl rfl) rfl hs.regular (fun _ _ hcode => .inl hcode) fun c hc => ?_
  rcases List.mem_append.1 hc with hold | hnew
  · exact .inl hold
  · rw [List.mem_singleton] at hnew
    subst hnew
    exact .inr ⟨(hs.rows hash row hrow).given.later hl, hasked⟩

omit hdelay hperiod in
/-- The browser's session was checked in the last rounds, and its groups are not much older. -/
theorem createCode_good {code : Bytes}
    (h : Flight.statement config s (.createCode hash code) = some (s', o)) :
    Good delay period k s s' o := by
  rw [Flight.statement] at h
  cases hrow : s.byHash config hash with
  | none =>
    rw [hrow] at h
    exact .close (.refl s) hs h
  | some row =>
    obtain ⟨hlookup, hlive⟩ := byHash_eq_some hrow
    simp only [hrow] at h
    split at h
    · exact .close (.refl s) hs h
    · rename_i hweb
      rw [not_or, not_not] at hweb
      have hsound := hs.rows hash row hlookup
      refine .goOn (.refl s) hs ?_ h
      refine ⟨hsound.given, fun hdir => ?_⟩
      have hlag := hsound.lagging hdir
      rw [hweb.1, lag] at hlag
      have hfollowed := hs.followed
      have hfresh := Or.resolve_left (hsound.fresh hdir) (by omega)
      have hregular := hs.regular
      omega

theorem connect_good (h : Flight.statement config s (.connect hash) = some (s', o)) :
    Good delay period k s s' o := by
  rw [Flight.statement] at h
  cases hrow : s.byHash config hash with
  | none =>
    rw [hrow] at h
    exact .close (.refl s) hs h
  | some row =>
    obtain ⟨hlookup, -⟩ := byHash_eq_some hrow
    simp only [hrow] at h
    split at h
    · exact .close (.refl s) hs h
    · split at h
      · exact connected_good hdelay hperiod hs hlookup (fun hasked => by cases hasked) h
      · rename_i sid huser
        refine .goOn (.refl s) hs ?_ h
        refine ⟨Option.join_eq_some_iff.1 huser, le_refl _, (hs.rows hash row hlookup).issued,
          fun row' hrow' => ?_⟩
        cases hlookup.symm.trans hrow'
        rfl

omit hdelay hperiod in
theorem ask_good (hf : Ready delay period k s (.ask user sid caller))
    (h : Flight.statement config s (.ask user sid caller) = some (s', o)) :
    Good delay period k s s' o := by
  rw [Flight.statement] at h
  split at h
  · rename_i directory parsed _ hparse
    cases parse_eq hparse
    refine .goOn (.refl s) hs ?_ h
    exact hf
  · exact kept_unasked_good (.refl s) hs hf.2 (le_refl _) h

theorem asking_good {directory : Nat} (hf : Ready delay period k s (.asking directory user sid caller))
    (h : Flight.statement config s (.asking directory user sid caller) = some (s', o)) :
    Good delay period k s s' o := by
  have hl : Later s (s.ask directory sid) := later_ask directory sid
  have hsteps : Steps delay period s (s.ask directory sid) := .of_eq hl rfl
  have ht := sound_ask hdelay hperiod hs directory sid
  have hcaller : caller.Ready delay (s.ask directory sid) s.clock (OfUser user) :=
    Caller.Ready.step (ofUser_mono user) hf.2 hs hsteps (le_refl _) (le_refl _)
  rw [Flight.statement] at h
  split at h
  · rename_i groups hverdict
    obtain ⟨sids, hanswer, rfl⟩ := of_verdict_groups hverdict
    refine .goOn hsteps ht ?_ h
    refine ⟨⟨some sid, hf.1, fun sid' hsid => ?_⟩, le_refl _, hcaller⟩
    cases hsid
    exact answered_ask hanswer
  · exact kept_unasked_good hsteps ht hcaller (le_refl _) h
  · refine .goOn hsteps ht ?_ h
    exact hcaller

theorem exchange_good {code : Bytes} {right : Bool} {now : Int}
    (h : Flight.statement config s (.exchange code hash right now) = some (s', o)) :
    Good delay period k s s' o := by
  rw [Flight.statement] at h
  split at h
  · exact .close (.refl s) hs h
  · rename_i row hrow
    have hcode := hs.codes code row hrow
    split at h
    · rename_i hfresh
      refine .goOn (.refl s) hs ?_ h
      refine ⟨hcode.given, fun hdir => ?_⟩
      have := hcode.lagging hdir
      omega
    · refine .close ?_ ?_ h
      · exact .of_eq (.of_eq rfl rfl rfl rfl rfl) rfl
      refine sound_of_steps hdelay hperiod hs (.of_eq (.of_eq rfl rfl rfl rfl rfl) rfl) rfl rfl rfl
        fun own row' hrow' => ?_
      exact (HashMap.of_lookup_erase hrow').2

/-- **Statements**: each keeps everything, if what its request brings along is recent. -/
theorem statement_good {f : Flight} (hf : Ready delay period k s f)
    (hprompt : ∀ time ∈ f.brought, s.clock ≤ time + delay)
    (h : f.statement config s = some (s', o)) : Good delay period k s s' o := by
  cases f with
  | signIn sid hash id =>
    rw [Flight.statement] at h
    split at h
    · exact .close (.refl s) hs h
    · refine .goOn (.refl s) hs ?_ h
      trivial
  | authenticating directory sid hash id =>
    have hl : Later s (s.ask directory sid) := later_ask directory sid
    have ht := sound_ask hdelay hperiod hs directory sid
    rw [Flight.statement] at h
    split at h
    · rename_i hanswer
      refine .goOn (.of_eq hl rfl) ht ?_ h
      exact answered_ask hanswer
    · exact .close (.of_eq hl rfl) ht h
  | authenticated sid groups answeredAt hash id =>
    rw [Flight.statement] at h
    split at h
    · exact .close (.refl s) hs h
    · refine .goOn (.refl s) hs ?_ h
      exact ⟨hf, hf.1, le_refl _⟩
  | signing sid groups answeredAt now hash id =>
    exact signing_good hdelay hperiod hs hf (hprompt _ rfl) h
  | createCode hash code => exact createCode_good hs h
  | issuing user groups answeredAt readAt code =>
    exact issuing_good hdelay hperiod hs hf (hprompt _ rfl) h
  | token code hash right =>
    refine .goOn (.refl s) hs ?_ h
    trivial
  | exchange code hash right now => exact exchange_good hdelay hperiod hs h
  | allowed code row hash now => exact allowed_good hdelay hperiod hs hf (hprompt _ rfl) h
  | connect hash => exact connect_good hdelay hperiod hs h
  | due =>
    exact nextUser_good (.refl s) hs (le_refl _) (fun e he => mem_due he)
      (fun _ hash row hrow hdir => fresh_or_due hdelay hrow hdir) h
  | ask user sid caller => exact ask_good hs hf h
  | asking directory user sid caller => exact asking_good hdelay hperiod hs hf h
  | answered user groups answeredAt caller =>
    obtain ⟨hgiven, hanswered, hcaller⟩ := hf
    refine .goOn (.refl s) hs ?_ h
    refine ⟨hgiven, hanswered, le_refl _, fun own hown => ?_, hcaller.found⟩
    obtain ⟨row, hrow, huser⟩ := mem_sessionsOf.1 hown
    refine ⟨(hs.rows own row hrow).issued, fun row' hrow' => ?_⟩
    cases hrow.symm.trans hrow'
    exact of_decide_eq_true huser
  | updating user groups answeredAt now found caller =>
    exact updating_good hdelay hperiod hs hf (hprompt _ rfl) h
  | refused user sid reason caller =>
    refine .goOn (.refl s) hs ?_ h
    exact Caller.Ready.found hf
  | deleting user sid reason found caller => exact deleting_good hdelay hperiod hs hf h
  | reload hash began asked =>
    obtain ⟨-, -, hrows⟩ := hf
    rw [Flight.statement] at h
    split at h
    · exact .close (.refl s) hs h
    · rename_i row hrow
      have hlookup := (byHash_eq_some hrow).1
      exact connected_good hdelay hperiod hs hlookup (fun hasked => hrows hasked row hlookup) h
  | settings ends directory =>
    rw [Flight.statement] at h
    split at h
    · refine .goOn (.refl s) hs ?_ h
      trivial
    · refine .goOn (.refl s) hs ?_ h
      trivial
  | ending found directory =>
    have hsteps : Steps delay period s { s with sessions := s.sessions.eraseAll found } :=
      steps_eraseAll (.of_eq rfl rfl rfl rfl rfl) rfl
    have ht := sound_of_steps hdelay hperiod hs hsteps rfl rfl rfl fun _ _ hrow => hrow
    refine .goOn hsteps ht ?_ h
    trivial
  | setting directory =>
    have hsteps : Steps delay period s { s with current := directory } :=
      .of_eq (.of_eq rfl rfl rfl rfl rfl) rfl
    have ht := sound_of_steps hdelay hperiod hs hsteps rfl rfl rfl fun _ _ hrow => hrow
    exact .close hsteps ht h

/-! ## What else happens -/

omit hdelay hperiod hs in
theorem same_touch (idle now : Int) (row : Row) : (row.touch idle now).Same row := by
  have h : row.toSessionRow.touch idle now = row.toSessionRow ∨
      row.toSessionRow.touch idle now = { row.toSessionRow with lastSeenAt := now } := by
    unfold SessionRow.touch
    split
    · exact .inr rfl
    · exact .inl rfl
  unfold Row.touch
  rcases h with h | h <;> rw [h] <;> exact ⟨rfl, rfl, rfl, rfl, rfl, rfl⟩

omit hdelay hperiod hs in
theorem same_confirm {began : Int} {right : Bool} (h : row.confirm began right = some row') :
    row'.Same row := by
  obtain ⟨r, hr, rfl⟩ := Option.map_eq_some_iff.1 h
  have hsame : r.userId = row.userId ∧ r.client = row.client ∧ r.expiresAt = row.expiresAt := by
    unfold SessionRow.confirm at hr
    split at hr
    · cases hr
      exact ⟨rfl, rfl, rfl⟩
    · split at hr <;> cases hr
      exact ⟨rfl, rfl, rfl⟩
  exact ⟨hsame.1, hsame.2.1, hsame.2.2, rfl, rfl, rfl⟩

theorem signInOther_good (h : s.outside config (.signInOther user hash) = some s') :
    Steps delay period s s' ∧ Sound delay period s' := by
  simp only [Shared.outside] at h
  split at h
  · cases h
  · rename_i hother
    have husers : ∀ own kind, s.users.lookup own = some kind →
        (s.users.insert user none).lookup own = some kind := by
      intro own kind hkind
      rw [HashMap.lookup_insert_eq]
      split
      · rename_i heq
        subst heq
        cases kind with
        | none => rfl
        | some sid => exact absurd (isDirectory_of_lookup hkind) hother
      · exact hkind
    have hl : Later s { s with users := s.users.insert user none } := { Later.refl s with users := husers }
    have hsteps : Steps delay period s s' := by
      refine steps_create hl rfl rfl h ⟨none, AList.lookup_insert s.users, fun sid hsid => by cases hsid⟩
        (by omega) fun hdir => ?_
      rw [Shared.isDirectory, AList.lookup_insert] at hdir
      cases hdir
    obtain ⟨hclock, hfollowed, hcodes, hconnections⟩ := create_frame h
    exact ⟨hsteps, sound_of_steps hdelay hperiod hs hsteps hclock hfollowed hconnections
      fun _ _ hrow => hcodes ▸ hrow⟩

/-- Only the sessions change, and none is written. -/
theorem quiet_good (ht : t.clock = s.clock ∧ t.followed = s.followed ∧ t.issued = s.issued ∧
      t.users = s.users ∧ t.asked = s.asked ∧ t.connections = s.connections)
    (hcodes : ∀ code row, t.codes.lookup code = some row → s.codes.lookup code = some row)
    (hrows : ∀ hash row', t.sessions.lookup hash = some row' →
      ∃ row, s.sessions.lookup hash = some row ∧ row'.Same row) :
    Steps delay period s t ∧ Sound delay period t := by
  obtain ⟨hclock, hfollowed, hissued, husers, hasked, hconnections⟩ := ht
  have hsteps : Steps delay period s t := .of_same (.of_eq hclock hfollowed hissued husers hasked) hrows
  exact ⟨hsteps, sound_of_steps hdelay hperiod hs hsteps hclock hfollowed hconnections hcodes⟩

theorem outside_good {e : Outside} (hregular : ∀ clock ∈ e.ticks, clock ≤ s.followed + period)
    (h : s.outside config e = some s') : Steps delay period s s' ∧ Sound delay period s' := by
  have hsame : ∀ hash row', s.sessions.lookup hash = some row' →
      ∃ row, s.sessions.lookup hash = some row ∧ row'.Same row :=
    fun _ row' hrow' => ⟨row', hrow', .refl row'⟩
  cases e with
  | tick clock =>
    simp only [Shared.outside] at h
    split at h <;> cases h
    rename_i hle
    have hsteps : Steps delay period s { s with clock } :=
      .of_eq { Later.refl s with clock := hle } rfl
    exact ⟨hsteps, hs.step hdelay hperiod hsteps rfl (hregular clock rfl) (fun _ _ hrow => .inl hrow)
      fun _ hc => .inl hc⟩
  | signInOther user hash => exact signInOther_good hdelay hperiod hs h
  | cancel | directories | block | unblock =>
    cases h
    exact quiet_good hdelay hperiod hs ⟨rfl, rfl, rfl, rfl, rfl, rfl⟩ (fun _ _ hrow => hrow) hsame
  | touch own =>
    cases h
    refine quiet_good hdelay hperiod hs ⟨rfl, rfl, rfl, rfl, rfl, rfl⟩ (fun _ _ hrow => hrow)
      fun hash row' hrow' => ?_
    rw [HashMap.lookup_modify] at hrow'
    split at hrow'
    · obtain ⟨row, hrow, rfl⟩ := Option.map_eq_some_iff.1 hrow'
      exact ⟨row, hrow, same_touch config.idle s.clock row⟩
    · exact hsame hash row' hrow'
  | confirm own began right =>
    cases h
    unfold Shared.confirm
    split
    · rename_i row hrow
      obtain ⟨old, hold, hconfirm⟩ := Option.bind_eq_some_iff.1 hrow
      refine quiet_good hdelay hperiod hs ⟨rfl, rfl, rfl, rfl, rfl, rfl⟩ (fun _ _ hrow => hrow)
        fun hash row' hrow' => ?_
      rw [HashMap.lookup_insert_eq] at hrow'
      split at hrow'
      · rename_i heq
        cases hrow'
        exact ⟨old, heq ▸ hold, same_confirm hconfirm⟩
      · exact hsame hash row' hrow'
    · exact quiet_good hdelay hperiod hs ⟨rfl, rfl, rfl, rfl, rfl, rfl⟩ (fun _ _ hrow => hrow)
        fun hash row' hrow' => hsame hash row' (HashMap.of_lookup_erase hrow').2
  | endSession own =>
    cases h
    exact quiet_good hdelay hperiod hs ⟨rfl, rfl, rfl, rfl, rfl, rfl⟩ (fun _ _ hrow => hrow)
      fun hash row' hrow' => hsame hash row' (HashMap.of_lookup_erase hrow').2
  | endSessions user =>
    cases h
    exact quiet_good hdelay hperiod hs ⟨rfl, rfl, rfl, rfl, rfl, rfl⟩ (fun _ _ hrow => hrow)
      fun hash row' hrow' => hsame hash row' (HashMap.of_lookup_eraseAll hrow').2
  | purge =>
    cases h
    exact quiet_good hdelay hperiod hs ⟨rfl, rfl, rfl, rfl, rfl, rfl⟩
      (fun _ _ hrow => (HashMap.of_lookup_eraseAll hrow).2)
      fun hash row' hrow' => hsame hash row' (HashMap.of_lookup_eraseAll hrow').2

end

/-! ## Runs -/

theorem invariant (config : Config) (hdelay : 0 ≤ delay) (hperiod : 0 ≤ period) :
    Invariant (system config) (Timely delay period) (Sound delay period) (Ready delay period) where
  start k s f hs hf := by
    cases f with
    | signIn | createCode | token | connect | due | settings => exact trivial
    | authenticating | authenticated | signing | issuing | exchange | allowed | ask | asking | answered
    | updating | refused | deleting | reload | ending | setting => cases hf
  next w k f s o hw hC hf hn := by
    have hgood : Good delay period k w.shared s o := by
      simp only [system, Flight.next] at hn
      split at hn
      · exact .close (.refl _) hw.shared hn
      · exact statement_good hdelay hperiod hw.shared (hw.flights k f hf) (hC f hf) hn
    exact ⟨hgood.sound, hgood.ready, fun k' g _ _ hg => hg.step hw.shared hgood.steps⟩
  outside w e s hw hC ho := by
    obtain ⟨hsteps, hsound⟩ := outside_good hdelay hperiod hw.shared hC ho
    exact ⟨hsound, fun k g hg => hg.step hw.shared hsteps⟩

theorem timely_mono {delay' period' : Int} (hdelay : delay ≤ delay') (hperiod : period ≤ period')
    (w : World Shared Flight) (e : Interleave.Event Flight Outside) (h : Timely delay period w e) :
    Timely delay' period' w e := by
  cases e with
  | start k f => exact trivial
  | next k =>
    intro f hf time htime
    have := h f hf time htime
    omega
  | outside e =>
    intro clock hclock
    have := h clock hclock
    omega

theorem timely_of_event (w : World Shared Flight) (e : Interleave.Event Flight Outside) :
    ∃ delay period, 0 ≤ delay ∧ 0 ≤ period ∧ Timely delay period w e := by
  cases e with
  | start k f => exact ⟨0, 0, le_refl _, le_refl _, trivial⟩
  | next k =>
    cases hf : (w.flights.lookup k).bind Flight.brought with
    | none =>
      refine ⟨0, 0, le_refl _, le_refl _, fun f hlookup time htime => ?_⟩
      rw [Option.mem_def.1 hlookup, Option.bind_some, Option.mem_def.1 htime] at hf
      cases hf
    | some time =>
      refine ⟨max 0 (w.shared.clock - time), 0, le_max_left _ _, le_refl _, fun f hlookup time' htime => ?_⟩
      rw [Option.mem_def.1 hlookup, Option.bind_some, Option.mem_def.1 htime] at hf
      cases hf
      omega
  | outside e =>
    cases he : e.ticks with
    | none =>
      refine ⟨0, 0, le_refl _, le_refl _, fun clock hclock => ?_⟩
      rw [Option.mem_def.1 hclock] at he
      cases he
    | some time =>
      refine ⟨0, max 0 (time - w.shared.followed), le_refl _, le_max_left _ _, fun clock hclock => ?_⟩
      rw [Option.mem_def.1 hclock] at he
      cases he
      omega

/-- Every run is timely for some delay and some period. -/
theorem timely_of_run (config : Config) (w : World Shared Flight)
    (es : List (Interleave.Event Flight Outside)) :
    ∃ delay period, 0 ≤ delay ∧ 0 ≤ period ∧
      Run.Meets (Interleave.step (system config)) (Timely delay period) w es := by
  induction es generalizing w with
  | nil => exact ⟨0, 0, le_refl _, le_refl _, trivial⟩
  | cons e es ih =>
    obtain ⟨delay, period, hdelay, hperiod, htimely⟩ := timely_of_event w e
    cases hstep : Interleave.step (system config) w e with
    | none =>
      refine ⟨delay, period, hdelay, hperiod, htimely, fun w' hw' => ?_⟩
      rw [Option.mem_def.1 hw'] at hstep
      cases hstep
    | some next =>
      obtain ⟨delay', period', hdelay', hperiod', hmeets⟩ := ih next
      refine ⟨max delay delay', max period period', hdelay.trans (le_max_left _ _),
        hperiod.trans (le_max_left _ _),
        timely_mono (le_max_left _ _) (le_max_left _ _) w e htimely, fun w' hw' => ?_⟩
      rw [Option.mem_def.1 hw'] at hstep
      cases hstep
      exact hmeets.mono (timely_mono (le_max_right _ _) (le_max_right _ _))

/-- How old the groups of a session can be. -/
def staleness (delay period : Int) (client : Client) : Int :=
  period + every + delay + lag delay period client

/-- Every session of a directory user, and every connection let through, has groups that the directory
gave for this user. -/
def GroupsGiven (s : Shared) : Prop :=
  (∀ hash row sid, s.sessions.lookup hash = some row → s.users.lookup row.userId = some (some sid) →
      s.Answered sid row.groups row.answeredAt) ∧
    ∀ c ∈ s.connections, ∀ sid, s.users.lookup c.user = some (some sid) →
      s.Answered sid c.groups c.answeredAt

/-- What sessions and connections have of the directory's answers. -/
structure Follows (delay period : Int) (s : Shared) : Prop where
  /-- The directory gave the groups of a session that is not over at most so long ago. -/
  sessions : ∀ hash row sid, s.sessions.lookup hash = some row →
    s.users.lookup row.userId = some (some sid) → s.clock < row.expiresAt →
      s.clock ≤ row.answeredAt + staleness delay period row.client
  /-- So long after the last answer that accepts the user, no session is left. -/
  gone : ∀ hash row sid time, s.sessions.lookup hash = some row →
    s.users.lookup row.userId = some (some sid) → s.clock < row.expiresAt →
      (∀ a ∈ s.asked, a.sid = sid → time ≤ a.time → ∀ sids, a.answer ≠ .ok sids) →
        s.clock < time + staleness delay period row.client
  /-- The directory gave the groups of a connection, if it could be asked, when the connection began or
  at most the delay before. -/
  connections : ∀ c ∈ s.connections, c.asked = true → c.began ≤ c.answeredAt + delay

theorem answered_of_given (h : s.Given user groups time) (huser : s.users.lookup user = some (some sid)) :
    s.Answered sid groups time := by
  obtain ⟨kind, hkind, hsid⟩ := h
  cases huser.symm.trans hkind
  exact hsid sid rfl

theorem Sound.groupsGiven (hs : Sound delay period s) : GroupsGiven s :=
  ⟨fun hash row _ hrow huser => answered_of_given (hs.rows hash row hrow).given huser,
    fun c hc _ huser => answered_of_given (hs.connections c hc).given huser⟩

theorem Sound.follows (hs : Sound delay period s) : Follows delay period s := by
  have hsessions : ∀ hash row sid, s.sessions.lookup hash = some row →
      s.users.lookup row.userId = some (some sid) → s.clock < row.expiresAt →
        s.clock ≤ row.answeredAt + staleness delay period row.client := by
    intro hash row sid hrow huser hlive
    have hdir := isDirectory_of_lookup huser
    have hfollowed := hs.followed
    have hfresh := Or.resolve_left ((hs.rows hash row hrow).fresh hdir) (by omega)
    have hlagging := (hs.rows hash row hrow).lagging hdir
    have hregular := hs.regular
    rw [staleness]
    omega
  refine ⟨hsessions, fun hash row sid time hrow huser hlive hnone => ?_,
    fun c hc => (hs.connections c hc).asked⟩
  obtain ⟨-, sids, hasked, -⟩ := answered_of_given (hs.rows hash row hrow).given huser
  have hbefore : row.answeredAt < time := by
    by_contra hnot
    exact hnone _ hasked rfl (not_lt.1 hnot) sids rfl
  have := hsessions hash row sid hrow huser hlive
  omega

theorem sound_start (hperiod : 0 ≤ period) (clock : Int)
    (directories : Nat → Sid → Except Directory.LdapDirectory.AuthError (List Sid)) :
    Sound delay period { clock, directories, followed := clock } where
  rows _ _ hrow := by cases hrow
  codes _ _ hrow := by cases hrow
  connections _ hc := by cases hc
  followed := le_refl _
  regular := by
    show clock ≤ clock + period
    omega

/-- **Sessions follow the directory**: whatever happens in whichever order, sessions and connections have
groups that the directory gave for their user. In runs whose requests write what the directory answered
within `delay` and whose complete rounds come within `period` of one another, these groups are not
older than `staleness`, so a user whom the directory no longer accepts has no session left then; and
a connection for which the directory could be asked has the groups of that answer or of one at most
`delay` older. -/
theorem sessions_follow (config : Config) (clock : Int)
    (directories : Nat → Sid → Except Directory.LdapDirectory.AuthError (List Sid))
    (es : List (Interleave.Event Flight Outside)) (w : World Shared Flight)
    (h : Run.run (Interleave.step (system config))
      (World.quiet { clock, directories, followed := clock }) es = some w) :
    GroupsGiven w.shared ∧ ∀ delay period, 0 ≤ delay → 0 ≤ period →
      Run.Meets (Interleave.step (system config)) (Timely delay period)
        (World.quiet { clock, directories, followed := clock }) es → Follows delay period w.shared := by
  constructor
  · obtain ⟨delay, period, hdelay, hperiod, hmeets⟩ :=
      timely_of_run config (World.quiet { clock, directories, followed := clock }) es
    exact ((invariant config hdelay hperiod).run (sound_start hperiod clock directories)
      hmeets h).shared.groupsGiven
  · intro delay period hdelay hperiod hmeets
    exact ((invariant config hdelay hperiod).run (sound_start hperiod clock directories)
      hmeets h).shared.follows

/-! ### A user who loses a group -/

def alice : Sid := ⟨"S-1-5-21-1-2-3-1104"⟩

def staff : Sid := ⟨"S-1-5-21-1-2-3-2001"⟩

/-- Alice is in a group. -/
def inStaff (_ : Nat) (_ : Sid) : Except Directory.LdapDirectory.AuthError (List Sid) := .ok [staff]

def inNone (_ : Nat) (_ : Sid) : Except Directory.LdapDirectory.AuthError (List Sid) := .ok []

def exampleConfig : Config where
  idle := 15 * minute
  max := 600 * minute

/-- Alice signs in, connects the extension, and a round after six minutes finds that she is in no group. -/
def groupLost : List (Interleave.Event Flight Outside) :=
  [.start 0 (.settings false (some 0)), .next 0, .next 0,
    .start 1 (.signIn alice [1] 7), .next 1, .next 1, .next 1, .next 1,
    .start 2 (.createCode [1] [2]), .next 2, .next 2,
    .start 3 (.token [2] [3] true), .next 3, .next 3, .next 3,
    .outside (.directories inNone), .outside (.tick (6 * minute)),
    .start 4 .due, .next 4, .next 4, .next 4, .next 4, .next 4,
    .start 5 (.connect [1]), .next 5, .next 5, .next 5, .next 5, .next 5, .next 5]

theorem sessions_follow_groupLost :
    ∃ w, Run.run (Interleave.step (system exampleConfig))
        (World.quiet { clock := 0, directories := inStaff, followed := 0 }) groupLost = some w ∧
      (w.shared.sessions.entries.map fun e => e.2.groups) = [[], []] ∧ w.shared.connections.length = 1 ∧
      GroupsGiven w.shared ∧ Follows second (10 * minute) w.shared := by
  have hrun : ((Run.run (Interleave.step (system exampleConfig))
      (World.quiet { clock := 0, directories := inStaff, followed := 0 }) groupLost).map fun w =>
        (w.shared.sessions.entries.map fun e => e.2.groups, w.shared.connections.length)) =
      some ([[], []], 1) := by decide
  obtain ⟨w, hw, hgroups⟩ := Option.map_eq_some_iff.1 hrun
  obtain ⟨hgiven, hfollows⟩ := sessions_follow exampleConfig 0 inStaff groupLost w hw
  rw [Prod.mk.injEq] at hgroups
  exact ⟨w, hw, hgroups.1, hgroups.2, hgiven,
    hfollows second (10 * minute) (by decide) (by decide) (by decide)⟩

end Server.Refresh
