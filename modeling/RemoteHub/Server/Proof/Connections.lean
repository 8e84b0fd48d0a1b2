import RemoteHub.Server.Connections
import RemoteHub.Server.Proof.Sessions

/-!
# Confirmations when a connection is made

A connection carries the session as its request read it. What it read of the confirmation was true
then (`Read.Sound`); it is still true when the credentials are resolved if the clock does not leave the
minute after that confirmation before (`InTime`). The start message may come up to two minutes later,
and nothing is read again: `stale_confirmation_connects`.
-/

namespace Server.Connections

open Model Sessions Interleave

variable {idle max : Int} {s s' : Shared} {k : Nat} {f : Flight} {o : Option Flight} {e : Outside}
  {read : Read} {device : Uuid} {target : Target} {hash : Bytes} {c : Int}

/-! ## The confirmations in the table -/

/-- A request changes `confirmed_at` only by the commit of a right confirmation. -/
theorem confirmedAt_next {t t' : Sessions.Shared} {f : Sessions.Flight} {o : Option Sessions.Flight}
    {row' : SessionRow} (hn : f.next idle t = some (t', o))
    (hrow' : t'.sessions.lookup hash = some row') (hc : row'.confirmedAt = some c) :
    (∃ row, t.sessions.lookup hash = some row ∧ row.confirmedAt = some c) ∨
      f = .commit hash true c ∧ hash ∈ t.sessions := by
  rcases next_cases hn with rfl | ⟨hash', answer, rfl, rfl⟩ | ⟨hash', right, began, rfl, rfl⟩
  · exact .inl ⟨row', hrow', hc⟩
  · rw [Sessions.Shared.lookup_touch] at hrow'
    split at hrow'
    · obtain ⟨row, hrow, rfl⟩ := Option.map_eq_some_iff.1 hrow'
      refine .inl ⟨row, hrow, ?_⟩
      unfold SessionRow.touch at hc
      split at hc
      · exact hc
      · exact hc
    · exact .inl ⟨row', hrow', hc⟩
  · rw [Sessions.Shared.lookup_confirm] at hrow'
    split at hrow'
    · subst hash'
      obtain ⟨row, hrow, hconfirm⟩ := Option.bind_eq_some_iff.1 hrow'
      unfold SessionRow.confirm at hconfirm
      split at hconfirm
      · rename_i hright
        cases hconfirm
        cases hc
        exact .inr ⟨by rw [hright], AList.lookup_isSome.1 (by rw [hrow]; rfl)⟩
      · split at hconfirm
        · cases hconfirm
        · cases hconfirm
          exact .inl ⟨row, hrow, hc⟩
    · exact .inl ⟨row', hrow', hc⟩

theorem confirmedAt_outside {t t' : Sessions.Shared} {e : Sessions.Outside} {row' : SessionRow}
    (ho : t.outside idle max e = some t') (hrow' : t'.sessions.lookup hash = some row')
    (hc : row'.confirmedAt = some c) :
    ∃ row, t.sessions.lookup hash = some row ∧ row.confirmedAt = some c := by
  cases (outside_cases ho).2.2 hash with
  | same hrow => exact ⟨row', hrow.symm.trans hrow', hc⟩
  | gone hrow =>
    rw [hrow] at hrow'
    cases hrow'
  | created row _ _ _ hnone hrow =>
    cases hrow.symm.trans hrow'
    rw [hnone] at hc
    cases hc
  | input row row'' hrow hinput hrow'' =>
    cases hrow''.symm.trans hrow'
    unfold SessionRow.input at hinput
    split at hinput
    · cases hinput
      exact ⟨row, hrow, hc⟩
    · cases hinput

theorem next_clock {t t' : Sessions.Shared} {f : Sessions.Flight} {o : Option Sessions.Flight}
    (hn : f.next idle t = some (t', o)) : t'.clock = t.clock := by
  rcases next_cases hn with rfl | ⟨_, _, -, rfl⟩ | ⟨_, _, _, -, rfl⟩
  · rfl
  · rfl
  · exact Sessions.Shared.confirm_clock

theorem outside_clock {t t' : Sessions.Shared} {e : Sessions.Outside}
    (ho : t.outside idle max e = some t') : e = .tick t'.clock ∨ t'.clock = t.clock := by
  cases e with
  | tick clock =>
    simp only [Sessions.Shared.outside] at ho
    split at ho
    · cases ho
      exact .inl rfl
    · cases ho
  | create hash user client =>
    simp only [Sessions.Shared.outside] at ho
    split at ho
    · cases ho
    · cases ho
      exact .inr rfl
  | connect k hash =>
    simp only [Sessions.Shared.outside] at ho
    split at ho
    · cases ho
    · cases ho
      exact .inr rfl
  | input k reachable =>
    obtain ⟨a, -, rfl⟩ := Option.map_eq_some_iff.1 ho
    exact .inr Sessions.Shared.input_clock
  | _ =>
    cases ho
    exact .inr rfl

/-! ## What a connection relies on -/

/-- What was read was true: the session was confirmed then. -/
def Read.Sound (s : Shared) (read : Read) : Prop :=
  read.session.confirmed = true →
    ∃ c, read.confirmedAt = some c ∧ (read.session.tokenHash, c) ∈ s.confirmations

/-- The confirmation that a connection relies on. -/
def relied (read : Read) (target : Target) : Option Int :=
  if target.requiresConfirmation ∧ read.session.confirmed then read.confirmedAt else none

def Flight.relies : Flight → Option Int
  | .waiting read target _ | .started read target | .confirmed read target => relied read target
  | _ => none

/-- It was at most a minute ago. -/
def Fresh (clock : Int) (relies : Option Int) : Prop := ∀ c ∈ relies, clock - confirmedFor < c

structure Sound (s : Shared) : Prop where
  rows : ∀ hash row c, s.store.sessions.lookup hash = some row → row.confirmedAt = some c →
    (hash, c) ∈ s.confirmations
  past : ∀ hash c, (hash, c) ∈ s.confirmations → c ≤ s.store.clock
  opened : ∀ o ∈ s.opened, o.target.requiresConfirmation = true →
    ∃ c, (o.tokenHash, c) ∈ s.confirmations ∧ o.resolvedAt - confirmedFor < c ∧ c ≤ o.resolvedAt

def Ready (_ : Nat) (s : Shared) : Flight → Prop
  | .request (.commit _ _ began) => began ≤ s.store.clock
  | .touch read .. | .found read .. | .loaded read _ => read.Sound s
  | .waiting read target _ | .started read target =>
    read.Sound s ∧ Fresh s.store.clock (relied read target)
  | .confirmed read target => read.Sound s ∧ Fresh s.store.clock (relied read target) ∧
      (target.requiresConfirmation = true → read.session.confirmed = true)
  | _ => True

theorem Read.Sound.later (hread : read.Sound s)
    (hconfirmations : ∀ x ∈ s.confirmations, x ∈ s'.confirmations) : read.Sound s' := by
  intro hconfirmed
  obtain ⟨c, hc, hmem⟩ := hread hconfirmed
  exact ⟨c, hc, hconfirmations _ hmem⟩

theorem Ready.later (hf : Ready k s f) (hclock : s.store.clock ≤ s'.store.clock)
    (hconfirmations : ∀ x ∈ s.confirmations, x ∈ s'.confirmations)
    (hfresh : Fresh s.store.clock f.relies → Fresh s'.store.clock f.relies) : Ready k s' f := by
  cases f with
  | request f =>
    cases f with
    | commit hash right began => exact le_trans hf hclock
    | _ => trivial
  | touch | found | loaded => exact Read.Sound.later hf hconfirmations
  | waiting | started => exact ⟨hf.1.later hconfirmations, hfresh hf.2⟩
  | confirmed => exact ⟨hf.1.later hconfirmations, hfresh hf.2.1, hf.2.2⟩
  | _ => trivial

theorem byHash_sound (hs : Sound s) (h : s.byHash idle hash = some read) : read.Sound s := by
  obtain ⟨session, hsession, rfl⟩ := Option.map_eq_some_iff.1 h
  obtain ⟨row, hrow, -, -, -, rfl⟩ := Sessions.Shared.byHash_eq_some hsession
  intro hconfirmed
  obtain ⟨c, hc, -⟩ := (Option.any_eq_true _ _).1 hconfirmed
  refine ⟨c, ?_, hs.rows hash row c hrow hc⟩
  simp only [hrow, Option.bind_some, hc]

/-! ## Steps -/

/-- What a step keeps: the clock, and the confirmations. -/
structure Keeps (s s' : Shared) (o : Option Flight) : Prop where
  sound : Sound s'
  clock : s'.store.clock = s.store.clock
  confirmations : ∀ x ∈ s.confirmations, x ∈ s'.confirmations
  ready : ∀ k g, o = some g → Ready k s' g

theorem Sound.of_store {store : Sessions.Shared} (hs : Sound s) (hclock : store.clock = s.store.clock)
    (hrows : ∀ hash row' c, store.sessions.lookup hash = some row' → row'.confirmedAt = some c →
      ∃ row, s.store.sessions.lookup hash = some row ∧ row.confirmedAt = some c) :
    Sound { s with store } := by
  refine ⟨fun hash row' c hrow' hc => ?_, fun hash c hmem => ?_, hs.opened⟩
  · obtain ⟨row, hrow, hc'⟩ := hrows hash row' c hrow' hc
    exact hs.rows hash row c hrow hc'
  · rw [hclock]
    exact hs.past hash c hmem

theorem Keeps.same (hs : Sound s) (ho : ∀ k g, o = some g → Ready k s g) : Keeps s s o :=
  ⟨hs, rfl, fun _ h => h, ho⟩

/-- A request of `RemoteHub.Server.Sessions`. -/
theorem request_keeps {f : Sessions.Flight} {store : Sessions.Shared} {o : Option Sessions.Flight}
    (hs : Sound s) (hf : Ready k s (.request f)) (hn : f.next idle s.store = some (store, o)) :
    Keeps s (s.request f store) (o.map .request) := by
  have hclock : store.clock = s.store.clock := next_clock hn
  have hready : ∀ {s' : Shared}, s'.store.clock = s.store.clock →
      ∀ k g, o.map Flight.request = some g → Ready k s' g := by
    intro s' hclock' k g hg
    obtain ⟨g', hg', rfl⟩ := Option.map_eq_some_iff.1 hg
    subst hg'
    cases g' with
    | commit hash right began =>
      cases f with
      | start hash' right' =>
        cases hn
        exact le_of_eq hclock'.symm
      | commit => cases hn
      | find hash' keepAlive answer =>
        simp only [Sessions.Flight.next] at hn
        split at hn
        · cases hn
        · split at hn
          · cases hn
          · obtain ⟨-, hgo⟩ := Prod.mk.inj (Option.some.inj hn)
            obtain ⟨_, -, hgo⟩ := Option.map_eq_some_iff.1 hgo
            cases hgo
      | touch hash' answer =>
        obtain ⟨-, hgo⟩ := Prod.mk.inj (Option.some.inj hn)
        obtain ⟨_, -, hgo⟩ := Option.map_eq_some_iff.1 hgo
        cases hgo
    | _ => trivial
  by_cases hcommit : ∃ hash began, f = .commit hash true began ∧ hash ∈ s.store.sessions
  · obtain ⟨hash, began, rfl, hin⟩ := hcommit
    have hs' : s.request (.commit hash true began) store =
        { s with store, confirmations := s.confirmations ++ [(hash, began)] } := if_pos hin
    rw [hs']
    refine ⟨⟨fun hash' row' c hrow' hc => ?_, fun hash' c hmem => ?_, fun o' ho' hreq => ?_⟩,
      hclock, fun _ hmem => List.mem_append_left _ hmem, hready hclock⟩
    · rcases confirmedAt_next hn hrow' hc with ⟨row, hrow, hc'⟩ | ⟨heq, -⟩
      · exact List.mem_append_left _ (hs.rows hash' row c hrow hc')
      · cases heq
        exact List.mem_append_right _ List.mem_cons_self
    · simp only [hclock]
      rcases List.mem_append.1 hmem with hmem | hmem
      · exact hs.past hash' c hmem
      · cases List.mem_singleton.1 hmem
        exact hf
    · obtain ⟨c, hmem, htime⟩ := hs.opened o' ho' hreq
      exact ⟨c, List.mem_append_left _ hmem, htime⟩
  · have hs' : s.request f store = { s with store } := by
      unfold Shared.request
      split
      · rename_i hash began
        exact if_neg fun hin => hcommit ⟨hash, began, rfl, hin⟩
      · rfl
    rw [hs']
    refine ⟨hs.of_store hclock fun hash row' c hrow' hc => ?_, hclock, fun _ h => h, hready hclock⟩
    rcases confirmedAt_next hn hrow' hc with hold | ⟨heq, hin⟩
    · exact hold
    · exact absurd ⟨hash, c, heq, hin⟩ hcommit

theorem extract_ready {directory : Option Bool} (hread : read.Sound s) :
    ∀ k g, Flight.extract read device directory = some g → Ready k s g := by
  intro k g hg
  unfold Flight.extract at hg
  split at hg
  · cases hg
  · cases hg
    exact hread

/-- A connection reads a device only while the confirmation that it relies on is fresh. -/
def Flight.ReadsInTime (s : Shared) : Flight → Prop
  | .loaded read device => ∀ target ∈ s.devices.lookup device,
      Fresh s.store.clock (relied read target)
  | _ => True

theorem next_keeps (hs : Sound s) (hf : Ready k s f) (hC : f.ReadsInTime s)
    (hn : f.next idle s = some (s', o)) : Keeps s s' o := by
  cases f with
  | request f =>
    obtain ⟨⟨store, o'⟩, hr, h⟩ := Option.map_eq_some_iff.1 hn
    cases h
    exact request_keeps hs hf hr
  | connect hash device keepAlive directory =>
    simp only [Flight.next] at hn
    split at hn
    · cases hn
      exact .same hs nofun
    · rename_i read hread
      have hsound := byHash_sound hs hread
      split at hn
      · cases hn
        refine .same hs fun k g hg => ?_
        cases hg
        exact hsound
      · obtain ⟨rfl, rfl⟩ := Prod.mk.inj (Option.some.inj hn)
        exact .same hs (extract_ready hsound)
  | touch read device directory =>
    obtain ⟨rfl, rfl⟩ := Prod.mk.inj (Option.some.inj hn)
    refine ⟨hs.of_store rfl fun hash row' c hrow' hc => ?_, rfl, fun _ h => h, extract_ready hf⟩
    have htouch : (Sessions.Flight.touch read.session.tokenHash none).next idle s.store =
        some (s.store.touch idle read.session.tokenHash, none) := rfl
    rcases confirmedAt_next htouch hrow' hc with hold | ⟨heq, -⟩
    · exact hold
    · cases heq
  | found read device directory =>
    simp only [Flight.next] at hn
    split at hn
    · cases hn
      refine .same hs fun k g hg => ?_
      cases hg
      exact hf
    · cases hn
      refine .same hs fun k g hg => ?_
      cases hg
      trivial
    · cases hn
      refine ⟨hs.of_store rfl fun hash row' c hrow' hc => ?_, rfl, fun _ h => h, nofun⟩
      have hend : s.store.outside idle 0 (.endSessions read.session.userId) =
          some (s.store.endSessions read.session.userId) := rfl
      exact confirmedAt_outside hend hrow' hc
  | reload hash device =>
    obtain ⟨rfl, rfl⟩ := Prod.mk.inj (Option.some.inj hn)
    refine .same hs fun k g hg => ?_
    obtain ⟨read, hread, rfl⟩ := Option.map_eq_some_iff.1 hg
    exact byHash_sound hs hread
  | loaded read device =>
    obtain ⟨rfl, rfl⟩ := Prod.mk.inj (Option.some.inj hn)
    refine .same hs fun k g hg => ?_
    obtain ⟨target, htarget, rfl⟩ := Option.map_eq_some_iff.1 hg
    exact ⟨hf, hC target htarget⟩
  | waiting read target since =>
    simp only [Flight.next] at hn
    split at hn
    · cases hn
      refine .same hs fun k g hg => ?_
      cases hg
      exact hf
    · cases hn
      exact .same hs nofun
  | started read target =>
    simp only [Flight.next] at hn
    split at hn
    · cases hn
      exact .same hs nofun
    · rename_i hpass
      cases hn
      refine .same hs fun k g hg => ?_
      cases hg
      refine ⟨hf.1, hf.2, fun hreq => ?_⟩
      by_contra hnot
      exact hpass ⟨hreq, hnot⟩
  | confirmed read target =>
    obtain ⟨rfl, rfl⟩ := Prod.mk.inj (Option.some.inj hn)
    obtain ⟨hsound, hfresh, hconfirmed⟩ := hf
    refine ⟨⟨hs.rows, hs.past, fun o' ho' hreq => ?_⟩, rfl, fun _ h => h, nofun⟩
    rcases List.mem_append.1 ho' with ho' | ho'
    · exact hs.opened o' ho' hreq
    · cases List.mem_singleton.1 ho'
      obtain ⟨c, hc, hmem⟩ := hsound (hconfirmed hreq)
      refine ⟨c, hmem, hfresh c ?_, hs.past _ c hmem⟩
      rw [relied, if_pos ⟨hreq, hconfirmed hreq⟩]
      exact hc

/-! ## Runs -/

/-- The clock stays within the minute after a confirmation while a connection relies on it. -/
def InTime (w : World Shared Flight) : Interleave.Event Flight Outside → Prop
  | .next k => ∀ f ∈ w.flights.lookup k, f.ReadsInTime w.shared
  | .outside (.session (.tick clock)) => ∀ e ∈ w.flights.entries, Fresh clock e.2.relies
  | _ => True

instance (clock : Int) (relies : Option Int) : Decidable (Fresh clock relies) :=
  inferInstanceAs (Decidable (∀ c ∈ relies, clock - confirmedFor < c))

instance (s : Shared) (f : Flight) : Decidable (f.ReadsInTime s) :=
  match f with
  | .loaded read device => inferInstanceAs (Decidable (∀ target ∈ s.devices.lookup device,
      Fresh s.store.clock (relied read target)))
  | .request _ | .connect .. | .touch .. | .found .. | .reload .. | .waiting .. | .started ..
  | .confirmed .. => .isTrue trivial

instance (w : World Shared Flight) (ev : Interleave.Event Flight Outside) : Decidable (InTime w ev) :=
  match ev with
  | .next k => inferInstanceAs (Decidable (∀ f ∈ w.flights.lookup k, f.ReadsInTime w.shared))
  | .outside (.session (.tick clock)) =>
    inferInstanceAs (Decidable (∀ e ∈ w.flights.entries, Fresh clock e.2.relies))
  | .outside (.session (.create ..)) | .outside (.session (.delete _))
  | .outside (.session (.endSessions _)) | .outside (.session (.block _))
  | .outside (.session (.unblock _)) | .outside (.session (.connect ..))
  | .outside (.session (.input ..)) | .outside (.session .purge) | .outside (.device ..)
  | .start .. => .isTrue trivial

theorem sound_step {w w' : World Shared Flight} {ev : Interleave.Event Flight Outside}
    (hw : Holds Sound Ready w) (hC : InTime w ev) (hs : step (system idle max) w ev = some w') :
    Holds Sound Ready w' := by
  refine hw.step hs ?_ ?_ ?_
  · intro k f hf
    cases f with
    | request f =>
      cases f with
      | find => trivial
      | _ => cases hf
    | connect => trivial
    | _ => cases hf
  · intro k f s o he hf hn
    subst he
    have hkeeps := next_keeps hw.shared (hw.flights k f hf) (hC f hf) hn
    refine ⟨hkeeps.sound, hkeeps.ready k, fun k' g _ hg => ?_⟩
    refine (hw.flights k' g hg).later (le_of_eq hkeeps.clock.symm) hkeeps.confirmations ?_
    rw [hkeeps.clock]
    exact id
  · intro e s he ho
    subst he
    cases e with
    | session e =>
      obtain ⟨store, hstore, rfl⟩ := Option.map_eq_some_iff.1 ho
      have hclock := (outside_cases hstore).1
      refine ⟨⟨fun hash row' c hrow' hc => ?_, fun hash c hmem => ?_, hw.shared.opened⟩,
        fun k g hg => ?_⟩
      · obtain ⟨row, hrow, hc'⟩ := confirmedAt_outside hstore hrow' hc
        exact hw.shared.rows hash row c hrow hc'
      · exact le_trans (hw.shared.past hash c hmem) hclock
      · refine (hw.flights k g hg).later hclock (fun _ h => h) fun hfresh => ?_
        rcases outside_clock hstore with rfl | hsame
        · exact hC ⟨k, g⟩ (HashMap.lookup_eq_some.1 hg)
        · simp only [hsame]
          exact hfresh
    | device id target =>
      cases target with
      | none =>
        cases ho
        exact ⟨⟨hw.shared.rows, hw.shared.past, hw.shared.opened⟩, fun k g hg =>
          (hw.flights k g hg).later (le_refl _) (fun _ h => h) fun h => h⟩
      | some target =>
        cases ho
        exact ⟨⟨hw.shared.rows, hw.shared.past, hw.shared.opened⟩, fun k g hg =>
          (hw.flights k g hg).later (le_refl _) (fun _ h => h) fun h => h⟩

/-- **Connections are confirmed when their credentials are resolved**: over every interleaving in which
the clock stays within the minute after a confirmation while a connection relies on it, each
connection to a device that requires a confirmation has one of the last 60 seconds at that moment. -/
theorem connections_confirmed (idle max clock : Int) {es : List (Interleave.Event Flight Outside)}
    {w : World Shared Flight}
    (hr : Run.run (step (system idle max)) (World.quiet { store := { clock } }) es = some w)
    (hm : Run.Meets (step (system idle max)) InTime (World.quiet { store := { clock } }) es) :
    ∀ o ∈ w.shared.opened, o.target.requiresConfirmation = true →
      ∃ c, (o.tokenHash, c) ∈ w.shared.confirmations ∧ o.resolvedAt - confirmedFor < c ∧
        c ≤ o.resolvedAt := by
  have hstart : Holds Sound Ready (World.quiet { store := { clock } } : World Shared Flight) := by
    refine .quiet ⟨?_, ?_, ?_⟩
    · intro hash row c hrow
      cases hrow
    · intro hash c hmem
      cases hmem
    · intro o ho
      cases ho
  have hw : Holds Sound Ready w := Run.inv_of_meets (I := fun _ w => Holds Sound Ready w) hstart
    (fun _ _ _ _ _ hC hs ht => sound_step ht hC hs) hm hr
  exact hw.shared.opened

/-- A session is confirmed, and a connection to a device that requires it opens its WebSocket 30
seconds later. -/
def opensWebSocket : List (Interleave.Event Flight Outside) :=
  [.outside (.device 1 (some ⟨true⟩)), .outside (.session (.create [7] 2 .web)),
    .start 0 (.request (.find [7] true (some true))), .next 0, .next 0, .next 0, .next 0,
    .outside (.session (.tick (30 * second))), .start 1 (.connect [7] 1 true none),
    .next 1, .next 1, .next 1, .next 1]

/-- The start message comes at `clock`. -/
def starts (clock : Int) : List (Interleave.Event Flight Outside) :=
  [.outside (.session (.tick clock)), .next 1, .next 1, .next 1]

theorem connections_confirmed_in_time :
    ∃ w, Run.run (step (system (30 * minute) (60 * minute))) (World.quiet { store := { clock := 0 } })
        (opensWebSocket ++ starts (59 * second)) = some w ∧
      w.shared.opened = [⟨[7], ⟨true⟩, 59 * second⟩] ∧
      ∀ o ∈ w.shared.opened, o.target.requiresConfirmation = true →
        ∃ c, (o.tokenHash, c) ∈ w.shared.confirmations ∧ o.resolvedAt - confirmedFor < c ∧
          c ≤ o.resolvedAt := by
  have hr : Run.run (step (system (30 * minute) (60 * minute)))
    (World.quiet { store := { clock := 0 } }) (opensWebSocket ++ starts (59 * second)) = some _ := rfl
  exact ⟨_, hr, rfl, connections_confirmed _ _ 0 hr (by decide)⟩

/-- The start message comes 110 seconds after the handshake, and the confirmation is 140 seconds
old. -/
theorem stale_confirmation_connects :
    ¬∀ (es : List (Interleave.Event Flight Outside)) (w : World Shared Flight),
      Run.run (step (system (30 * minute) (60 * minute))) (World.quiet { store := { clock := 0 } }) es =
        some w →
      ∀ o ∈ w.shared.opened, o.target.requiresConfirmation = true →
        ∃ c, (o.tokenHash, c) ∈ w.shared.confirmations ∧ o.resolvedAt - confirmedFor < c ∧
          c ≤ o.resolvedAt := by
  intro hall
  have hrun : (Run.run (step (system (30 * minute) (60 * minute)))
      (World.quiet { store := { clock := 0 } }) (opensWebSocket ++ starts (140 * second))).map
        (fun w => (w.shared.opened, w.shared.confirmations)) =
      some ([⟨[7], ⟨true⟩, 140 * second⟩], [([7], 0)]) := by decide
  obtain ⟨w, hr, hw⟩ := Option.map_eq_some_iff.1 hrun
  rw [Prod.mk.injEq] at hw
  obtain ⟨c, hmem, htime, -⟩ := hall _ w hr ⟨[7], ⟨true⟩, 140 * second⟩
    (by rw [hw.1]; exact List.mem_cons_self) rfl
  rw [hw.2, List.mem_singleton, Prod.mk.injEq] at hmem
  rw [hmem.2] at htime
  revert htime
  decide

end Server.Connections
