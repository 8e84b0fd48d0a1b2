import RemoteHub.Connector.SignIns
import RemoteHub.Server.Proof.SignInLimiter

/-!
# How many guesses the connector lets through

As on the server (`RemoteHub.Server.Proof.SignInLimiter`), the attempts under way fit into what is left
of a name's limit, if an attempt passes `locked` only where they leave room for it (`Admits`). Then the
fifth failure is the last one under way, so that nothing is counted while the name is locked and each
round has five failures at most (`Logged`). `failures_bounded` puts both together; without the
condition as many passwords are checked as attempts have passed the question before the first failure
is counted (`guesses_pass_together`).
-/

namespace Connector.SignIns

open Interleave

variable {s s' : Shared} {w w' : World Shared Flight} {k : Nat} {name name' : String} {entry : Attempts}

namespace Shared

variable (s)

/-- The failures that count against the name. -/
def counted (name : String) : Nat :=
  if (s.locked name).isSome then attempts else (s.names.lookup name).elim 0 (·.failures)

/-- How many failures the name has left. -/
def room (name : String) : Nat := attempts - s.counted name

end Shared

/-! ## What `locked` and `failed` do -/

theorem locked_isSome :
    (s.locked name).isSome ↔
      ∃ entry ends, s.names.lookup name = some entry ∧ entry.lockedUntil = some ends ∧
        s.clock ≤ ends := by
  unfold Shared.locked
  cases s.names.lookup name with
  | none => simp
  | some entry =>
    cases hends : entry.lockedUntil with
    | none => simp [hends]
    | some ends => by_cases hle : s.clock ≤ ends <;> simp [hends, hle]

theorem counted_of_not_locked (h : ¬(s.locked name).isSome) :
    s.counted name = (s.names.lookup name).elim 0 (·.failures) := if_neg h

theorem not_locked (h : s.counted name < attempts) : ¬(s.locked name).isSome := by
  intro hlocked
  rw [Shared.counted, if_pos hlocked] at h
  exact Nat.lt_irrefl _ h

theorem of_lookup_retain (h : s.retain.lookup name = some entry) :
    s.names.lookup name = some entry := by
  have hlookup := HashMap.lookup_collect_filter s.names
    (fun entry => ¬(s.clock - entry.last < lockedFor ∨ entry.lockedUntil.any (s.clock < ·))) name
  have hretain : s.retain = .collect (s.names.entries.filterMap fun e =>
      if ¬(s.clock - e.2.last < lockedFor ∨ e.2.lockedUntil.any (s.clock < ·)) then none
      else some (e.1, e.2)) := by
    unfold Shared.retain
    simp only [ite_not]
  rw [← hretain] at hlookup
  rw [hlookup] at h
  exact Option.eq_some_of_filter_eq_some h

/-- What is forgotten counts no more. -/
theorem counted_le (hclock : s'.clock = s.clock)
    (hnames : ∀ entry, s'.names.lookup name = some entry → s.names.lookup name = some entry) :
    s'.counted name ≤ s.counted name := by
  cases hentry : s'.names.lookup name with
  | none =>
    have hnot : ¬(s'.locked name).isSome := by
      intro hlocked
      obtain ⟨entry, ends, hentry', -⟩ := locked_isSome.1 hlocked
      rw [hentry] at hentry'
      cases hentry'
    rw [counted_of_not_locked hnot, hentry]
    exact Nat.zero_le _
  | some entry =>
    have hsame : s'.counted name = s.counted name := by
      unfold Shared.counted Shared.locked
      rw [hentry, hnames entry hentry, hclock]
    exact le_of_eq hsame

/-! ## The log of the failures -/

/-- Each round has as many failures as were counted in it: those of the entry, or five when it was
locked, and then nothing was counted before the lock was over. -/
structure Logged (s : Shared) : Prop where
  bounded : ∀ name n, s.rejected.count (name, n) ≤ attempts
  fresh : ∀ name n, (name, n) ∈ s.rejected → n < s.rounds
  rounds : ∀ name entry, s.names.lookup name = some entry → entry.round < s.rounds
  failures : ∀ name entry, s.names.lookup name = some entry → 0 < entry.failures →
    entry.failures < attempts ∧ s.rejected.count (name, entry.round) = entry.failures ∧
      ∀ ends, entry.lockedUntil = some ends → ends < s.clock
  locked : ∀ name entry, s.names.lookup name = some entry → entry.failures = 0 →
    entry.lockedUntil.isSome

theorem Logged.of_names (hs : Logged s) (hclock : s.clock ≤ s'.clock) (hrounds : s'.rounds = s.rounds)
    (hrejected : s'.rejected = s.rejected)
    (hnames : ∀ name entry, s'.names.lookup name = some entry → s.names.lookup name = some entry) :
    Logged s' := by
  refine ⟨?_, ?_, ?_, ?_, ?_⟩
  · rw [hrejected]
    exact hs.bounded
  · rw [hrejected, hrounds]
    exact hs.fresh
  · intro name entry hentry
    rw [hrounds]
    exact hs.rounds name entry (hnames name entry hentry)
  · intro name entry hentry hpos
    obtain ⟨hlt, hcount, hover⟩ := hs.failures name entry (hnames name entry hentry) hpos
    rw [hrejected]
    exact ⟨hlt, hcount, fun ends hends => lt_of_lt_of_le (hover ends hends) hclock⟩
  · intro name entry hentry
    exact hs.locked name entry (hnames name entry hentry)

/-- The entry that a failure is counted in, where the name is not locked. -/
theorem Logged.entry_ok (hs : Logged s) (hnot : ¬(s.locked name).isSome) :
    (s.entry name).failures < attempts ∧
      s.rejected.count (name, (s.entry name).round) = (s.entry name).failures ∧
      (∀ ends, (s.entry name).lockedUntil = some ends → ends < s.clock) ∧
      (s.entry name).round ≤ s.rounds ∧ (s.entry name).failures ≤ s.counted name := by
  have hnone : s.rejected.count (name, s.rounds) = 0 := by
    refine List.count_eq_zero.2 fun hmem => ?_
    exact Nat.lt_irrefl _ (hs.fresh name s.rounds hmem)
  unfold Shared.entry
  cases hentry : s.retain.lookup name with
  | none =>
    simp only
    exact ⟨by decide, hnone, nofun, le_refl _, Nat.zero_le _⟩
  | some entry =>
    have hfound := of_lookup_retain hentry
    have hover : ∀ ends, entry.lockedUntil = some ends → ends < s.clock := by
      intro ends hends
      by_contra hle
      exact hnot (locked_isSome.2 ⟨entry, ends, hfound, hends, not_lt.1 hle⟩)
    have hcounted : s.counted name = entry.failures := by
      rw [counted_of_not_locked hnot, hfound, Option.elim_some]
    simp only
    rcases Nat.eq_zero_or_pos entry.failures with hzero | hpos
    · -- the lock is over: a new round
      obtain ⟨ends, hends⟩ := Option.isSome_iff_exists.1 (hs.locked name entry hfound hzero)
      have hnew : entry.failures = 0 ∧ entry.lockedUntil.any (· < s.clock) = true := by
        refine ⟨hzero, ?_⟩
        rw [hends]
        exact decide_eq_true (hover ends hends)
      rw [if_pos hnew]
      refine ⟨?_, ?_, hover, le_refl _, ?_⟩
      · rw [hzero]
        decide
      · rw [hnone, hzero]
      · rw [hcounted]
    · obtain ⟨hlt, hcount, -⟩ := hs.failures name entry hfound hpos
      rw [if_neg (fun hnew => absurd hnew.1 (Nat.pos_iff_ne_zero.1 hpos))]
      exact ⟨hlt, hcount, hover, le_of_lt (hs.rounds name entry hfound), by rw [hcounted]⟩

theorem lookup_failed (s : Shared) (name name' : String) :
    (s.failed name).names.lookup name' =
      if name' = name then
        some (if attempts ≤ (s.entry name).failures + 1 then
          ⟨0, s.clock, some (s.clock + lockedFor), (s.entry name).round⟩
        else ⟨(s.entry name).failures + 1, s.clock, (s.entry name).lockedUntil, (s.entry name).round⟩)
      else s.retain.lookup name' := by
  simp only [Shared.failed]
  rw [HashMap.lookup_insert_eq]

theorem Logged.failed (hs : Logged s) (hroom : s.counted name < attempts) :
    Logged (s.failed name) := by
  obtain ⟨hlt, hcount, hover, hround, -⟩ := hs.entry_ok (not_locked hroom)
  have hrejected : (s.failed name).rejected = s.rejected ++ [(name, (s.entry name).round)] := rfl
  have hrounds : s.rounds ≤ (s.failed name).rounds ∧
      (s.entry name).round < (s.failed name).rounds := by
    simp only [Shared.failed]
    split <;> omega
  have hother : ∀ {name' : String} {entry : Attempts}, name' ≠ name →
      (s.failed name).rejected.count (name', entry.round) = s.rejected.count (name', entry.round) := by
    intro name' entry hne
    rw [hrejected, List.count_append, List.count_singleton]
    simp [Ne.symm hne]
  refine ⟨fun name' n => ?_, fun name' n hmem => ?_, fun name' entry hentry => ?_,
    fun name' entry hentry hpos => ?_, fun name' entry hentry hzero => ?_⟩
  · have hold := hs.bounded name' n
    rw [hrejected, List.count_append, List.count_singleton]
    split
    · rename_i heq
      cases beq_iff_eq.1 heq
      omega
    · exact hold
  · rw [hrejected, List.mem_append, List.mem_singleton, Prod.mk.injEq] at hmem
    rcases hmem with hmem | ⟨-, rfl⟩
    · exact lt_of_lt_of_le (hs.fresh name' n hmem) hrounds.1
    · exact hrounds.2
  · rw [lookup_failed] at hentry
    split at hentry
    · cases hentry
      split
      · exact hrounds.2
      · exact hrounds.2
    · exact lt_of_lt_of_le (hs.rounds name' entry (of_lookup_retain hentry)) hrounds.1
  · rw [lookup_failed] at hentry
    split at hentry
    · subst name'
      cases hentry
      split at hpos
      · exact absurd hpos (Nat.lt_irrefl 0)
      · rename_i hfew
        rw [if_neg hfew, hrejected, List.count_append, List.count_singleton_self]
        exact ⟨not_le.1 hfew, by rw [hcount], hover⟩
    · rename_i hne
      rw [hother hne]
      exact hs.failures name' entry (of_lookup_retain hentry) hpos
  · rw [lookup_failed] at hentry
    split at hentry
    · cases hentry
      split
      · rfl
      · rename_i hfew
        rw [if_neg hfew] at hzero
        cases hzero
    · exact hs.locked name' entry (of_lookup_retain hentry) hzero

theorem counted_failed (hs : Logged s) (hroom : s.counted name < attempts) (name' : String) :
    (s.failed name).counted name' ≤ s.counted name' + (decide (name' = name)).toNat := by
  by_cases heq : name' = name
  · subst heq
    obtain ⟨-, -, hover, -, hle⟩ := hs.entry_ok (not_locked hroom)
    have hlookup := lookup_failed s name' name'
    rw [if_pos rfl] at hlookup
    simp only [decide_true, Bool.toNat_true]
    by_cases hfifth : attempts ≤ (s.entry name').failures + 1
    · have hmost : (s.failed name').counted name' ≤ attempts := by
        unfold Shared.counted
        rw [hlookup, if_pos hfifth]
        split
        · exact le_refl _
        · exact Nat.zero_le _
      omega
    · rw [if_neg hfifth] at hlookup
      have hnot : ¬((s.failed name').locked name').isSome := by
        intro hlocked
        obtain ⟨entry, ends, hentry, hends, htime⟩ := locked_isSome.1 hlocked
        rw [hlookup] at hentry
        cases hentry
        exact absurd (hover ends hends) (not_lt.2 htime)
      rw [counted_of_not_locked hnot, hlookup, Option.elim_some]
      exact Nat.succ_le_succ hle
  · have hle : (s.failed name).counted name' ≤ s.counted name' := by
      refine counted_le rfl fun entry hentry => ?_
      rw [lookup_failed, if_neg heq] at hentry
      exact of_lookup_retain hentry
    exact le_trans hle (Nat.le_add_right _ _)

/-! ## Runs -/

/-- An attempt passes `locked` only if the failures counted and the attempts under way stay below the
limit of its name. -/
def Flight.Admitted (w : World Shared Flight) (k : Nat) : Flight → Prop
  | .signIn name _ => k ∈ w.shared.cancelled ∨ (w.shared.locked (Text.trim name)).isSome ∨
      w.shared.counted (Text.trim name) + w.underWay (Flight.holds · (Text.trim name)) < attempts
  | _ => True

def Admits (w : World Shared Flight) : Event Flight Outside → Prop
  | .next k => ∀ f ∈ w.flights.lookup k, f.Admitted w k
  | _ => True

instance (w : World Shared Flight) (k : Nat) (f : Flight) : Decidable (f.Admitted w k) :=
  match f with
  | .signIn name _ => inferInstanceAs (Decidable (k ∈ w.shared.cancelled ∨
      (w.shared.locked (Text.trim name)).isSome ∨
      w.shared.counted (Text.trim name) + w.underWay (Flight.holds · (Text.trim name)) < attempts))
  | .waiting .. | .verifying .. | .checked .. => .isTrue trivial

instance (w : World Shared Flight) (ev : Event Flight Outside) : Decidable (Admits w ev) :=
  match ev with
  | .next k => inferInstanceAs (Decidable (∀ f ∈ w.flights.lookup k, f.Admitted w k))
  | .start .. | .outside _ => .isTrue trivial

/-- No round has more failures than the limit, and no password is verified while its name is
locked. -/
def Bounded (w : World Shared Flight) : Prop :=
  (∀ name n, w.shared.rejected.count (name, n) ≤ attempts) ∧
    ∀ k name right, w.flights.lookup k = some (.verifying name right) → w.shared.locked name = none

/-- The attempts under way fit into what is left. -/
structure Held (w : World Shared Flight) : Prop where
  logged : Logged w.shared
  room : ∀ name, w.underWay (Flight.holds · name) ≤ w.shared.room name

theorem Held.counted_lt {f : Flight} (hw : Held w) (hf : w.flights.lookup k = some f)
    (hholds : f.holds name = true) : w.shared.counted name < attempts := by
  have hpos := underWay_pos (p := (Flight.holds · name)) hf hholds
  have hroom := hw.room name
  unfold Shared.room at hroom
  omega

theorem Held.bounded (hw : Held w) : Bounded w := by
  refine ⟨hw.logged.bounded, fun k name right hf => ?_⟩
  have hholds : (Flight.verifying name right).holds name = true := by simp [Flight.holds]
  exact Option.not_isSome_iff_eq_none.1 (not_locked (hw.counted_lt hf hholds))

theorem room_of_counted {s s' : Shared} {n : Nat} (h : s'.counted name ≤ s.counted name + n) :
    s.room name ≤ s'.room name + n := by
  unfold Shared.room
  omega

theorem Logged.counted_le (hs : Logged s) (name : String) : s.counted name ≤ attempts := by
  unfold Shared.counted
  split
  · exact le_refl _
  · cases hentry : s.names.lookup name with
    | none => exact Nat.zero_le _
    | some entry =>
      rcases Nat.eq_zero_or_pos entry.failures with hzero | hpos
      · rw [Option.elim_some, hzero]
        exact Nat.zero_le _
      · exact le_of_lt (hs.failures name entry hentry hpos).1

theorem Logged.tick {clock : Int} (hs : Logged s) (hclock : s.clock ≤ clock) :
    Logged { s with clock } := hs.of_names hclock rfl rfl fun _ _ h => h

theorem counted_tick {clock : Int} (hs : Logged s) (hclock : s.clock ≤ clock) (name : String) :
    { s with clock }.counted name ≤ s.counted name := by
  by_cases hlocked : (s.locked name).isSome
  · have hmost : s.counted name = attempts := if_pos hlocked
    rw [hmost]
    exact (hs.tick hclock).counted_le name
  · have hnot : ¬({ s with clock }.locked name).isSome := by
      intro hlater
      obtain ⟨entry, ends, hentry, hends, htime⟩ := locked_isSome.1 hlater
      exact hlocked (locked_isSome.2 ⟨entry, ends, hentry, hends, le_trans hclock htime⟩)
    rw [counted_of_not_locked hnot, counted_of_not_locked hlocked]

/-- What an attempt's step does: one that is to pass takes a place, and the failure it counts takes
its own. -/
theorem held_next {f : Flight} {s : Shared} {o : Option Flight} (hw : Held w)
    (hC : f.Admitted w k) (hf : w.flights.lookup k = some f)
    (hn : f.next k w.shared = some (s, o)) :
    Logged s ∧ ∀ name,
      (f.holds name = false ∧ w.underWay (Flight.holds · name) + 1 ≤ s.room name) ∨
        places Flight.holds o name + w.shared.room name ≤
          s.room name + (f.holds name).toNat := by
  have hturns : ∀ turns, Logged { w.shared with turns } :=
    fun turns => hw.logged.of_names (le_refl _) rfl rfl fun _ _ h => h
  have hover : ∀ name, places Flight.holds none name + w.shared.room name ≤
      w.shared.room name + (f.holds name).toNat := by
    intro name
    simp only [places, Option.elim_none]
    omega
  unfold Flight.next at hn
  split at hn
  · split at hn
    · cases hn
      exact ⟨hturns _, fun name => .inr (hover name)⟩
    · cases hn
      exact ⟨hw.logged, fun name => .inr (hover name)⟩
  · rename_i hgoes
    cases f with
    | signIn name right =>
      simp only at hn
      split at hn
      · cases hn
        exact ⟨hw.logged, fun name => .inr (hover name)⟩
      · rename_i hlocked
        cases hn
        refine ⟨hw.logged, fun name' => ?_⟩
        have hroom := (hC.resolve_left hgoes).resolve_left hlocked
        by_cases heq : name' = Text.trim name
        · subst heq
          refine .inl ⟨rfl, ?_⟩
          unfold Shared.room
          omega
        · refine .inr ?_
          simp [places, Flight.holds, heq]
    | waiting name right =>
      simp only at hn
      split at hn
      · cases hn
      · cases hn
        refine ⟨hturns _, fun name' => .inr (le_of_eq ?_)⟩
        exact Nat.add_comm _ _
    | verifying name right =>
      cases hn
      refine ⟨hturns _, fun name' => .inr (le_of_eq ?_)⟩
      exact Nat.add_comm _ _
    | checked name right =>
      simp only at hn
      split at hn
      · cases hn
        have hnames : ∀ name' entry, (w.shared.names.erase name).lookup name' = some entry →
            w.shared.names.lookup name' = some entry :=
          fun _ _ h => (HashMap.of_lookup_erase h).2
        refine ⟨hw.logged.of_names (le_refl _) rfl rfl hnames, fun name' => .inr ?_⟩
        rw [places, Option.elim_none, Nat.zero_add]
        refine le_trans ?_ (Nat.le_add_right _ _)
        exact room_of_counted (n := 0) (counted_le rfl (hnames name'))
      · cases hn
        have hholds : (Flight.checked name right).holds name = true := by simp [Flight.holds]
        have hlt := hw.counted_lt hf hholds
        refine ⟨hw.logged.failed hlt, fun name' => .inr ?_⟩
        have hroom := room_of_counted (counted_failed hw.logged hlt name')
        simp only [places, Option.elim_none, Flight.holds]
        omega

theorem held_step {ev : Event Flight Outside} (hw : Held w) (hC : Admits w ev)
    (hs : step system w ev = some w') : Held w' := by
  have houtside : ∀ e s, system.outside w.shared e = some s →
      Logged s ∧ ∀ name, w.shared.room name ≤ s.room name := by
    intro e s ho
    cases e with
    | tick clock =>
      simp only [system, Shared.outside] at ho
      split at ho
      · cases ho
        exact ⟨hw.logged.tick ‹_›, fun name =>
          room_of_counted (n := 0) (counted_tick hw.logged ‹_› name)⟩
      · cases ho
    | cancel k =>
      cases ho
      exact ⟨hw.logged.of_names (le_refl _) rfl rfl fun _ _ h => h, fun name => le_refl _⟩
  have hlogged : Logged w'.shared := by
    rcases step_cases hs with ⟨k, f, rfl, -, -, rfl⟩ | ⟨k, f, s, o, rfl, hf, hn, rfl⟩ |
      ⟨e, s, rfl, ho, rfl⟩
    · exact hw.logged
    · exact (held_next hw (hC f hf) hf hn).1
    · exact (houtside e s ho).1
  refine ⟨hlogged, underWay_le_room hw.room hs ?_ ?_ ?_⟩
  · intro f name hf
    cases f with
    | signIn name right => rfl
    | _ => cases hf
  · intro k f s o he hf hn
    subst he
    exact (held_next hw (hC f hf) hf hn).2
  · intro e s _ ho
    exact (houtside e s ho).2

/-- Over every interleaving that admits attempts only where there is room for them. -/
theorem bounded_run {clock : Int} {es : List (Event Flight Outside)}
    (hr : Run.run (step system) (World.quiet { clock }) es = some w)
    (hm : Run.Meets (step system) Admits (World.quiet { clock }) es) : Bounded w := by
  have hstart : Held (World.quiet { clock }) := by
    refine ⟨⟨?_, ?_, ?_, ?_, ?_⟩, ?_⟩
    · intro name n
      exact Nat.zero_le _
    · intro name n hmem
      cases hmem
    · intro name entry hentry
      cases hentry
    · intro name entry hentry
      cases hentry
    · intro name entry hentry
      cases hentry
    · intro name
      exact Nat.zero_le _
  have hw : Held w := Run.inv_of_meets (I := fun _ w => Held w) hstart
    (fun _ _ _ _ _ hC hs ht => held_step ht hC hs) hm hr
  exact hw.bounded

/-- **Guesses are bounded** on the server, for a user name and for an address, and at the connector: at
most as many passwords are rejected in one window as its limit says, and none is verified while it is
used up, as long as the attempts under way fit into what is left. -/
theorem failures_bounded (config : Server.SignInLimiter.Config) (clock : Int) :
    (∀ es w, Run.run (step (Server.SignInLimiter.system config)) (World.quiet { clock }) es = some w →
      Run.Meets (step (Server.SignInLimiter.system config)) (Server.SignInLimiter.Admits config)
        (World.quiet { clock }) es →
      Server.SignInLimiter.Bounded config w) ∧
    ∀ es w, Run.run (step system) (World.quiet { clock }) es = some w →
      Run.Meets (step system) Admits (World.quiet { clock }) es → Bounded w :=
  ⟨fun _ _ hr hm => Server.SignInLimiter.bounded_run hr hm, fun _ _ hr hm => bounded_run hr hm⟩

/-- The server's limiter. -/
def fiveMinutes : Server.SignInLimiter.Config where
  lower := Text.toAsciiLowercase
  window := 5 * 60 * second

/-- A wrong password on the server. -/
def serverGuess : Server.SignInLimiter.Flight :=
  .signIn ⟨some "alice", "10.0.0.1", .rejected⟩

/-- A wrong password at the connector. -/
def guess : Flight := .signIn "alice" false

/-- One attempt after another. -/
def inTurn {φ ε : Type} (f : φ) (steps n : Nat) : List (Event φ ε) :=
  (List.range n).flatMap fun k => .start k f :: List.replicate steps (.next k)

/-- All attempts pass the question, then they go on. -/
def together {φ ε : Type} (f : φ) (steps n : Nat) : List (Event φ ε) :=
  (List.range n).flatMap (fun k => [.start k f, .next k]) ++
    (List.range n).flatMap fun k => List.replicate steps (.next k)

theorem failures_bounded_in_turn :
    (∃ w, Run.run (step (Server.SignInLimiter.system fiveMinutes)) (World.quiet { clock := 0 })
        (inTurn serverGuess 2 5) = some w ∧
      w.shared.rejected.count (⟨.user, "alice"⟩, 0) = 5 ∧
      Server.SignInLimiter.Bounded fiveMinutes w) ∧
    ∃ w, Run.run (step system) (World.quiet { clock := 0 }) (inTurn guess 4 5) = some w ∧
      w.shared.rejected.count ("alice", 0) = 5 ∧ Bounded w := by
  have hserver : (Run.run (step (Server.SignInLimiter.system fiveMinutes)) (World.quiet { clock := 0 })
      (inTurn serverGuess 2 5)).map (fun w => w.shared.rejected.count (⟨.user, "alice"⟩, 0)) =
      some 5 := by decide
  have hconnector : (Run.run (step system) (World.quiet { clock := 0 }) (inTurn guess 4 5)).map
      (fun w => w.shared.rejected.count ("alice", 0)) = some 5 := by decide
  obtain ⟨w, hr, hcount⟩ := Option.map_eq_some_iff.1 hserver
  obtain ⟨w', hr', hcount'⟩ := Option.map_eq_some_iff.1 hconnector
  exact ⟨⟨w, hr, hcount, (failures_bounded fiveMinutes 0).1 _ w hr (by decide)⟩,
    w', hr', hcount', (failures_bounded fiveMinutes 0).2 _ w' hr' (by decide)⟩

/-- Six passwords are checked, where five may fail. -/
theorem guesses_pass_together :
    (¬∀ es w, Run.run (step (Server.SignInLimiter.system fiveMinutes)) (World.quiet { clock := 0 }) es =
        some w → Server.SignInLimiter.Bounded fiveMinutes w) ∧
    ¬∀ es w, Run.run (step system) (World.quiet { clock := 0 }) es = some w → Bounded w := by
  refine ⟨fun hall => ?_, fun hall => ?_⟩
  · have hrun : (Run.run (step (Server.SignInLimiter.system fiveMinutes)) (World.quiet { clock := 0 })
        (together serverGuess 1 6)).map (fun w => w.shared.rejected.count (⟨.user, "alice"⟩, 0)) =
        some 6 := by decide
    obtain ⟨w, hr, hcount⟩ := Option.map_eq_some_iff.1 hrun
    have hfive := (hall _ w hr).1 ⟨.user, "alice"⟩ 0
    rw [hcount] at hfive
    exact absurd hfive (by decide)
  · have hrun : (Run.run (step system) (World.quiet { clock := 0 }) (together guess 3 6)).map
        (fun w => w.shared.rejected.count ("alice", 0)) = some 6 := by decide
    obtain ⟨w, hr, hcount⟩ := Option.map_eq_some_iff.1 hrun
    have hfive := (hall _ w hr).1 "alice" 0
    rw [hcount] at hfive
    exact absurd hfive (by decide)

end Connector.SignIns
