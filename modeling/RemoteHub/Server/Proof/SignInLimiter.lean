import RemoteHub.Server.SignInLimiter

/-!
# How many guesses the limiter lets through

`Shared.counted` are the failures that count against a key now, and `Shared.room` is what is left of
its limit. As long as an attempt passes `check` only where the attempts under way leave room for it
(`Admits`), those under way fit into the room of each key (`Held`), so that no window has more failures
than its limit (`Logged`) and no password is verified while a window is full. `check` itself does not
see the attempts under way.
-/

namespace Server.SignInLimiter

open Interleave

variable {config : Config} {s s' : Shared} {w w' : World Shared Flight} {k : Nat} {key key' : Key}
  {keys : List Key} {a : Attempt}

namespace Shared

variable (config) (s)

/-- The window of the key that is not over. -/
def current (key : Key) : Option Window :=
  (s.windows.lookup key).filter fun window => s.clock - window.since < config.window

/-- The failures that count against the key. -/
def counted (key : Key) : Nat := (s.current config key).elim 0 (·.failures)

/-- How many failures the key has left. -/
def room (key : Key) : Nat := key.kind.maxFailures - s.counted config key

end Shared

/-! ## What the limiter's functions do to the windows -/

theorem current_eq_some {window : Window} :
    s.current config key = some window ↔
      s.windows.lookup key = some window ∧ s.clock - window.since < config.window := by
  unfold Shared.current
  rw [Option.filter_eq_some_iff, decide_eq_true_iff]

theorem not_full {window : Window} (hroom : s.counted config key < key.kind.maxFailures)
    (hwindow : s.windows.lookup key = some window) : ¬s.Full config key window := by
  intro hfull
  have hcurrent := current_eq_some.2 ⟨hwindow, hfull.1⟩
  have hfailures := hfull.2
  rw [Shared.counted, hcurrent, Option.elim_some] at hroom
  omega

theorem lookup_retain_of_some {window : Window} (h : (s.retain config).lookup key = some window) :
    s.windows.lookup key = some window := by
  unfold Shared.retain at h
  split at h
  · have hlookup := HashMap.lookup_collect_filter s.windows
      (fun window => config.window ≤ s.clock - window.since) key
    rw [hlookup] at h
    exact Option.eq_some_of_filter_eq_some h
  · exact h

theorem current_retain (config : Config) (s : Shared) (key : Key) :
    { s with windows := s.retain config }.current config key = s.current config key := by
  unfold Shared.current Shared.retain
  simp only
  split
  · have hlookup := HashMap.lookup_collect_filter s.windows
      (fun window => config.window ≤ s.clock - window.since) key
    rw [hlookup]
    cases s.windows.lookup key with
    | none => rfl
    | some window =>
      by_cases hover : config.window ≤ s.clock - window.since
      · simp [Option.filter, hover]
      · simp [Option.filter, hover]
  · rfl

/-- The window that a failure is counted in. -/
theorem lookup_count (config : Config) (s : Shared) (key key' : Key) :
    (s.count config key').windows.lookup key =
      if key = key' then
        some ((s.current config key').elim ⟨1, s.clock, s.opened⟩
          fun window => { window with failures := (window.failures + 1) % 2 ^ 32 })
      else s.windows.lookup key := by
  unfold Shared.count
  rw [← Shared.current]
  cases s.current config key' with
  | none => exact HashMap.lookup_insert_eq ..
  | some window => exact HashMap.lookup_insert_eq ..

@[simp] theorem count_clock : (s.count config key).clock = s.clock := by
  unfold Shared.count
  split <;> rfl

theorem counted_count (config : Config) (s : Shared) (key key' : Key) :
    (s.count config key').counted config key ≤ s.counted config key + [key'].count key := by
  unfold Shared.counted
  by_cases heq : key = key'
  · subst heq
    rw [List.count_singleton_self]
    cases hcurrent : (s.count config key).current config key with
    | none => exact Nat.zero_le _
    | some window =>
      rw [current_eq_some, lookup_count, if_pos rfl] at hcurrent
      have hwindow := Option.some.inj hcurrent.1
      rw [Option.elim_some, ← hwindow]
      cases s.current config key with
      | none => exact le_refl _
      | some window => exact Nat.mod_le _ _
  · have hsame : (s.count config key').current config key = s.current config key := by
      unfold Shared.current
      rw [lookup_count, if_neg heq, count_clock]
    rw [hsame]
    exact Nat.le_add_right _ _

theorem counted_foldl (config : Config) (s : Shared) (keys : List Key) (key : Key) :
    (keys.foldl (fun s key => s.count config key) s).counted config key ≤
      s.counted config key + keys.count key := by
  induction keys generalizing s with
  | nil => exact le_refl _
  | cons key' keys ih =>
    have hone := counted_count config s key key'
    have hrest := ih (s.count config key')
    rw [List.foldl_cons, List.count_cons]
    rw [List.count_singleton] at hone
    omega

theorem counted_failed (config : Config) (s : Shared) (keys : List Key) (key : Key) :
    (s.failed config keys).counted config key ≤ s.counted config key + keys.count key := by
  have hcount := counted_foldl config { s with windows := s.retain config } keys key
  have hretain : { s with windows := s.retain config }.counted config key = s.counted config key := by
    unfold Shared.counted
    rw [current_retain]
  rw [hretain] at hcount
  exact hcount

theorem counted_succeeded (config : Config) (s : Shared) (user : String) (key : Key) :
    (s.succeeded config user).counted config key ≤ s.counted config key := by
  unfold Shared.counted
  cases hcurrent : (s.succeeded config user).current config key with
  | none => exact Nat.zero_le _
  | some window =>
    obtain ⟨hlookup, htime⟩ := current_eq_some.1 hcurrent
    rw [current_eq_some.2 ⟨(HashMap.of_lookup_erase hlookup).2, htime⟩]

theorem keys_nodup (config : Config) (a : Attempt) : (a.keys config).Nodup := by
  unfold Attempt.keys Config.key
  cases a.user with
  | none => simp
  | some user => simp

/-! ## The log of the failures -/

/-- Each window has as many failures as were counted in it, and none more than its limit. -/
structure Logged (s : Shared) : Prop where
  bounded : ∀ key n, s.rejected.count (key, n) ≤ key.kind.maxFailures
  windows : ∀ key window, s.windows.lookup key = some window →
    s.rejected.count (key, window.number) = window.failures ∧ window.number < s.opened
  fresh : ∀ key n, (key, n) ∈ s.rejected → n < s.opened

theorem maxFailures_lt (kind : Kind) : kind.maxFailures < 2 ^ 32 := by
  cases kind <;> decide

theorem maxFailures_pos (kind : Kind) : 0 < kind.maxFailures := by
  cases kind <;> decide

theorem Logged.retain (hs : Logged s) : Logged { s with windows := s.retain config } :=
  ⟨hs.bounded, fun key window h => hs.windows key window (lookup_retain_of_some h), hs.fresh⟩

/-- A failure is counted in `window`. -/
theorem Logged.add {window : Window} (hs : Logged s)
    (hcount : s.rejected.count (key, window.number) + 1 = window.failures)
    (hroom : window.failures ≤ key.kind.maxFailures) (hnumber : window.number < s'.opened)
    (hopened : s.opened ≤ s'.opened) (hrejected : s'.rejected = s.rejected ++ [(key, window.number)])
    (hlookup : ∀ key', s'.windows.lookup key' =
      if key' = key then some window else s.windows.lookup key') : Logged s' := by
  refine ⟨fun key' n => ?_, fun key' window' hwindow' => ?_, fun key' n hmem => ?_⟩
  · have hold := hs.bounded key' n
    rw [hrejected, List.count_append, List.count_singleton]
    split
    · rename_i heq
      cases beq_iff_eq.1 heq
      omega
    · exact hold
  · rw [hlookup] at hwindow'
    rw [hrejected, List.count_append]
    split at hwindow'
    · subst key'
      cases hwindow'
      rw [List.count_singleton_self]
      exact ⟨hcount, hnumber⟩
    · rename_i hne
      obtain ⟨hother, hnumber'⟩ := hs.windows key' window' hwindow'
      refine ⟨?_, lt_of_lt_of_le hnumber' hopened⟩
      simpa [Ne.symm hne] using hother
  · rw [hrejected, List.mem_append, List.mem_singleton, Prod.mk.injEq] at hmem
    rcases hmem with hmem | ⟨-, rfl⟩
    · exact lt_of_lt_of_le (hs.fresh key' n hmem) hopened
    · exact hnumber

theorem Logged.count (hs : Logged s) (hroom : s.counted config key < key.kind.maxFailures) :
    Logged (s.count config key) := by
  have hlookup := fun key' => lookup_count config s key' key
  cases hcurrent : s.current config key with
  | some window =>
    obtain ⟨hcount, hnumber⟩ := hs.windows key window (current_eq_some.1 hcurrent).1
    rw [Shared.counted, hcurrent, Option.elim_some] at hroom
    have hs' : s.count config key =
        { s with
          windows := s.windows.insert key { window with failures := (window.failures + 1) % 2 ^ 32 }
          rejected := s.rejected ++ [(key, window.number)] } := by
      unfold Shared.count
      rw [← Shared.current, hcurrent]
    simp only [hcurrent, Option.elim_some] at hlookup
    have hsmall : (window.failures + 1) % 2 ^ 32 = window.failures + 1 :=
      Nat.mod_eq_of_lt (by have := maxFailures_lt key.kind; omega)
    refine hs.add ?_ ?_ ?_ ?_ ?_ hlookup
    · rw [hcount, hsmall]
    · rw [hsmall]
      exact hroom
    · rw [hs']
      exact hnumber
    · rw [hs']
    · rw [hs']
  | none =>
    have hs' : s.count config key =
        { s with
          windows := s.windows.insert key ⟨1, s.clock, s.opened⟩
          opened := s.opened + 1
          rejected := s.rejected ++ [(key, s.opened)] } := by
      unfold Shared.count
      rw [← Shared.current, hcurrent]
    simp only [hcurrent, Option.elim_none] at hlookup
    refine hs.add ?_ ?_ ?_ ?_ ?_ hlookup
    · -- nothing was counted in the new window yet
      have hnone : s.rejected.count (key, s.opened) = 0 := by
        refine List.count_eq_zero.2 fun hmem => ?_
        exact Nat.lt_irrefl _ (hs.fresh key s.opened hmem)
      rw [hnone]
    · exact maxFailures_pos key.kind
    · rw [hs']
      exact Nat.lt_succ_self _
    · rw [hs']
      exact Nat.le_succ _
    · rw [hs']

theorem Logged.foldl (hs : Logged s) (hnodup : keys.Nodup)
    (hroom : ∀ key ∈ keys, s.counted config key < key.kind.maxFailures) :
    Logged (keys.foldl (fun s key => s.count config key) s) := by
  induction keys generalizing s with
  | nil => exact hs
  | cons key keys ih =>
    obtain ⟨hnot, hnodup⟩ := List.nodup_cons.1 hnodup
    rw [List.foldl_cons]
    refine ih (hs.count (hroom key List.mem_cons_self)) hnodup fun key' hmem => ?_
    have hother := counted_count config s key' key
    have hzero : [key].count key' = 0 := by
      refine List.count_eq_zero.2 fun heq => hnot ?_
      rw [← List.mem_singleton.1 heq]
      exact hmem
    exact lt_of_le_of_lt (by omega) (hroom key' (List.mem_cons_of_mem _ hmem))

theorem Logged.failed (hs : Logged s) (hnodup : keys.Nodup)
    (hroom : ∀ key ∈ keys, s.counted config key < key.kind.maxFailures) :
    Logged (s.failed config keys) := by
  refine Logged.foldl hs.retain hnodup fun key hmem => ?_
  rw [Shared.counted, current_retain]
  exact hroom key hmem

theorem Logged.succeeded (hs : Logged s) (user : String) : Logged (s.succeeded config user) :=
  ⟨hs.bounded, fun key window h => hs.windows key window (HashMap.of_lookup_erase h).2, hs.fresh⟩

/-! ## Runs -/

/-- An attempt passes `check` only if the failures counted and the attempts under way stay below the
limit, for its user name and for its address. -/
def Flight.Admitted (config : Config) (w : World Shared Flight) (k : Nat) : Flight → Prop
  | .signIn a => k ∈ w.shared.cancelled ∨ (w.shared.check config (a.keys config)).isSome ∨
      ∀ key ∈ a.keys config,
        w.shared.counted config key + w.underWay (Flight.holds config · key) < key.kind.maxFailures
  | _ => True

def Admits (config : Config) (w : World Shared Flight) : Interleave.Event Flight Outside → Prop
  | .next k => ∀ f ∈ w.flights.lookup k, f.Admitted config w k
  | _ => True

instance (w : World Shared Flight) (k : Nat) (f : Flight) : Decidable (f.Admitted config w k) :=
  match f with
  | .signIn a => inferInstanceAs (Decidable (k ∈ w.shared.cancelled ∨
      (w.shared.check config (a.keys config)).isSome ∨ ∀ key ∈ a.keys config,
        w.shared.counted config key + w.underWay (Flight.holds config · key) <
          key.kind.maxFailures))
  | .checked _ | .identified .. => .isTrue trivial

instance (w : World Shared Flight) (ev : Interleave.Event Flight Outside) :
    Decidable (Admits config w ev) :=
  match ev with
  | .next k => inferInstanceAs (Decidable (∀ f ∈ w.flights.lookup k, f.Admitted config w k))
  | .start .. | .outside _ => .isTrue trivial

/-- No window has more failures than its limit, and no password is verified while a window of its
attempt is full. -/
def Bounded (config : Config) (w : World Shared Flight) : Prop :=
  (∀ key n, w.shared.rejected.count (key, n) ≤ key.kind.maxFailures) ∧
    ∀ k a, w.flights.lookup k = some (.checked a) → ∀ key ∈ a.keys config,
      ∀ window, w.shared.windows.lookup key = some window → ¬w.shared.Full config key window

/-- The attempts under way fit into what is left. -/
structure Held (config : Config) (w : World Shared Flight) : Prop where
  logged : Logged w.shared
  room : ∀ key, w.underWay (Flight.holds config · key) ≤ w.shared.room config key

theorem Held.counted_lt {f : Flight} (hw : Held config w) (hf : w.flights.lookup k = some f)
    (hholds : f.holds config key = true) :
    w.shared.counted config key < key.kind.maxFailures := by
  have hpos := underWay_pos (p := (Flight.holds config · key)) hf hholds
  have hroom := hw.room key
  unfold Shared.room at hroom
  omega

theorem Held.bounded (hw : Held config w) : Bounded config w := by
  refine ⟨hw.logged.bounded, fun k a hf key hmem window hwindow => ?_⟩
  exact not_full (hw.counted_lt hf (by simpa [Flight.holds] using hmem)) hwindow

theorem room_failed (config : Config) (s : Shared) (a : Attempt) (key : Key) :
    s.room config key ≤
      (s.failed config (a.keys config)).room config key + (decide (key ∈ a.keys config)).toNat := by
  have hcount := counted_failed config s (a.keys config) key
  unfold Shared.room
  by_cases hmem : key ∈ a.keys config
  · have hone := List.nodup_iff_count_le_one.1 (keys_nodup config a) key
    simp only [hmem, decide_true, Bool.toNat_true]
    omega
  · have hzero := List.count_eq_zero.2 hmem
    omega

theorem room_succeeded (config : Config) (s : Shared) (user : String) (key : Key) :
    s.room config key ≤ (s.succeeded config user).room config key := by
  have hcount := counted_succeeded config s user key
  unfold Shared.room
  omega

theorem room_tick {clock : Int} (hclock : s.clock ≤ clock) (key : Key) :
    s.room config key ≤ { s with clock }.room config key := by
  have hcount : { s with clock }.counted config key ≤ s.counted config key := by
    unfold Shared.counted
    cases hcurrent : { s with clock }.current config key with
    | none => exact Nat.zero_le _
    | some window =>
      obtain ⟨hlookup, htime⟩ := current_eq_some.1 hcurrent
      have htime' : s.clock - window.since < config.window := by
        simp only at htime
        omega
      have hcurrent' : s.current config key = some window := current_eq_some.2 ⟨hlookup, htime'⟩
      rw [hcurrent']
  unfold Shared.room
  omega

/-- What an attempt's step does: one that is to pass takes a place, and the failures it counts take
its own. -/
theorem held_next {f : Flight} {s : Shared} {o : Option Flight} (hw : Held config w)
    (hC : f.Admitted config w k) (hf : w.flights.lookup k = some f)
    (hn : f.next config k w.shared = some (s, o)) :
    Logged s ∧ ∀ key,
      (f.holds config key = false ∧
          w.underWay (Flight.holds config · key) + 1 ≤ s.room config key) ∨
        places (Flight.holds config) o key + w.shared.room config key ≤
          s.room config key + (f.holds config key).toNat := by
  have hover : ∀ key, places (Flight.holds config) none key + w.shared.room config key ≤
      w.shared.room config key + (f.holds config key).toNat := by
    intro key
    simp only [places, Option.elim_none]
    omega
  have hfailed : ∀ a : Attempt, (∀ key, f.holds config key = decide (key ∈ a.keys config)) →
      Logged (w.shared.failed config (a.keys config)) ∧ ∀ key,
        places (Flight.holds config) none key + w.shared.room config key ≤
          (w.shared.failed config (a.keys config)).room config key +
            (f.holds config key).toNat := by
    intro a hholds
    refine ⟨hw.logged.failed (keys_nodup config a) fun key hmem => ?_, fun key => ?_⟩
    · exact hw.counted_lt hf (by rw [hholds]; exact decide_eq_true hmem)
    · have hroom := room_failed config w.shared a key
      rw [hholds]
      simp only [places, Option.elim_none]
      omega
  unfold Flight.next at hn
  split at hn
  · cases hn
    exact ⟨hw.logged, fun key => .inr (hover key)⟩
  · rename_i hgoes
    cases f with
    | signIn a =>
      simp only at hn
      split at hn
      · cases hn
        exact ⟨hw.logged, fun key => .inr (hover key)⟩
      · rename_i hcheck
        cases hn
        refine ⟨hw.logged, fun key => ?_⟩
        have hroom := (hC.resolve_left hgoes).resolve_left (by rw [hcheck]; simp)
        by_cases hmem : key ∈ a.keys config
        · refine .inl ⟨rfl, ?_⟩
          have hkey := hroom key hmem
          unfold Shared.room
          omega
        · refine .inr ?_
          simp [places, Flight.holds, hmem]
    | checked a =>
      simp only at hn
      split at hn
      · cases hn
        obtain ⟨hlogged, hroom⟩ := hfailed a fun _ => rfl
        exact ⟨hlogged, fun key => .inr (hroom key)⟩
      · cases hn
        exact ⟨hw.logged, fun key => .inr (hover key)⟩
      · cases hn
        refine ⟨hw.logged, fun key => .inr ?_⟩
        simp only [places, Option.elim_some, Flight.holds]
        omega
    | identified a second =>
      simp only at hn
      split at hn
      · rename_i failed
        cases hn
        cases failed with
        | true =>
          obtain ⟨hlogged, hroom⟩ := hfailed a fun _ => rfl
          exact ⟨hlogged, fun key => .inr (hroom key)⟩
        | false => exact ⟨hw.logged, fun key => .inr (hover key)⟩
      · cases hn
        cases a.user with
        | none => exact ⟨hw.logged, fun key => .inr (hover key)⟩
        | some user =>
          refine ⟨hw.logged.succeeded user, fun key => .inr ?_⟩
          have hroom := room_succeeded config w.shared user key
          simp only [places, Option.elim_none, Option.map_some, Option.getD_some]
          omega

theorem held_step {ev : Interleave.Event Flight Outside} (hw : Held config w) (hC : Admits config w ev)
    (hs : step (system config) w ev = some w') : Held config w' := by
  have hlogged : Logged w'.shared := by
    rcases step_cases hs with ⟨k, f, rfl, -, -, rfl⟩ | ⟨k, f, s, o, rfl, hf, hn, rfl⟩ |
      ⟨e, s, rfl, ho, rfl⟩
    · exact hw.logged
    · exact (held_next hw (hC f hf) hf hn).1
    · cases e with
      | tick clock =>
        simp only [system, Shared.outside] at ho
        split at ho
        · cases ho
          exact ⟨hw.logged.bounded, hw.logged.windows, hw.logged.fresh⟩
        · cases ho
      | cancel k =>
        cases ho
        exact ⟨hw.logged.bounded, hw.logged.windows, hw.logged.fresh⟩
  refine ⟨hlogged, underWay_le_room hw.room hs ?_ ?_ ?_⟩
  · intro f key hf
    cases f with
    | signIn a => rfl
    | _ => cases hf
  · intro k f s o he hf hn
    subst he
    exact (held_next hw (hC f hf) hf hn).2
  · intro e s he ho key
    subst he
    cases e with
    | tick clock =>
      simp only [system, Shared.outside] at ho
      split at ho
      · cases ho
        exact room_tick ‹_› key
      · cases ho
    | cancel k =>
      cases ho
      exact le_refl _

/-- Over every interleaving that admits attempts only where there is room for them. -/
theorem bounded_run {clock : Int} {es : List (Interleave.Event Flight Outside)}
    (hr : Run.run (step (system config)) (World.quiet { clock }) es = some w)
    (hm : Run.Meets (step (system config)) (Admits config) (World.quiet { clock }) es) :
    Bounded config w := by
  have hstart : Held config (World.quiet { clock }) := by
    refine ⟨⟨?_, ?_, ?_⟩, ?_⟩
    · intro key n
      exact Nat.zero_le _
    · intro key window hwindow
      cases hwindow
    · intro key n hmem
      cases hmem
    · intro key
      exact Nat.zero_le _
  have hw : Held config w := Run.inv_of_meets (I := fun _ w => Held config w) hstart
    (fun _ _ _ _ _ hC hs ht => held_step ht hC hs) hm hr
  exact hw.bounded

end Server.SignInLimiter
