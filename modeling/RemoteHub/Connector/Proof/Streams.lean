import RemoteHub.Connector.Proof.Agent
import RemoteHub.Connector.Streams

/-!
# Closing ends connections

`while_open` looks only at connections that have registered. `Timely` is what a registration relies on:
that no list of connections was taken for a newer snapshot than the stream's check saw, nor one for the
same snapshot after the end that the check found. In every run whose registrations meet it
(`closing_ends_connections`), once `while_open` waits

- every connection that is carried and was not told to end is permitted by the current snapshot;
- none registers that was checked against an older one (`Shared.stale` is empty).

The invariant is `Sound` of the shared state, `Ready` of the stream tasks; `Settled` says of a carried
connection what the rest of the sweep will make of it.
-/

namespace Connector.Streams

open Model Net Interleave

variable {names : Names} {allow : List Network} {s s' : Shared} {k : Nat} {f : Flight}

/-! ## The invariant -/

/-- What `supervise` has seen, from where it takes the snapshot. -/
def Sweep.turn : Sweep → Option Turn
  | .untilOpen | .whileOpen _ => none
  | .took turn | .judged turn _ | .sweeping turn _ _ | .checked turn _ _ _ _ | .waits turn _ =>
    some turn

/-- The last list of connections, from where it is taken. -/
def Sweep.lists : Sweep → Option (Nat × OffsetDateTime)
  | .untilOpen | .whileOpen _ | .took _ | .judged _ _ => none
  | .sweeping turn now _ | .checked turn now _ _ _ | .waits turn now => some (turn.seen, now)

/-- The time at which something was open. -/
def Sweep.now : Sweep → Option OffsetDateTime
  | .untilOpen | .whileOpen _ | .took _ => none
  | .judged _ now | .sweeping _ now _ | .checked _ now _ _ _ | .waits _ now => some now

/-- A version of the access and its snapshot. -/
structure Fits (s : Shared) (version : Nat) (snapshot : Snapshot) : Prop where
  bound : version ≤ s.version
  current : version = s.version → snapshot = s.snapshot
  turn : ∀ turn, s.sweep.turn = some turn → turn.seen = version → turn.snapshot = snapshot

/-- The checks for a connection that stays. -/
def Sweep.Stays (names : Names) : Sweep → Prop
  | .checked turn now running stays _ =>
    stays = true → permitted names turn.snapshot running.reached now = true
  | _ => True

structure Sound (names : Names) (s : Shared) : Prop where
  turn : ∀ turn, s.sweep.turn = some turn →
    turn.seen ≤ s.version ∧ (turn.seen = s.version → turn.snapshot = s.snapshot)
  now : ∀ now, s.sweep.now = some now → now.nanos ≤ s.clock.nanos
  lists : ∀ l, s.sweep.lists = some l → s.listed = some l
  listed : ∀ l ∈ s.listed, l.1 ≤ s.version ∧ ∀ turn, s.sweep.turn = some turn → l.1 ≤ turn.seen
  swept : ∀ version ∈ s.swept, ∃ l ∈ s.listed, version ≤ l.1
  stays : s.sweep.Stays names
  stale : s.stale = []

/-- The check has found an address open until `ends`. -/
def Found (names : Names) (snapshot : Snapshot) (reached : Reached) (ends : Option OffsetDateTime) :
    Prop := ∃ now, openUntil names snapshot reached now = some ends

/-- A connection that `while_open` need not end: it was checked against a newer snapshot, or is
permitted at `now`. -/
def Lasts (names : Names) (turn : Turn) (now : OffsetDateTime) (c : Connected) : Prop :=
  turn.seen < c.version ∨ permitted names turn.snapshot c.reached now = true

/-- What becomes of a carried connection in the rest of the sweep. -/
def Settled (names : Names) (s : Shared) (c : Connected) (running : Running) : Prop :=
  match s.sweep with
  | .untilOpen | .whileOpen _ | .took _ | .judged _ _ => True
  | .sweeping turn now rest => s.told c.token = true ∨ running ∈ rest ∨ Lasts names turn now c
  | .checked turn now r _ rest =>
    s.told c.token = true ∨ running = r ∨ running ∈ rest ∨ Lasts names turn now c
  | .waits turn now => s.told c.token = true ∨ Lasts names turn now c

/-- A connection that was checked. -/
structure Checked (names : Names) (k : Nat) (s : Shared) (c : Connected) : Prop where
  fits : Fits s c.version c.snapshot
  found : Found names c.snapshot c.reached c.ends
  token : c.token.task = k

/-- A connection that is carried. -/
structure Carried (names : Names) (k : Nat) (s : Shared) (c : Connected) (running : Running) : Prop
    extends Checked names k s c where
  registered : s.connections.lookup c.id = some running
  reached : running.reached = c.reached
  ends : running.ends = c.token
  settled : Settled names s c running

def Ready (names : Names) (k : Nat) (s : Shared) : Flight → Prop
  | .asked .. => True
  | .resolving st _ opened | .connecting st opened =>
    st.token.task = k ∧ Fits s st.version st.snapshot ∧
      ∀ e ∈ opened, Found names st.snapshot ⟨st.host, e.1, st.port⟩ e.2
  | .connected c | .socketOpened c => Checked names k s c
  | .carrying c running => Carried names k s c running

/-! ## What steps keep -/

/-- What a flight relies on of another's step. -/
structure Kept (s s' : Shared) : Prop where
  version : s'.version = s.version
  snapshot : s'.snapshot = s.snapshot
  sweep : s'.sweep = s.sweep
  told : ∀ token, s.told token = true → s'.told token = true

theorem Fits.mono {version : Nat} {snapshot : Snapshot} (h : Fits s version snapshot)
    (hk : Kept s s') : Fits s' version snapshot where
  bound := hk.version.symm ▸ h.bound
  current heq := by
    rw [hk.snapshot]
    exact h.current (heq.trans hk.version)
  turn := hk.sweep.symm ▸ h.turn

theorem Settled.mono {c : Connected} {running : Running} (h : Settled names s c running)
    (hk : Kept s s') : Settled names s' c running := by
  unfold Settled at h ⊢
  rw [hk.sweep]
  split
  · trivial
  · trivial
  · trivial
  · trivial
  · rename_i heq
    rw [heq] at h
    exact h.imp_left (hk.told _)
  · rename_i heq
    rw [heq] at h
    exact h.imp_left (hk.told _)
  · rename_i heq
    rw [heq] at h
    exact h.imp_left (hk.told _)

theorem Checked.mono {c : Connected} (h : Checked names k s c) (hk : Kept s s') :
    Checked names k s' c := ⟨h.fits.mono hk, h.found, h.token⟩

theorem Carried.mono {c : Connected} {running : Running} (h : Carried names k s c running)
    (hk : Kept s s') (hregistered : s'.connections.lookup c.id = some running) :
    Carried names k s' c running :=
  ⟨h.toChecked.mono hk, hregistered, h.reached, h.ends, h.settled.mono hk⟩

theorem Ready.mono (h : Ready names k s f) (hk : Kept s s')
    (hregistered : ∀ c running, f = .carrying c running →
      s.connections.lookup c.id = some running → s'.connections.lookup c.id = some running) :
    Ready names k s' f := by
  cases f with
  | asked => trivial
  | resolving | connecting => exact ⟨h.1, h.2.1.mono hk, h.2.2⟩
  | connected | socketOpened => exact Checked.mono h hk
  | carrying c running => exact Carried.mono h hk (hregistered c running rfl h.registered)

theorem Kept.refl (s : Shared) : Kept s s := ⟨rfl, rfl, rfl, fun _ h => h⟩

theorem Sound.of_kept (hs : Sound names s) (hk : Kept s s') (hclock : s'.clock = s.clock)
    (hlisted : s'.listed = s.listed) (hswept : s'.swept = s.swept) (hstale : s'.stale = s.stale) :
    Sound names s' where
  turn turn h := by
    rw [hk.version, hk.snapshot]
    exact hs.turn turn (hk.sweep ▸ h)
  now now h := by
    rw [hclock]
    exact hs.now now (hk.sweep ▸ h)
  lists l h := by
    rw [hlisted]
    exact hs.lists l (hk.sweep ▸ h)
  listed l h := by
    rw [hk.version, hk.sweep]
    exact hs.listed l (hlisted ▸ h)
  swept version h := by
    rw [hlisted]
    exact hs.swept version (hswept ▸ h)
  stays := hk.sweep.symm ▸ hs.stays
  stale := hstale.trans hs.stale

/-! ## Stream tasks -/

/-- `now` is before the end. -/
def Before (now : OffsetDateTime) (ends : Option OffsetDateTime) : Prop :=
  ∀ e ∈ ends, now.nanos < e.nanos

instance (now : OffsetDateTime) (ends : Option OffsetDateTime) : Decidable (Before now ends) :=
  inferInstanceAs (Decidable (∀ e ∈ ends, now.nanos < e.nanos))

/-- What a registration relies on (module doc), and that its id is not there yet. -/
def Flight.Timely (s : Shared) : Flight → Prop
  | .socketOpened c =>
    (∀ l ∈ s.listed, l.1 < c.version ∨ (l.1 = c.version ∧ Before l.2 c.ends)) ∧
      s.connections.lookup c.id = none
  | _ => True

/-- What a step of stream task `k` leaves. -/
structure Moves (names : Names) (k : Nat) (s : Shared) (r : Shared × Option Flight) : Prop where
  sound : Sound names r.1
  ready : ∀ g, r.2 = some g → Ready names k r.1 g
  kept : Kept s r.1
  others : ∀ id running, s.connections.lookup id = some running → running.ends.task ≠ k →
    r.1.connections.lookup id = some running

theorem Moves.goOn (hs : Sound names s) (h : Ready names k s f) : Moves names k s (s, some f) where
  sound := hs
  ready g hg := by
    cases hg
    exact h
  kept := .refl s
  others _ _ h _ := h

theorem Moves.over (hs : Sound names s) : Moves names k s (s, none) :=
  ⟨hs, ready_of_none, .refl s, fun _ _ h _ => h⟩

theorem settled_of_timely {c : Connected} {running : Running} (hs : Sound names s)
    (hc : Checked names k s c)
    (htimely : ∀ l ∈ s.listed, l.1 < c.version ∨ (l.1 = c.version ∧ Before l.2 c.ends)) :
    Settled names s c running := by
  obtain ⟨now', hfound⟩ := hc.found
  have hlasts : ∀ turn now, s.sweep.turn = some turn → s.sweep.lists = some (turn.seen, now) →
      Lasts names turn now c := by
    intro turn now hturn hlists
    rcases htimely _ (hs.lists _ hlists) with hnewer | ⟨hsame, hbefore⟩
    · exact .inl hnewer
    · right
      rw [hc.fits.turn turn hturn hsame]
      exact permitted_before hfound hbefore
  unfold Settled
  split
  · trivial
  · trivial
  · trivial
  · trivial
  · rename_i turn now rest heq
    exact .inr (.inr (hlasts turn now (by rw [heq]; rfl) (by rw [heq]; rfl)))
  · rename_i turn now r stays rest heq
    exact .inr (.inr (.inr (hlasts turn now (by rw [heq]; rfl) (by rw [heq]; rfl))))
  · rename_i turn now heq
    exact .inr (hlasts turn now (by rw [heq]; rfl) (by rw [heq]; rfl))

theorem register_moves {c : Connected} (hs : Sound names s) (hc : Checked names k s c)
    (htimely : Flight.Timely s (.socketOpened c)) : Moves names k s (s.register c) := by
  obtain ⟨htimely, hfree⟩ := htimely
  have hkept : Kept s (s.register c).1 := ⟨rfl, rfl, rfl, fun _ h => h⟩
  have hstale : (s.register c).1.stale = s.stale := by
    unfold Shared.register
    refine if_neg fun h => ?_
    obtain ⟨version, hversion, hlt⟩ := (Option.any_eq_true _ _).1 h
    obtain ⟨l, hl, hle⟩ := hs.swept version hversion
    have hlt : c.version < version := of_decide_eq_true hlt
    rcases htimely l hl with h | ⟨h, -⟩
    · omega
    · omega
  refine ⟨hs.of_kept hkept rfl rfl rfl hstale, fun g hg => ?_, hkept, fun id running h _ => ?_⟩
  · cases hg
    exact ⟨hc.mono hkept, AList.lookup_insert _, rfl, rfl, (settled_of_timely hs hc htimely).mono hkept⟩
  · have hne : id ≠ c.id := by
      rintro rfl
      rw [hfree] at h
      cases h
    exact (AList.lookup_insert_ne hne).trans h

theorem step_moves {r : Shared × Option Flight} (hs : Sound names s) (hready : Ready names k s f)
    (htimely : f.Timely s) (h : f.step names allow k s = some r) : Moves names k s r := by
  cases f with
  | asked id target answers =>
    obtain ⟨generation, -, rfl⟩ := Option.map_eq_some_iff.1 h
    have hkept : Kept s { s with tokens := s.tokens + 1 } := ⟨rfl, rfl, rfl, fun _ h => h⟩
    split
    · refine ⟨hs.of_kept hkept rfl rfl rfl rfl, fun g hg => ?_, hkept, fun _ _ h _ => h⟩
      cases hg
      exact ⟨rfl, ⟨le_rfl, fun _ => rfl, fun turn hturn heq => (hs.turn turn hturn).2 heq⟩, nofun⟩
    · exact .over hs
  | resolving st rest opened =>
    obtain ⟨htoken, hfits, hfound⟩ := hready
    cases rest with
    | nil =>
      cases h
      exact .goOn hs ⟨htoken, hfits, hfound⟩
    | cons ip rest =>
      cases h
      refine .goOn hs ⟨htoken, hfits, fun e he => ?_⟩
      rcases List.mem_append.1 he with he | he
      · exact hfound e he
      · obtain ⟨ends, hends, rfl⟩ := List.mem_map.1 he
        exact ⟨s.clock, Option.mem_toList.1 hends⟩
  | connecting st opened =>
    obtain ⟨htoken, hfits, hfound⟩ := hready
    cases h
    cases hanswers : opened[st.answers]? with
    | none => exact .over hs
    | some e => exact .goOn hs ⟨hfits, hfound e (List.mem_of_getElem? hanswers), htoken⟩
  | connected c =>
    cases h
    exact .goOn hs hready
  | socketOpened c =>
    cases h
    exact register_moves hs hready htimely
  | carrying c running =>
    cases h
    have hkept : Kept s { s with connections := s.connections.erase c.id } :=
      ⟨rfl, rfl, rfl, fun _ h => h⟩
    refine ⟨hs.of_kept hkept rfl rfl rfl rfl, ready_of_none, hkept, fun id running' h htask => ?_⟩
    have hne : id ≠ c.id := by
      rintro rfl
      rw [hready.registered] at h
      cases h
      exact htask (hready.ends ▸ hready.token)
    exact (AList.lookup_erase_ne hne).trans h

theorem next_moves {r : Shared × Option Flight} (hs : Sound names s) (hready : Ready names k s f)
    (htimely : k ∈ s.failing ∨ f.Timely s) (h : f.next names allow k s = some r) :
    Moves names k s r := by
  have hfails : ∀ {r}, some ({ s with failing := s.failing.erase k }, none) = some r →
      Moves names k s r := by
    intro r h
    cases h
    have hkept : Kept s { s with failing := s.failing.erase k } := ⟨rfl, rfl, rfl, fun _ h => h⟩
    exact ⟨hs.of_kept hkept rfl rfl rfl rfl, ready_of_none, hkept, fun _ _ h _ => h⟩
  unfold Flight.next at h
  split at h
  · exact step_moves hs hready trivial h
  · split at h
    · exact hfails h
    · rename_i hgoes
      exact step_moves hs hready (htimely.resolve_left hgoes) h

/-! ## `supervise` -/

/-- What a step outside the stream tasks leaves. -/
structure Passes (names : Names) (s s' : Shared) : Prop where
  sound : Sound names s'
  fits : ∀ version snapshot, Fits s version snapshot → Fits s' version snapshot
  connections : s'.connections = s.connections
  settled : ∀ k c running, Carried names k s c running → Settled names s' c running

theorem Passes.ready (h : Passes names s s') (hready : Ready names k s f) : Ready names k s' f := by
  have hchecked : ∀ {c}, Checked names k s c → Checked names k s' c := fun hc =>
    ⟨h.fits _ _ hc.fits, hc.found, hc.token⟩
  cases f with
  | asked => trivial
  | resolving | connecting => exact ⟨hready.1, h.fits _ _ hready.2.1, hready.2.2⟩
  | connected | socketOpened => exact hchecked hready
  | carrying c running =>
    exact ⟨hchecked hready.toChecked, h.connections.symm ▸ hready.registered, hready.reached,
      hready.ends, h.settled k c running hready⟩

/-- A step of `supervise` with the snapshot it has, or none. -/
theorem Fits.of_turn {sweep : Sweep} {version : Nat} {snapshot : Snapshot}
    (h : Fits s version snapshot) (hversion : s'.version = s.version) (hsnapshot : s'.snapshot = s.snapshot)
    (hsweep : s'.sweep = sweep) (hturn : ∀ turn, sweep.turn = some turn → s.sweep.turn = some turn) :
    Fits s' version snapshot where
  bound := hversion.symm ▸ h.bound
  current heq := by
    rw [hsnapshot]
    exact h.current (heq.trans hversion)
  turn turn ht := h.turn turn (hturn turn (hsweep ▸ ht))

theorem mem_list {running : Running} {id : Uuid} (h : s.connections.lookup id = some running) :
    running ∈ s.list :=
  List.mem_insertionSort _ |>.2 (List.mem_map.2 ⟨⟨id, running⟩, HashMap.lookup_eq_some.1 h, rfl⟩)

/-- Where the shared state but for the sweep stays, and the sweep goes on with its snapshot. -/
theorem Sound.goOn {sweep : Sweep} (hs : Sound names s)
    (hturn : ∀ turn, sweep.turn = some turn → s.sweep.turn = some turn)
    (hnow : ∀ now, sweep.now = some now → s.sweep.now = some now ∨ now = s.clock)
    (hlists : ∀ l, sweep.lists = some l → s.sweep.lists = some l)
    (hstays : sweep.Stays names) : Sound names { s with sweep } where
  turn turn h := hs.turn turn (hturn turn h)
  now now h := by
    rcases hnow now h with h | rfl
    · exact hs.now now h
    · exact le_rfl
  lists l h := hs.lists l (hlists l h)
  listed l h := ⟨(hs.listed l h).1, fun turn ht => (hs.listed l h).2 turn (hturn turn ht)⟩
  swept := hs.swept
  stays := hstays
  stale := hs.stale

/-- A sweep that begins, or is over. -/
theorem Passes.begins {sweep : Sweep} {ended : List Nat} {generations : Nat} (hs : Sound names s)
    (hturn : sweep.turn = none) (hnow : sweep.now = none) (hlists : sweep.lists = none)
    (hsettled : ∀ s c running, s.sweep = sweep → Settled names s c running)
    (hstays : sweep.Stays names) : Passes names s { s with sweep, ended, generations } where
  sound :=
    { turn := fun turn h => by rw [hturn] at h; cases h
      now := fun now h => by rw [hnow] at h; cases h
      lists := fun l h => by rw [hlists] at h; cases h
      listed := fun l h => ⟨(hs.listed l h).1, fun turn ht => by rw [hturn] at ht; cases ht⟩
      swept := hs.swept
      stays := hstays
      stale := hs.stale }
  fits version snapshot hf := hf.of_turn rfl rfl rfl fun turn h => by rw [hturn] at h; cases h
  connections := rfl
  settled k c running _ := hsettled _ c running rfl

/-- The snapshot is taken. -/
theorem took_passes {generation : Nat} (hs : Sound names s) :
    Passes names s { s with sweep := .took ⟨generation, s.version, s.snapshot⟩ } where
  sound :=
    { turn := by
        intro turn hturn
        cases hturn
        exact ⟨le_rfl, fun _ => rfl⟩
      now := nofun
      lists := nofun
      listed := by
        intro l hl
        refine ⟨(hs.listed l hl).1, fun turn hturn => ?_⟩
        cases hturn
        exact (hs.listed l hl).1
      swept := hs.swept
      stays := trivial
      stale := hs.stale }
  fits version snapshot hf := by
    refine ⟨hf.bound, hf.current, fun turn hturn heq => ?_⟩
    cases hturn
    exact (hf.current heq.symm).symm
  connections := rfl
  settled _ _ _ _ := trivial

/-- The connections are listed: those that are carried are among them. -/
theorem list_passes {turn : Turn} {now : OffsetDateTime} (hs : Sound names s)
    (hsweep : s.sweep = .judged turn now) :
    Passes names s
      { s with sweep := .sweeping turn now s.list, listed := some (turn.seen, now) } where
  sound :=
    { turn := fun turn' h => hs.turn turn' (hsweep ▸ h)
      now := fun now' h => hs.now now' (hsweep ▸ h)
      lists := fun l h => h
      listed := by
        intro l hl
        cases hl
        refine ⟨(hs.turn turn (by rw [hsweep]; rfl)).1, fun turn' ht => ?_⟩
        cases ht
        exact le_rfl
      swept := by
        intro version hversion
        obtain ⟨l, hl, hle⟩ := hs.swept version hversion
        exact ⟨_, rfl, hle.trans ((hs.listed l hl).2 turn (by rw [hsweep]; rfl))⟩
      stays := trivial
      stale := hs.stale }
  fits version snapshot hf := hf.of_turn rfl rfl rfl fun turn' h => hsweep ▸ h
  connections := rfl
  settled _ _ _ hc := .inr (.inl (mem_list hc.registered))

/-- A connection of the list is judged. -/
theorem check_passes {turn : Turn} {now : OffsetDateTime} {r : Running} {rest : List Running}
    (hs : Sound names s) (hsweep : s.sweep = .sweeping turn now (r :: rest)) :
    Passes names s
      { s with
        sweep := .checked turn now r (permitted names turn.snapshot r.reached s.clock) rest } where
  sound := by
    have hnow : now.nanos ≤ s.clock.nanos := hs.now now (by rw [hsweep]; rfl)
    refine hs.goOn (fun _ h => hsweep ▸ h) (fun _ h => .inl (hsweep ▸ h)) (fun _ h => hsweep ▸ h) ?_
    exact fun hstays => permitted_earlier hnow hstays
  fits version snapshot hf := hf.of_turn rfl rfl rfl fun turn' h => hsweep ▸ h
  connections := rfl
  settled k c running hc := by
    have hsettled := hc.settled
    unfold Settled at hsettled
    rw [hsweep] at hsettled
    rcases hsettled with h | h | h
    · exact .inl h
    · rcases List.mem_cons.1 h with h | h
      · exact .inr (.inl h)
      · exact .inr (.inr (.inl h))
    · exact .inr (.inr (.inr h))

/-- It is told to end, unless it is permitted. -/
theorem end_passes {turn : Turn} {now : OffsetDateTime} {r : Running} {stays : Bool}
    {rest : List Running} (hs : Sound names s) (hsweep : s.sweep = .checked turn now r stays rest) :
    Passes names s
      { s with
        sweep := .sweeping turn now rest
        cancelled := if stays then s.cancelled else r.ends :: s.cancelled } where
  sound :=
    have hsound : Sound names { s with sweep := .sweeping turn now rest } :=
      hs.goOn (fun _ h => hsweep ▸ h) (fun _ h => .inl (hsweep ▸ h)) (fun _ h => hsweep ▸ h) trivial
    ⟨hsound.turn, hsound.now, hsound.lists, hsound.listed, hsound.swept, trivial, hs.stale⟩
  fits version snapshot hf := hf.of_turn rfl rfl rfl fun turn' h => hsweep ▸ h
  connections := rfl
  settled k c running hc := by
    have hsettled := hc.settled
    unfold Settled at hsettled
    rw [hsweep] at hsettled
    have hstays := hs.stays
    rw [hsweep] at hstays
    rcases hsettled with h | rfl | h | h
    · left
      rw [Shared.told, Bool.or_eq_true, decide_eq_true_eq, decide_eq_true_eq] at h ⊢
      refine h.imp_left fun h => ?_
      split
      · exact h
      · exact List.mem_cons_of_mem _ h
    · cases stays with
      | true =>
        right; right; right
        rw [← hc.reached]
        exact hstays rfl
      | false =>
        left
        rw [Shared.told, Bool.or_eq_true, decide_eq_true_eq, ← hc.ends]
        exact .inl List.mem_cons_self
    · exact .inr (.inl h)
    · exact .inr (.inr h)

/-- All are judged. -/
theorem waits_passes {turn : Turn} {now : OffsetDateTime} (hs : Sound names s)
    (hsweep : s.sweep = .sweeping turn now []) :
    Passes names s { s with sweep := .waits turn now, swept := some turn.seen } where
  sound :=
    have hsound : Sound names { s with sweep := .waits turn now } :=
      hs.goOn (fun _ h => hsweep ▸ h) (fun _ h => .inl (hsweep ▸ h)) (fun _ h => hsweep ▸ h) trivial
    { turn := hsound.turn
      now := hsound.now
      lists := hsound.lists
      listed := hsound.listed
      swept := by
        intro version hversion
        cases hversion
        exact ⟨_, hs.lists (turn.seen, now) (by rw [hsweep]; rfl), le_rfl⟩
      stays := trivial
      stale := hs.stale }
  fits version snapshot hf := hf.of_turn rfl rfl rfl fun turn' h => hsweep ▸ h
  connections := rfl
  settled k c running hc := by
    have hsettled := hc.settled
    unfold Settled at hsettled
    rw [hsweep] at hsettled
    rcases hsettled with h | h | h
    · exact .inl h
    · cases h
    · exact .inr h

theorem supervise_passes (hs : Sound names s) (h : s.supervise names = some s') :
    Passes names s s' := by
  have hbegins : ∀ {generation ended generations}, Passes names s
      { s with sweep := .whileOpen generation, ended, generations } := fun {_ _ _} =>
    .begins hs rfl rfl rfl (fun s c running heq => by rw [Settled, heq]; trivial) trivial
  unfold Shared.supervise at h
  split at h
  · split at h
    · cases h
      exact hbegins
    · cases h
  · cases h
    exact took_passes hs
  · rename_i turn hsweep
    split at h
    · cases h
      refine ⟨hs.goOn (fun _ h => hsweep ▸ h) ?_ nofun trivial,
        fun _ _ hf => hf.of_turn rfl rfl rfl fun _ h => hsweep ▸ h, rfl, fun _ _ _ _ => trivial⟩
      intro now hnow
      cases hnow
      exact .inr rfl
    · cases h
      exact .begins hs rfl rfl rfl (fun s c running heq => by rw [Settled, heq]; trivial) trivial
  · cases h
    exact list_passes hs ‹_›
  · cases h
    exact waits_passes hs ‹_›
  · cases h
    exact check_passes hs ‹_›
  · cases h
    exact end_passes hs ‹_›
  · split at h
    · cases h
      exact hbegins
    · cases h

theorem outside_passes {e : Outside} (hs : Sound names s) (h : s.outside names e = some s') :
    Passes names s s' := by
  cases e with
  | tick clock =>
    simp only [Shared.outside] at h
    split at h
    · rename_i hclock
      cases h
      exact ⟨⟨hs.turn, fun now hn => (hs.now now hn).trans hclock, hs.lists, hs.listed, hs.swept,
        hs.stays, hs.stale⟩, fun _ _ hf => ⟨hf.bound, hf.current, hf.turn⟩, rfl,
        fun _ _ _ hc => hc.settled⟩
    · cases h
  | send snapshot =>
    cases h
    refine ⟨⟨fun turn ht => ⟨(hs.turn turn ht).1.trans (Nat.le_succ _), fun heq => ?_⟩, hs.now, hs.lists,
      fun l hl => ⟨(hs.listed l hl).1.trans (Nat.le_succ _), (hs.listed l hl).2⟩, hs.swept, hs.stays,
      hs.stale⟩, fun version _ hf => ⟨hf.bound.trans (Nat.le_succ _), fun heq => ?_, hf.turn⟩, rfl,
      fun _ _ _ hc => hc.settled⟩
    · have hle : turn.seen ≤ s.version := (hs.turn turn ht).1
      have heq : turn.seen = s.version + 1 := heq
      omega
    · have hle : version ≤ s.version := hf.bound
      have heq : version = s.version + 1 := heq
      omega
  | supervise => exact supervise_passes hs h
  | fail k =>
    cases h
    exact ⟨⟨hs.turn, hs.now, hs.lists, hs.listed, hs.swept, hs.stays, hs.stale⟩,
      fun _ _ hf => ⟨hf.bound, hf.current, hf.turn⟩, rfl, fun _ _ _ hc => hc.settled⟩

/-! ## Runs -/

/-- Every registration is timely. -/
def Timely (w : World Shared Flight) : Event Flight Outside → Prop
  | .next k => ∀ f ∈ w.flights.lookup k, k ∈ w.shared.failing ∨ f.Timely w.shared
  | _ => True

instance (s : Shared) : (f : Flight) → Decidable (f.Timely s)
  | .socketOpened c => inferInstanceAs (Decidable
      ((∀ l ∈ s.listed, l.1 < c.version ∨ (l.1 = c.version ∧ Before l.2 c.ends)) ∧
        s.connections.lookup c.id = none))
  | .asked .. | .resolving .. | .connecting .. | .connected _ | .carrying .. => .isTrue trivial

instance (w : World Shared Flight) (ev : Event Flight Outside) : Decidable (Timely w ev) :=
  match ev with
  | .next k => inferInstanceAs
      (Decidable (∀ f ∈ w.flights.lookup k, k ∈ w.shared.failing ∨ f.Timely w.shared))
  | .start _ _ | .outside _ => .isTrue trivial

theorem world_step {w w' : World Shared Flight} {ev : Event Flight Outside}
    (hw : Holds (Sound names) (Ready names) w) (hC : Timely w ev)
    (hstep : step (system names allow) w ev = some w') : Holds (Sound names) (Ready names) w' := by
  refine hw.step hstep (fun k f hf => ?_) ?_ ?_
  · cases f with
    | asked => trivial
    | _ => cases hf
  · intro k f s o he hf hn
    subst he
    have hmoves : Moves names k w.shared (s, o) :=
      next_moves hw.shared (hw.flights k f hf) (hC f hf) hn
    refine ⟨hmoves.sound, hmoves.ready, fun k' g hne hg => ?_⟩
    have hready := hw.flights k' g hg
    refine hready.mono hmoves.kept fun c running hcarrying h => hmoves.others c.id running h ?_
    subst hcarrying
    rw [hready.ends, hready.token]
    exact hne
  · intro e s _ ho
    have hpasses : Passes names w.shared s := outside_passes hw.shared ho
    exact ⟨hpasses.sound, fun k g hg => hpasses.ready (hw.flights k g hg)⟩

/-- `while_open` waits, with the current snapshot and before its next end. -/
structure Waiting (s : Shared) (turn : Turn) (now : OffsetDateTime) : Prop where
  sweep : s.sweep = .waits turn now
  current : turn.seen = s.version
  before : ∀ ends ∈ turn.snapshot.nextEnd now, s.clock.nanos < ends.nanos

/-- **Closing ends connections**: over every interleaving whose registrations are timely, from any
access, while `while_open` waits every carried connection that was not told to end is permitted, and
none has registered that was checked against a snapshot older than the last one it has gone through. -/
theorem closing_ends_connections (names : Names) (allow : List Network) (clock : OffsetDateTime)
    (snapshot : Snapshot) {es : List (Event Flight Outside)} {w : World Shared Flight}
    (hr : Run.run (step (system names allow)) (World.quiet { clock, snapshot }) es = some w)
    (hm : Run.Meets (step (system names allow)) Timely (World.quiet { clock, snapshot }) es) :
    (∀ turn now, Waiting w.shared turn now →
      ∀ k c running, w.flights.lookup k = some (.carrying c running) →
        w.shared.told c.token = true ∨
          permitted names w.shared.snapshot c.reached w.shared.clock = true) ∧
      w.shared.stale = [] := by
  have hstart : Holds (Sound names) (Ready names)
      (World.quiet { clock, snapshot } : World Shared Flight) :=
    .quiet ⟨nofun, nofun, nofun, nofun, nofun, trivial, rfl⟩
  have hw : Holds (Sound names) (Ready names) w :=
    Run.inv_of_meets (I := fun _ w => Holds (Sound names) (Ready names) w) hstart
      (fun _ _ _ _ _ hC hs ht => world_step ht hC hs) hm hr
  refine ⟨fun turn now hwaits k c running hcarrying => ?_, hw.shared.stale⟩
  have hcarried : Carried names k w.shared c running := hw.flights k _ hcarrying
  have hsettled := hcarried.settled
  unfold Settled at hsettled
  rw [hwaits.sweep] at hsettled
  rcases hsettled with h | h | h
  · exact .inl h
  · have hbound : c.version ≤ w.shared.version := hcarried.fits.bound
    have hcurrent : turn.seen = w.shared.version := hwaits.current
    omega
  · right
    have hturn := (hw.shared.turn turn (by rw [hwaits.sweep]; rfl)).2 hwaits.current
    rw [← hturn]
    exact permitted_until_nextEnd h hwaits.before

/-- The name service of a small network. -/
def office : Names where
  resolve _ := []
  lookup target := if target = "10.0.0.1:22" then some [.v4 0x0a000001] else none

/-- The whole network is open. -/
def networkOpen : Snapshot := { access := { network := { access := .opened none } } }

def camera : Device :=
  { name := "camera", address := .range ⟨.v4 0x0a000002, 32, by decide⟩, ports := [⟨554, 554⟩], groups := [] }

/-- Only the camera is. -/
def cameraOpen : Snapshot where
  access := { devices := HashMap.collect [("camera", { access := .opened none })] }
  inventory := { devices := [camera] }

def noon : OffsetDateTime := ⟨43200000000000, 0⟩

/-- A stream to another device is about to register. -/
def connects : List (Event Flight Outside) :=
  List.replicate 5 (.outside .supervise) ++ .start 0 (.asked 1 "10.0.0.1:22" 0) ::
    List.replicate 5 (.next 0)

/-- The network closes, and `while_open` goes through the connections. -/
def closes (connections : Nat) : List (Event Flight Outside) :=
  .outside (.send cameraOpen) :: List.replicate (5 + 2 * connections) (.outside .supervise)

theorem closing_ends_registered :
    ∃ w, Run.run (step (system office [])) (World.quiet { clock := noon, snapshot := networkOpen })
        (connects ++ .next 0 :: closes 1) = some w ∧
      (∀ turn now, Waiting w.shared turn now →
        ∀ k c running, w.flights.lookup k = some (.carrying c running) →
          w.shared.told c.token = true ∨
            permitted office w.shared.snapshot c.reached w.shared.clock = true) ∧
      w.shared.stale = [] := by
  have hrun : (Run.run (step (system office []))
      (World.quiet { clock := noon, snapshot := networkOpen }) (connects ++ .next 0 :: closes 1)).map
        (fun w => w.shared.cancelled) = some [⟨0, 0, 0⟩] := by
    decide
  obtain ⟨w, hr, -⟩ := Option.map_eq_some_iff.1 hrun
  exact ⟨w, hr, closing_ends_connections office [] noon networkOpen hr (by decide)⟩

/-- Whether `while_open` waits and spares the connection of task 0, which is not permitted. -/
def spares (w : World Shared Flight) : Bool :=
  match w.shared.sweep, w.flights.lookup 0 with
  | .waits turn now, some (.carrying c _) =>
    turn.seen = w.shared.version && turn.snapshot.nextEnd now = none && !w.shared.told c.token &&
      !permitted office w.shared.snapshot c.reached w.shared.clock
  | _, _ => false

/-- The network closes while the stream opens its socket: its connection is carried, and nobody ends
it. -/
theorem closing_misses_stream :
    ¬∀ (es : List (Event Flight Outside)) (w : World Shared Flight),
      Run.run (step (system office [])) (World.quiet { clock := noon, snapshot := networkOpen }) es =
        some w →
      (∀ turn now, Waiting w.shared turn now →
        ∀ k c running, w.flights.lookup k = some (.carrying c running) →
          w.shared.told c.token = true ∨
            permitted office w.shared.snapshot c.reached w.shared.clock = true) ∧
        w.shared.stale = [] := by
  intro hall
  have hrun : (Run.run (step (system office []))
      (World.quiet { clock := noon, snapshot := networkOpen }) (connects ++ closes 0 ++ [.next 0])).map
        spares = some true := by
    decide
  obtain ⟨w, hr, hspares⟩ := Option.map_eq_some_iff.1 hrun
  unfold spares at hspares
  split at hspares
  · rename_i turn now c running hsweep hcarrying
    simp only [Bool.and_eq_true, decide_eq_true_eq, Bool.not_eq_true'] at hspares
    obtain ⟨⟨⟨hcurrent, hends⟩, htold⟩, hpermitted⟩ := hspares
    have hwaiting : Waiting w.shared turn now := by
      refine ⟨hsweep, hcurrent, fun ends he => ?_⟩
      rw [hends] at he
      cases he
    rcases (hall _ w hr).1 turn now hwaiting 0 c running hcarrying with h | h
    · rw [htold] at h
      cases h
    · rw [hpermitted] at h
      cases h
  · cases hspares

end Connector.Streams
