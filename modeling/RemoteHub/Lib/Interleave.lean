import RemoteHub.Lib.HashMap
import RemoteHub.Lib.Run
import Mathlib.Logic.Function.Basic

/-!
# Processes over a shared state

A `System` says how a process begins, what its next step does to the shared state, and what else can
happen to it. `step` interleaves any number of processes, each under a number of its own; a step is
`none` when it cannot be made, be it that the process waits for another one.

`Invariant C I J`: `I` holds of the shared state and `J` of every process in flight, and every step
that meets `C` keeps both. A process keeps its own `J`, and it does not break that of the others.
`Invariant.run` is the rule for whole runs; `Holds.step` is the rule for one step, where `C` may speak
of the processes in flight.

`count` is the number of processes that are where a predicate says.

`Locks` says which process has locked what: it waits where another one has, and lets go of all at its
end. `Modes` are the locks of one thing that is locked in modes, some of which conflict.
-/

namespace Interleave

variable {σ φ ε : Type}

structure System (σ φ ε : Type) where
  /-- Where a process may begin. -/
  starts : φ → Bool
  /-- The next step of process `k`: the shared state after it and the process, unless it is over. -/
  next (k : Nat) : σ → φ → Option (σ × Option φ)
  /-- What happens outside the processes. -/
  outside : σ → ε → Option σ

structure World (σ φ : Type) where
  shared : σ
  flights : HashMap Nat φ := ∅

inductive Event (φ ε : Type)
  | start (k : Nat) (f : φ)
  | next (k : Nat)
  | outside (e : ε)

/-- Process `k` is now at `f`, or over. -/
def put (flights : HashMap Nat φ) (k : Nat) : Option φ → HashMap Nat φ
  | some f => flights.insert k f
  | none => flights.erase k

def step (S : System σ φ ε) (w : World σ φ) : Event φ ε → Option (World σ φ)
  | .start k f =>
    if k ∈ w.flights ∨ S.starts f = false then none
    else some { w with flights := w.flights.insert k f }
  | .next k =>
    (w.flights.lookup k).bind fun f =>
      (S.next k w.shared f).map fun r => ⟨r.1, put w.flights k r.2⟩
  | .outside e => (S.outside w.shared e).map fun s => { w with shared := s }

/-- The world without processes. -/
def World.quiet (s : σ) : World σ φ := { shared := s }

variable {S : System σ φ ε} {w w' : World σ φ}

theorem of_lookup_put {flights : HashMap Nat φ} {k k' : Nat} {o : Option φ} {g : φ}
    (h : (put flights k o).lookup k' = some g) :
    (k' = k ∧ o = some g) ∨ (k' ≠ k ∧ flights.lookup k' = some g) := by
  cases o with
  | none => exact .inr (HashMap.of_lookup_erase h)
  | some f =>
    rw [put, HashMap.lookup_insert_eq] at h
    split at h
    · cases h
      exact .inl ⟨‹_›, rfl⟩
    · exact .inr ⟨‹_›, h⟩

/-- What a step can do. -/
theorem step_cases {e : Event φ ε} (h : step S w e = some w') :
    (∃ k f, e = .start k f ∧ k ∉ w.flights ∧ S.starts f = true ∧
        w' = { w with flights := w.flights.insert k f }) ∨
      (∃ k f s o, e = .next k ∧ w.flights.lookup k = some f ∧ S.next k w.shared f = some (s, o) ∧
        w' = ⟨s, put w.flights k o⟩) ∨
      ∃ e' s, e = .outside e' ∧ S.outside w.shared e' = some s ∧ w' = { w with shared := s } := by
  cases e with
  | start k f =>
    simp only [step] at h
    split at h
    · cases h
    · rename_i hnot
      cases h
      rw [not_or, Bool.not_eq_false] at hnot
      exact .inl ⟨k, f, rfl, hnot.1, hnot.2, rfl⟩
  | next k =>
    obtain ⟨f, hf, h⟩ := Option.bind_eq_some_iff.1 h
    obtain ⟨r, hr, rfl⟩ := Option.map_eq_some_iff.1 h
    exact .inr (.inl ⟨k, f, r.1, r.2, rfl, hf, hr, rfl⟩)
  | outside e' =>
    obtain ⟨s, hs, rfl⟩ := Option.map_eq_some_iff.1 h
    exact .inr (.inr ⟨e', s, rfl, hs, rfl⟩)

/-- `I` holds of the shared state and `J` of the processes in flight. -/
structure Holds (I : σ → Prop) (J : Nat → σ → φ → Prop) (w : World σ φ) : Prop where
  shared : I w.shared
  flights : ∀ k f, w.flights.lookup k = some f → J k w.shared f

/-- Every step that meets `C` keeps `I` and `J` (module doc). -/
structure Invariant (S : System σ φ ε) (C : World σ φ → Event φ ε → Prop) (I : σ → Prop)
    (J : Nat → σ → φ → Prop) : Prop where
  start : ∀ k s f, I s → S.starts f = true → J k s f
  next : ∀ w k f s o, Holds I J w → C w (.next k) → w.flights.lookup k = some f →
    S.next k w.shared f = some (s, o) →
    I s ∧ (∀ g, o = some g → J k s g) ∧
      ∀ k' g, k' ≠ k → w.flights.lookup k' = some g → J k' w.shared g → J k' s g
  outside : ∀ w e s, Holds I J w → C w (.outside e) → S.outside w.shared e = some s →
    I s ∧ ∀ k g, J k w.shared g → J k s g

variable {C : World σ φ → Event φ ε → Prop} {I : σ → Prop} {J : Nat → σ → φ → Prop}

/-- A process that is over relies on nothing. -/
theorem ready_of_none {J : φ → Prop} : ∀ g, (none : Option φ) = some g → J g := by
  intro g hg
  cases hg

/-- A step keeps `I` and `J`, if what it does keeps them in the world before it. -/
theorem Holds.step {e : Event φ ε} (hw : Holds I J w) (hs : step S w e = some w')
    (hstart : ∀ k f, S.starts f = true → J k w.shared f)
    (hnext : ∀ k f s o, e = .next k → w.flights.lookup k = some f →
      S.next k w.shared f = some (s, o) → I s ∧ (∀ g, o = some g → J k s g) ∧
        ∀ k' g, k' ≠ k → w.flights.lookup k' = some g → J k' s g)
    (houtside : ∀ e' s, e = .outside e' → S.outside w.shared e' = some s →
      I s ∧ ∀ k g, w.flights.lookup k = some g → J k s g) : Holds I J w' := by
  rcases step_cases hs with ⟨k, f, rfl, -, hf, rfl⟩ | ⟨k, f, s, o, rfl, hf, hn, rfl⟩ |
    ⟨e', s, rfl, ho, rfl⟩
  · refine ⟨hw.shared, fun k' g hg => ?_⟩
    rw [HashMap.lookup_insert_eq] at hg
    split at hg
    · cases hg
      exact hstart k' f hf
    · exact hw.flights k' g hg
  · obtain ⟨hI, hown, hothers⟩ := hnext k f s o rfl hf hn
    refine ⟨hI, fun k' g hg => ?_⟩
    rcases of_lookup_put hg with ⟨rfl, ho⟩ | ⟨hne, hg⟩
    · exact hown g ho
    · exact hothers k' g hne hg
  · obtain ⟨hI, hothers⟩ := houtside e' s rfl ho
    exact ⟨hI, fun k g hg => hothers k g hg⟩

theorem Invariant.step {e : Event φ ε} (h : Invariant S C I J) (hw : Holds I J w) (hC : C w e)
    (hs : step S w e = some w') : Holds I J w' := by
  refine hw.step hs (fun k f hf => h.start k w.shared f hw.shared hf) ?_ ?_
  · intro k f s o he hf hn
    subst he
    obtain ⟨hI, hown, hothers⟩ := h.next w k f s o hw hC hf hn
    exact ⟨hI, hown, fun k' g hne hg => hothers k' g hne hg (hw.flights k' g hg)⟩
  · intro e' s he ho
    subst he
    obtain ⟨hI, hothers⟩ := h.outside w e' s hw hC ho
    exact ⟨hI, fun k g hg => hothers k g (hw.flights k g hg)⟩

theorem Holds.quiet {s : σ} (h : I s) : Holds I J (World.quiet s) where
  shared := h
  flights k f hf := by cases hf

/-- **Invariants of interleavings**: over every run whose steps meet `C`, from a state without
processes. -/
theorem Invariant.run {s : σ} {es : List (Event φ ε)} (h : Invariant S C I J) (h0 : I s)
    (hm : Run.Meets (Interleave.step S) C (World.quiet s) es)
    (hr : Run.run (Interleave.step S) (World.quiet s) es = some w) : Holds I J w := by
  refine Run.inv_of_meets (I := fun _ w => Holds I J w) (Holds.quiet h0) ?_ hm hr
  intro es t e t' _ hC hstep hi
  exact h.step hi hC hstep

/-! ## Counting processes -/

section
variable {p : φ → Bool} {flights : HashMap Nat φ} {k : Nat} {f : φ}

/-- How many processes are where `p` says. -/
def count (p : φ → Bool) (flights : HashMap Nat φ) : Nat := flights.entries.countP fun e => p e.2

theorem count_insert (h : k ∉ flights) :
    count p (flights.insert k f) = count p flights + if p f then 1 else 0 := by
  rw [count, AList.entries_insert_of_notMem h, List.countP_cons]
  rfl

theorem count_erase (h : flights.lookup k = some f) :
    count p (flights.erase k) + (if p f then 1 else 0) = count p flights := by
  have hmem : k ∈ flights := AList.lookup_isSome.1 (by rw [h]; rfl)
  obtain ⟨g, l₁, l₂, hk, hentries, herase⟩ := List.exists_of_kerase hmem
  have hg : f = g := by
    have : (⟨k, g⟩ : Sigma fun _ : Nat => φ) ∈ flights.entries := by rw [hentries]; simp
    have := HashMap.lookup_eq_some.2 this
    rw [h] at this
    exact Option.some.inj this
  subst hg
  have herase' : (flights.erase k).entries = l₁ ++ l₂ := herase
  rw [count, count, herase', hentries, List.countP_append, List.countP_append,
    List.countP_cons, Nat.add_assoc]

/-- A step of a process that was counted, or is. -/
theorem count_put {o : Option φ} (h : flights.lookup k = some f) :
    count p (put flights k o) + (if p f then 1 else 0) =
      count p flights + o.elim 0 fun g => if p g then 1 else 0 := by
  cases o with
  | none => exact count_erase h
  | some g =>
    have hinsert : count p (flights.insert k g) = count p (flights.erase k) + if p g then 1 else 0 := by
      rw [count, AList.entries_insert, List.countP_cons]
      rfl
    rw [put, hinsert, ← count_erase h, Option.elim_some]
    omega

end

/-! ## Locks -/

/-- Who has locked what. -/
abbrev Locks (κ : Type) := κ → Option Nat

namespace Locks

variable {κ : Type} {l l' : Locks κ} {k k' : Nat} {key key' : κ}

/-- Process `k` is over. -/
def release (l : Locks κ) (k : Nat) : Locks κ := fun key => if l key = some k then none else l key

theorem release_others (hne : k' ≠ k) (hk' : l key = some k') : l.release k key = some k' := by
  unfold release
  rw [if_neg, hk']
  rw [hk', Option.some.injEq]
  exact hne

/-- Nobody else has locked it. -/
def Free (l : Locks κ) (k : Nat) (key : κ) : Prop := ∀ k', l key = some k' → k' = k

theorem free_of_held (h : l key = some k) : Free l k key := by
  intro k' hk'
  rw [h] at hk'
  exact (Option.some.inj hk').symm

variable [DecidableEq κ]

/-- Process `k` locks it; `none` when it has to wait. -/
def acquire (l : Locks κ) (k : Nat) (key : κ) : Option (Locks κ) :=
  if l key = none ∨ l key = some k then some (Function.update l key (some k)) else none

theorem acquire_eq_some (h : acquire l k key = some l') :
    Free l k key ∧ l' = Function.update l key (some k) := by
  unfold acquire at h
  split at h
  · rename_i hkey
    cases h
    refine ⟨fun k' hk' => ?_, rfl⟩
    rcases hkey with hkey | hkey
    · rw [hkey] at hk'
      cases hk'
    · rw [hkey] at hk'
      exact (Option.some.inj hk').symm
  · cases h

theorem acquire_held (h : acquire l k key = some l') : l' key = some k := by
  rw [(acquire_eq_some h).2, Function.update_self]

/-- A process that is over has locked nothing. -/
theorem release_acquire (h : acquire l k key = some l') : l'.release k = l.release k := by
  obtain ⟨hfree, rfl⟩ := acquire_eq_some h
  funext key'
  unfold release
  by_cases heq : key' = key
  · subst heq
    rw [Function.update_self, if_pos rfl]
    cases hkey : l key' with
    | none => rw [if_neg (by simp)]
    | some k' => rw [hfree k' hkey, if_pos rfl]
  · rw [Function.update_of_ne heq]

/-- What is locked stays so. -/
theorem acquire_keeps (h : acquire l k key = some l') (hk' : l key' = some k') :
    l' key' = some k' := by
  obtain ⟨hfree, rfl⟩ := acquire_eq_some h
  by_cases heq : key' = key
  · subst heq
    rw [Function.update_self, hfree k' hk']
  · rw [Function.update_of_ne heq, hk']

/-- Process `k` locks them all; `none` when it has to wait for one of them. -/
def acquireAll (l : Locks κ) (k : Nat) : List κ → Option (Locks κ)
  | [] => some l
  | key :: keys => (l.acquire k key).bind fun l => l.acquireAll k keys

theorem acquireAll_keeps {keys : List κ} (h : acquireAll l k keys = some l') (hk' : l key' = some k') :
    l' key' = some k' := by
  induction keys generalizing l with
  | nil =>
    cases h
    exact hk'
  | cons key keys ih =>
    obtain ⟨l₁, hl₁, h⟩ := Option.bind_eq_some_iff.1 h
    exact ih h (acquire_keeps hl₁ hk')

theorem acquireAll_held {keys : List κ} (h : acquireAll l k keys = some l') :
    ∀ key ∈ keys, l' key = some k := by
  induction keys generalizing l with
  | nil => exact fun _ hkey => by cases hkey
  | cons key keys ih =>
    obtain ⟨l₁, hl₁, hrest⟩ := Option.bind_eq_some_iff.1 h
    intro key' hkey'
    rcases List.mem_cons.1 hkey' with rfl | hkey'
    · exact acquireAll_keeps hrest (acquire_held hl₁)
    · exact ih hrest key' hkey'

end Locks

/-- Who has locked something, and in which mode. -/
abbrev Modes (μ : Type) := List (Nat × μ)

namespace Modes

variable {μ : Type} {conflicts : μ → μ → Bool} {l l' : Modes μ} {k k' : Nat} {m m' : μ}

/-- Process `k` locks it in `m`; `none` when it has to wait. -/
def acquire (conflicts : μ → μ → Bool) (l : Modes μ) (k : Nat) (m : μ) : Option (Modes μ) :=
  if ∀ held ∈ l, held.1 = k ∨ conflicts held.2 m = false then some ((k, m) :: l) else none

/-- Process `k` is over. -/
def release (l : Modes μ) (k : Nat) : Modes μ := l.filter fun held => held.1 ≠ k

/-- What two processes hold does not conflict. -/
def Apart (conflicts : μ → μ → Bool) (l : Modes μ) : Prop :=
  ∀ a ∈ l, ∀ b ∈ l, a.1 ≠ b.1 → conflicts a.2 b.2 = false

theorem acquire_eq_some (h : acquire conflicts l k m = some l') : l' = (k, m) :: l := by
  unfold acquire at h
  split at h
  · cases h
    rfl
  · cases h

theorem acquire_held (h : acquire conflicts l k m = some l') : (k, m) ∈ l' := by
  rw [acquire_eq_some h]
  exact List.mem_cons_self

theorem acquire_keeps (h : acquire conflicts l k m = some l') (hk' : (k', m') ∈ l) : (k', m') ∈ l' := by
  rw [acquire_eq_some h]
  exact List.mem_cons_of_mem _ hk'

theorem release_others (hne : k' ≠ k) (hk' : (k', m) ∈ l) : (k', m) ∈ l.release k :=
  List.mem_filter.2 ⟨hk', decide_eq_true hne⟩

theorem Apart.release (h : Apart conflicts l) : Apart conflicts (l.release k) := fun a ha b hb =>
  h a (List.mem_of_mem_filter ha) b (List.mem_of_mem_filter hb)

theorem Apart.acquire (hsymm : ∀ a b, conflicts a b = conflicts b a) (hl : Apart conflicts l)
    (h : acquire conflicts l k m = some l') : Apart conflicts l' := by
  have hfree : ∀ held ∈ l, held.1 = k ∨ conflicts held.2 m = false := by
    unfold Modes.acquire at h
    split at h
    · assumption
    · cases h
  rw [acquire_eq_some h]
  intro a ha b hb hne
  rcases List.mem_cons.1 ha with rfl | ha
  · rcases List.mem_cons.1 hb with rfl | hb
    · exact absurd rfl hne
    · rw [hsymm]
      exact (hfree b hb).resolve_left fun heq => hne heq.symm
  · rcases List.mem_cons.1 hb with rfl | hb
    · exact (hfree a ha).resolve_left hne
    · exact hl a ha b hb hne

end Modes

end Interleave
