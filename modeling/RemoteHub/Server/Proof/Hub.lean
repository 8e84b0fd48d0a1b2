import RemoteHub.Server.Hub

/-!
# The hub stays consistent

Over every interleaving of registrations, their drops, calls, answers, timeouts and dropped futures
(`hub_consistent`):

- a connector is online just while its registration inserted last is not dropped;
- a call is answered at most once and by the connector it asks, and no other answer changes anything;
- a call that has returned has no entry;
- the count of carried connections is that of the processes that hold a `Carrying` (`Counted`).

`Sound` holds of the shared state and `Ready` of the processes; `Kept` is what a process relies on of the
others' steps. Ids, generations and claims are each given to one process, once.
-/

namespace Server.Hub

open Model Interleave

variable {s s' : Shared} {k k' : Nat} {f : Flight}

/-! ## The invariant -/

structure Sound (s : Shared) : Prop where
  owners : ∀ g o, s.owners.lookup g = some o → g < s.generation
  effective : ∀ c g, s.effective.lookup c = some g → ∃ k, s.owners.lookup g = some (k, c)
  dropped : ∀ g ∈ s.dropped, g < s.generation
  online : ∀ c, s.online.lookup c = (s.effective.lookup c).filter (· ∉ s.dropped)
  pending : ∀ id c, s.pending.lookup id = some c → id ∉ s.claimers ∧
    ∃ call whom, s.asked.lookup id = some call ∧ call.kind = .stream whom ∧ call.connector = c
  checks : ∀ id c, s.checks.lookup id = some c → id ∉ s.claimers ∧
    ∃ call, s.asked.lookup id = some call ∧ call.kind = .check ∧ call.connector = c
  claimers : ∀ id ∈ s.claimers, id ∈ s.asked
  once : (s.answers.map (·.1)).Nodup
  answers : ∀ e ∈ s.answers, e.1 ∈ s.claimers ∧
    ∃ call, s.asked.lookup e.1 = some call ∧ call.connector = e.2
  returned : ∀ id ∈ s.returned, id ∈ s.asked ∧ id ∉ s.pending ∧ id ∉ s.checks
  queues : ∀ g queue, s.queues.lookup g = some queue → ∀ m ∈ queue, ∃ k c call,
    s.owners.lookup g = some (k, c) ∧ s.asked.lookup m.id = some call ∧ call.connector = c

def Ready (k : Nat) (s : Shared) : Flight → Prop
  | .numbered c g => s.owners.lookup g = some (k, c) ∧ g ∉ s.dropped
  | .registered c g => s.owners.lookup g = some (k, c)
  | .found call g => ∃ k', s.owners.lookup g = some (k', call.connector)
  | .inserted call g =>
    (∃ k', s.owners.lookup g = some (k', call.connector)) ∧ s.asked.lookup call.id = some call
  | .waits call | .removing call _ => s.asked.lookup call.id = some call
  | .claimed c id _ => s.claimers.lookup id = some k ∧ id ∉ s.answers.map (·.1) ∧
    ∃ call, s.asked.lookup id = some call ∧ call.connector = c
  | .registers _ | .closing _ | .calls _ | .counts _ | .counted _ | .carrying _ | .claims _ _
  | .fails .. | .checked .. => True

/-- What a process relies on of a step of process `k`. -/
structure Kept (k : Nat) (s s' : Shared) : Prop where
  owners : ∀ g o, s.owners.lookup g = some o → s'.owners.lookup g = some o
  asked : ∀ id call, s.asked.lookup id = some call → s'.asked.lookup id = some call
  claimers : ∀ id k, s.claimers.lookup id = some k → s'.claimers.lookup id = some k
  dropped : ∀ g ∈ s'.dropped, g ∈ s.dropped ∨ ∃ c, s'.owners.lookup g = some (k, c)
  answers : ∀ id ∈ s'.answers.map (·.1), id ∈ s.answers.map (·.1) ∨
    s'.claimers.lookup id = some k

theorem Kept.of_eq (howners : s'.owners = s.owners) (hasked : s'.asked = s.asked)
    (hclaimers : s'.claimers = s.claimers) (hdropped : s'.dropped = s.dropped)
    (hanswers : s'.answers = s.answers) : Kept k s s' :=
  ⟨fun _ _ h => howners ▸ h, fun _ _ h => hasked ▸ h, fun _ _ h => hclaimers ▸ h,
    fun _ h => .inl (hdropped ▸ h), fun _ h => .inl (hanswers ▸ h)⟩

theorem Kept.refl : Kept k s s := .of_eq rfl rfl rfl rfl rfl

theorem Kept.trans {s'' : Shared} (h : Kept k s s') (h' : Kept k s' s'') : Kept k s s'' where
  owners g o ho := h'.owners g o (h.owners g o ho)
  asked id call hcall := h'.asked id call (h.asked id call hcall)
  claimers id k' hk' := h'.claimers id k' (h.claimers id k' hk')
  dropped g hg := by
    rcases h'.dropped g hg with hg | hg
    · exact (h.dropped g hg).imp_right fun ⟨c, hc⟩ => ⟨c, h'.owners _ _ hc⟩
    · exact .inr hg
  answers id hid := by
    rcases h'.answers id hid with hid | hid
    · exact (h.answers id hid).imp_right (h'.claimers id k)
    · exact .inr hid

/-- A step of another process, or outside of all. -/
theorem Ready.mono (h : Ready k s f) (hk : Kept k' s s') (hne : k ≠ k') : Ready k s' f := by
  cases f with
  | numbered c g =>
    refine ⟨hk.owners _ _ h.1, fun hdropped => ?_⟩
    rcases hk.dropped g hdropped with hdropped | ⟨c', howner⟩
    · exact h.2 hdropped
    · rw [hk.owners _ _ h.1] at howner
      cases howner
      exact hne rfl
  | registered c g => exact hk.owners _ _ h
  | found call g =>
    obtain ⟨o, ho⟩ := h
    exact ⟨o, hk.owners _ _ ho⟩
  | inserted call g =>
    obtain ⟨⟨o, ho⟩, hasked⟩ := h
    exact ⟨⟨o, hk.owners _ _ ho⟩, hk.asked _ _ hasked⟩
  | waits | removing => exact hk.asked _ _ h
  | claimed c id answer =>
    obtain ⟨hclaimer, hanswers, call, hasked, hc⟩ := h
    refine ⟨hk.claimers _ _ hclaimer, fun hmem => ?_, call, hk.asked _ _ hasked, hc⟩
    rcases hk.answers id hmem with hmem | hmem
    · exact hanswers hmem
    · rw [hk.claimers _ _ hclaimer] at hmem
      exact hne (Option.some.inj hmem)
  | _ => trivial

/-! ## Steps -/

/-- What a step of process `k` leaves. -/
structure Moves (k : Nat) (s : Shared) (r : Shared × Option Flight) : Prop where
  sound : Sound r.1
  ready : ∀ g, r.2 = some g → Ready k r.1 g
  kept : Kept k s r.1

theorem Moves.goOn (hs : Sound s) (h : Ready k s f) : Moves k s (s, some f) where
  sound := hs
  ready g hg := by
    cases hg
    exact h
  kept := .refl

theorem Moves.over (hs : Sound s) : Moves k s (s, none) := ⟨hs, ready_of_none, .refl⟩

/-- Neither the counts nor the channels, queues that are closed and processes that are to end matter. -/
theorem Sound.counts {carrying carried : HashMap Uuid Nat} (hs : Sound s) :
    Sound { s with carrying, carried } :=
  ⟨hs.owners, hs.effective, hs.dropped, hs.online, hs.pending, hs.checks, hs.claimers, hs.once,
    hs.answers, hs.returned, hs.queues⟩

theorem Sound.waiting {late cancelled closed : List Nat} {replies : HashMap Uuid Reply}
    (hs : Sound s) : Sound { s with late, cancelled, closed, replies } :=
  ⟨hs.owners, hs.effective, hs.dropped, hs.online, hs.pending, hs.checks, hs.claimers, hs.once,
    hs.answers, hs.returned, hs.queues⟩

theorem registers_moves {connector : Uuid} (hs : Sound s) :
    Moves k s
      ({ s with
          generation := s.generation + 1
          owners := s.owners.insert s.generation (k, connector) },
        some (.numbered connector s.generation)) := by
  have howners : ∀ g o, s.owners.lookup g = some o →
      (s.owners.insert s.generation (k, connector)).lookup g = some o := by
    intro g o h
    rw [AList.lookup_insert_ne (hs.owners g o h).ne]
    exact h
  refine ⟨⟨?_, ?_, ?_, hs.online, hs.pending, hs.checks, hs.claimers, hs.once, hs.answers, hs.returned,
    ?_⟩, fun g hg => ?_, ⟨howners, fun _ _ h => h, fun _ _ h => h, fun _ h => .inl h, fun _ h => .inl h⟩⟩
  · intro g o h
    rw [HashMap.lookup_insert_eq] at h
    split at h
    · rename_i heq
      exact heq ▸ Nat.lt_succ_self _
    · exact (hs.owners g o h).trans (Nat.lt_succ_self _)
  · intro c g h
    obtain ⟨k', ho⟩ := hs.effective c g h
    exact ⟨k', howners _ _ ho⟩
  · exact fun g h => (hs.dropped g h).trans (Nat.lt_succ_self _)
  · intro g queue hqueue m hm
    obtain ⟨k', c, call, ho, hasked⟩ := hs.queues g queue hqueue m hm
    exact ⟨k', c, call, howners _ _ ho, hasked⟩
  · cases hg
    exact ⟨AList.lookup_insert _, fun h => (hs.dropped _ h).false⟩

theorem numbered_moves {connector : Uuid} {g : Nat} (hs : Sound s)
    (hready : Ready k s (.numbered connector g)) :
    Moves k s
      ({ s with
          online := s.online.insert connector g
          effective := s.effective.insert connector g },
        some (.registered connector g)) := by
  obtain ⟨howner, hdropped⟩ := hready
  refine ⟨⟨hs.owners, ?_, hs.dropped, ?_, hs.pending, hs.checks, hs.claimers, hs.once, hs.answers,
    hs.returned, hs.queues⟩, fun f hf => ?_, ⟨fun _ _ h => h, fun _ _ h => h, fun _ _ h => h,
    fun _ h => .inl h, fun _ h => .inl h⟩⟩
  · intro c g' h
    rw [HashMap.lookup_insert_eq] at h
    split at h
    · rename_i heq
      cases h
      exact ⟨k, heq ▸ howner⟩
    · exact hs.effective c g' h
  · intro c
    change (s.online.insert connector g).lookup c =
      ((s.effective.insert connector g).lookup c).filter (· ∉ s.dropped)
    rw [HashMap.lookup_insert_eq, HashMap.lookup_insert_eq]
    split
    · rw [Option.filter_some, if_pos (decide_eq_true hdropped)]
    · exact hs.online c
  · cases hf
    exact howner

theorem drop_eq (connector : Uuid) (g : Nat) :
    s.drop connector g = { s with
      dropped := g :: s.dropped
      online := if s.online.lookup connector = some g then s.online.erase connector else s.online } := by
  simp only [Shared.drop]
  split
  · rfl
  · rfl

/-- The drop of an earlier registration takes no later one offline. -/
theorem drop_moves {connector : Uuid} {g : Nat} (hs : Sound s)
    (howner : s.owners.lookup g = some (k, connector)) :
    Moves k s (s.drop connector g, some (.closing g)) := by
  rw [drop_eq]
  refine ⟨⟨hs.owners, hs.effective, ?_, ?_, hs.pending, hs.checks, hs.claimers, hs.once, hs.answers,
    hs.returned, hs.queues⟩, fun f hf => ?_, ⟨fun _ _ h => h, fun _ _ h => h, fun _ _ h => h, ?_,
    fun _ h => .inl h⟩⟩
  · intro g' hg'
    rcases List.mem_cons.1 hg' with rfl | hg'
    · exact hs.owners _ _ howner
    · exact hs.dropped g' hg'
  · intro c
    change (if s.online.lookup connector = some g then s.online.erase connector else s.online).lookup c =
      (s.effective.lookup c).filter (· ∉ g :: s.dropped)
    have honline : s.online.lookup c = (s.effective.lookup c).filter (· ∉ s.dropped) := hs.online c
    by_cases hown : s.effective.lookup c = some g
    · -- `g` is the generation of one connector only
      obtain ⟨k', howner'⟩ := hs.effective c g hown
      rw [howner] at howner'
      cases howner'
      have hgone : (some g).filter (· ∉ g :: s.dropped) = none := by simp
      rw [hown, hgone]
      split
      · exact AList.lookup_erase _ _
      · rename_i hne
        rw [honline, hown, Option.filter_some, if_neg]
        intro h
        rw [honline, hown, Option.filter_some, if_pos h] at hne
        exact hne rfl
    · have hfilter : (s.effective.lookup c).filter (· ∉ g :: s.dropped) = s.online.lookup c := by
        rw [honline]
        cases heff : s.effective.lookup c with
        | none => rfl
        | some g' =>
          have hne : g' ≠ g := fun heq => hown (heff.trans (congrArg some heq))
          simp [Option.filter_some, hne]
      rw [hfilter]
      split
      · rename_i heq
        have hne : c ≠ connector := by
          rintro rfl
          rw [honline, Option.filter_eq_some_iff] at heq
          exact hown heq.1
        exact AList.lookup_erase_ne hne
      · rfl
  · cases hf
    trivial
  · intro g' hg'
    rcases List.mem_cons.1 hg' with rfl | hg'
    · exact .inr ⟨connector, howner⟩
    · exact .inl hg'

/-- The entry that a call leaves. -/
theorem insert_eq (call : Call) :
    s.insert call = { s with
      asked := s.asked.insert call.id call
      pending := match call.kind with
        | .stream _ => s.pending.insert call.id call.connector
        | .check => s.pending
      checks := match call.kind with
        | .stream _ => s.checks
        | .check => s.checks.insert call.id call.connector } := by
  unfold Shared.insert
  split
  · rename_i h
    simp only [h]
  · rename_i h
    simp only [h]

theorem insert_moves {call : Call} {g : Nat} (hs : Sound s) (hready : Ready k s (.found call g))
    (hnew : call.id ∉ s.asked) : Moves k s (s.insert call, some (.inserted call g)) := by
  have hasked : ∀ id call', s.asked.lookup id = some call' →
      (s.asked.insert call.id call).lookup id = some call' := by
    intro id call' h
    have hne : id ≠ call.id := by
      rintro rfl
      exact hnew (AList.lookup_isSome.1 (by rw [h]; rfl))
    rw [AList.lookup_insert_ne hne]
    exact h
  have hclaimer : call.id ∉ s.claimers := fun h => hnew (hs.claimers _ h)
  rw [insert_eq]
  refine ⟨⟨hs.owners, hs.effective, hs.dropped, hs.online, ?_, ?_, ?_, hs.once, ?_, ?_, ?_⟩,
    fun f hf => ?_, ⟨fun _ _ h => h, hasked, fun _ _ h => h, fun _ h => .inl h, fun _ h => .inl h⟩⟩
  · intro id c h
    change (match call.kind with
      | .stream _ => s.pending.insert call.id call.connector
      | .check => s.pending).lookup id = some c at h
    have hold : s.pending.lookup id = some c → id ∉ s.claimers ∧ ∃ call' whom,
        (s.asked.insert call.id call).lookup id = some call' ∧ call'.kind = .stream whom ∧
          call'.connector = c := by
      intro h
      obtain ⟨hclaimer, call', whom, hcall, hc⟩ := hs.pending id c h
      exact ⟨hclaimer, call', whom, hasked _ _ hcall, hc⟩
    split at h
    · rename_i whom hkind
      rw [HashMap.lookup_insert_eq] at h
      split at h
      · rename_i heq
        cases h
        exact ⟨heq ▸ hclaimer, call, whom, heq ▸ AList.lookup_insert _, hkind, rfl⟩
      · exact hold h
    · exact hold h
  · intro id c h
    change (match call.kind with
      | .stream _ => s.checks
      | .check => s.checks.insert call.id call.connector).lookup id = some c at h
    have hold : s.checks.lookup id = some c → id ∉ s.claimers ∧ ∃ call',
        (s.asked.insert call.id call).lookup id = some call' ∧ call'.kind = .check ∧
          call'.connector = c := by
      intro h
      obtain ⟨hclaimer, call', hcall, hc⟩ := hs.checks id c h
      exact ⟨hclaimer, call', hasked _ _ hcall, hc⟩
    split at h
    · exact hold h
    · rename_i hkind
      rw [HashMap.lookup_insert_eq] at h
      split at h
      · rename_i heq
        cases h
        exact ⟨heq ▸ hclaimer, call, heq ▸ AList.lookup_insert _, hkind, rfl⟩
      · exact hold h
  · exact fun id h => (AList.mem_insert _).2 (.inr (hs.claimers id h))
  · intro e he
    obtain ⟨hclaimed, call', hcall, hc⟩ := hs.answers e he
    exact ⟨hclaimed, call', hasked _ _ hcall, hc⟩
  · intro id hid
    obtain ⟨hknown, hpending, hchecks⟩ := hs.returned id hid
    have hne : id ≠ call.id := fun heq => hnew (heq ▸ hknown)
    refine ⟨(AList.mem_insert _).2 (.inr hknown), ?_, ?_⟩
    · split
      · exact fun h => hpending (((AList.mem_insert _).1 h).resolve_left hne)
      · exact hpending
    · split
      · exact hchecks
      · exact fun h => hchecks (((AList.mem_insert _).1 h).resolve_left hne)
  · intro g queue hqueue m hm
    obtain ⟨k', c, call', ho, hcall, hc⟩ := hs.queues g queue hqueue m hm
    exact ⟨k', c, call', ho, hasked _ _ hcall, hc⟩
  · cases hf
    exact ⟨hready, AList.lookup_insert _⟩

theorem ask_moves {call : Call} {g : Nat} {queue : List Control} (hs : Sound s)
    (hready : Ready k s (.inserted call g)) (hqueue : queue = (s.queues.lookup g).getD []) :
    Moves k s ({ s with queues := s.queues.insert g (queue ++ [call.control]) },
      some (.waits call)) := by
  obtain ⟨⟨k', howner⟩, hcall⟩ := hready
  refine ⟨⟨hs.owners, hs.effective, hs.dropped, hs.online, hs.pending, hs.checks, hs.claimers, hs.once,
    hs.answers, hs.returned, ?_⟩, fun f hf => ?_, .of_eq rfl rfl rfl rfl rfl⟩
  · intro g' queue' hqueue' m hm
    change (s.queues.insert g (queue ++ [call.control])).lookup g' = some queue' at hqueue'
    rw [HashMap.lookup_insert_eq] at hqueue'
    split at hqueue'
    · rename_i heq
      subst heq
      cases hqueue'
      rcases List.mem_append.1 hm with hm | hm
      · cases hfound : s.queues.lookup g' with
        | none =>
          rw [hqueue, hfound] at hm
          cases hm
        | some old =>
          rw [hqueue, hfound] at hm
          exact hs.queues g' old hfound m hm
      · have hid : m.id = call.id := by
          rw [List.mem_singleton.1 hm, Call.control]
          split
          · rfl
          · rfl
        exact ⟨k', call.connector, call, howner, hid ▸ hcall, rfl⟩
    · exact hs.queues g' queue' hqueue' m hm
  · cases hf
    exact hcall

/-- What a call leaves of its entry: nothing. -/
theorem remove_eq (call : Call) :
    s.remove call = { s with
      returned := call.id :: s.returned
      pending := match call.kind with
        | .stream _ => s.pending.erase call.id
        | .check => s.pending
      checks := match call.kind with
        | .stream _ => s.checks
        | .check => s.checks.erase call.id } := by
  unfold Shared.remove
  split
  · rename_i h
    simp only [h]
  · rename_i h
    simp only [h]

theorem remove_sound {call : Call} (hs : Sound s) (hcall : s.asked.lookup call.id = some call) :
    Sound (s.remove call) := by
  rw [remove_eq]
  refine ⟨hs.owners, hs.effective, hs.dropped, hs.online, ?_, ?_, hs.claimers, hs.once, hs.answers, ?_,
    hs.queues⟩
  · intro id c h
    refine hs.pending id c ?_
    change (match call.kind with
      | .stream _ => s.pending.erase call.id
      | .check => s.pending).lookup id = some c at h
    split at h
    · exact (HashMap.of_lookup_erase h).2
    · exact h
  · intro id c h
    refine hs.checks id c ?_
    change (match call.kind with
      | .stream _ => s.checks
      | .check => s.checks.erase call.id).lookup id = some c at h
    split at h
    · exact h
    · exact (HashMap.of_lookup_erase h).2
  · intro id hid
    have hsplit : id = call.id ∨ id ∈ s.returned := List.mem_cons.1 hid
    rcases hsplit with rfl | hid
    · refine ⟨AList.lookup_isSome.1 (by rw [hcall]; rfl), ?_, ?_⟩
      · split
        · exact fun h => (AList.mem_erase.1 h).1 rfl
        · rename_i hkind
          intro h
          obtain ⟨c, hc⟩ := Option.isSome_iff_exists.1 (AList.lookup_isSome.2 h)
          obtain ⟨-, call', whom, hcall', hkind', -⟩ := hs.pending _ c hc
          rw [hcall] at hcall'
          cases hcall'
          rw [hkind] at hkind'
          cases hkind'
      · split
        · rename_i hkind
          intro h
          obtain ⟨c, hc⟩ := Option.isSome_iff_exists.1 (AList.lookup_isSome.2 h)
          obtain ⟨-, call', hcall', hkind', -⟩ := hs.checks _ c hc
          rw [hcall] at hcall'
          cases hcall'
          rw [hkind] at hkind'
          cases hkind'
        · exact fun h => (AList.mem_erase.1 h).1 rfl
    · obtain ⟨hknown, hpending, hchecks⟩ := hs.returned id hid
      refine ⟨hknown, ?_, ?_⟩
      · split
        · exact fun h => hpending (AList.mem_erase.1 h).2
        · exact hpending
      · split
        · exact hchecks
        · exact fun h => hchecks (AList.mem_erase.1 h).2

theorem remove_moves {call : Call} {o : Option Flight} (hs : Sound s)
    (hcall : s.asked.lookup call.id = some call) (ho : ∀ g, o = some g → ∃ c, g = .counts c) :
    Moves k s (s.remove call, o) := by
  refine ⟨remove_sound hs hcall, fun g hg => ?_, ?_⟩
  · obtain ⟨c, rfl⟩ := ho g hg
    trivial
  · rw [remove_eq]
    exact .of_eq rfl rfl rfl rfl rfl

theorem mem_of_lookup {ν : Type} {m : HashMap Uuid ν} {id : Uuid} {v : ν}
    (h : m.lookup id = some v) : id ∈ m := AList.lookup_isSome.1 (by rw [h]; rfl)

/-- An entry that is taken out is for the process that takes it, and nobody has answered it. -/
theorem takes_moves {id : Uuid} {call : Call} {answer : Answer} {pending checks : HashMap Uuid Uuid}
    (hs : Sound s) (hclaimer : id ∉ s.claimers) (hcall : s.asked.lookup id = some call)
    (hpending : ∀ id' c, pending.lookup id' = some c → id' ≠ id ∧ s.pending.lookup id' = some c)
    (hchecks : ∀ id' c, checks.lookup id' = some c → id' ≠ id ∧ s.checks.lookup id' = some c) :
    Moves k s ({ s with pending, checks, claimers := s.claimers.insert id k },
      some (.claimed call.connector id answer)) := by
  have hclaimers : ∀ id' k', s.claimers.lookup id' = some k' →
      (s.claimers.insert id k).lookup id' = some k' := by
    intro id' k' h
    have hne : id' ≠ id := by
      rintro rfl
      exact hclaimer (mem_of_lookup h)
    rw [AList.lookup_insert_ne hne]
    exact h
  have hmem : ∀ id', id' ∈ s.claimers.insert id k ↔ id' = id ∨ id' ∈ s.claimers := fun id' =>
    AList.mem_insert _
  refine ⟨⟨hs.owners, hs.effective, hs.dropped, hs.online, ?_, ?_, ?_, hs.once, ?_, ?_, hs.queues⟩,
    fun g hg => ?_, ⟨fun _ _ h => h, fun _ _ h => h, hclaimers, fun _ h => .inl h, fun _ h => .inl h⟩⟩
  · intro id' c h
    obtain ⟨hne, h⟩ := hpending id' c h
    obtain ⟨hnot, hcall'⟩ := hs.pending id' c h
    exact ⟨fun h => ((hmem id').1 h).elim hne hnot, hcall'⟩
  · intro id' c h
    obtain ⟨hne, h⟩ := hchecks id' c h
    obtain ⟨hnot, hcall'⟩ := hs.checks id' c h
    exact ⟨fun h => ((hmem id').1 h).elim hne hnot, hcall'⟩
  · intro id' h
    rcases (hmem id').1 h with rfl | h
    · exact mem_of_lookup hcall
    · exact hs.claimers id' h
  · intro e he
    obtain ⟨hclaimed, hcall'⟩ := hs.answers e he
    exact ⟨(hmem _).2 (.inr hclaimed), hcall'⟩
  · intro id' hid
    obtain ⟨hknown, hpending', hchecks'⟩ := hs.returned id' hid
    refine ⟨hknown, fun h => ?_, fun h => ?_⟩
    · obtain ⟨c, hc⟩ := Option.isSome_iff_exists.1 (AList.lookup_isSome.2 h)
      exact hpending' (mem_of_lookup (hpending id' c hc).2)
    · obtain ⟨c, hc⟩ := Option.isSome_iff_exists.1 (AList.lookup_isSome.2 h)
      exact hchecks' (mem_of_lookup (hchecks id' c hc).2)
  · cases hg
    refine ⟨AList.lookup_insert _, fun hanswered => ?_, call, hcall, rfl⟩
    obtain ⟨e, he, rfl⟩ := List.mem_map.1 hanswered
    exact hclaimer (hs.answers e he).1

theorem claim_moves {connector id : Uuid} {answer : Answer} (hs : Sound s) :
    Moves k s (s.answerBy k connector id answer) := by
  unfold Shared.answerBy Shared.claim
  split
  · exact .over hs
  · rename_i s' h
    split at h
    · rename_i hpending
      cases h
      obtain ⟨hclaimer, call, whom, hcall, hkind, rfl⟩ := hs.pending id connector hpending
      refine takes_moves hs hclaimer hcall (fun _ _ h => HashMap.of_lookup_erase h) fun id' c h => ?_
      refine ⟨?_, h⟩
      rintro rfl
      obtain ⟨-, call', hcall', hkind', -⟩ := hs.checks _ c h
      rw [hcall] at hcall'
      cases hcall'
      rw [hkind] at hkind'
      cases hkind'
    · cases h

theorem send_moves {connector id : Uuid} {answer answer' : Answer} (hs : Sound s)
    (hready : Ready k s (.claimed connector id answer)) :
    Moves k s (s.send connector id answer', none) := by
  obtain ⟨hclaimer, hanswers, call, hcall, hc⟩ := hready
  refine ⟨⟨hs.owners, hs.effective, hs.dropped, hs.online, hs.pending, hs.checks, hs.claimers, ?_, ?_,
    hs.returned, hs.queues⟩, ready_of_none, ⟨fun _ _ h => h, fun _ _ h => h, fun _ _ h => h,
    fun _ h => .inl h, ?_⟩⟩
  · change ((s.answers ++ [(id, connector)]).map (·.1)).Nodup
    rw [List.map_append]
    refine hs.once.append (List.nodup_singleton _) fun a ha ha' => ?_
    rw [List.mem_singleton.1 ha'] at ha
    exact hanswers ha
  · intro e he
    rcases List.mem_append.1 he with he | he
    · exact hs.answers e he
    · rw [List.mem_singleton.1 he]
      exact ⟨mem_of_lookup hclaimer, call, hcall, hc⟩
  · intro id' hid
    change id' ∈ (s.answers ++ [(id, connector)]).map (·.1) at hid
    rw [List.map_append, List.mem_append] at hid
    refine hid.imp_right fun hid => ?_
    rw [List.mem_singleton.1 hid]
    exact hclaimer

theorem checked_moves {connector id : Uuid} {isOpen : Bool} {ends : Option String} (hs : Sound s) :
    Moves k s (s.checkedBy k connector id isOpen ends, none) := by
  unfold Shared.checkedBy
  split
  · rename_i hchecks
    obtain ⟨hclaimer, call, hcall, hkind, rfl⟩ := hs.checks id connector hchecks
    have htaken : Moves k s
        ({ s with checks := s.checks.erase id, claimers := s.claimers.insert id k },
          some (.claimed call.connector id (.checked isOpen ends))) := by
      refine takes_moves hs hclaimer hcall (fun id' c h => ?_) fun _ _ h => HashMap.of_lookup_erase h
      refine ⟨?_, h⟩
      rintro rfl
      obtain ⟨-, call', whom, hcall', hkind', -⟩ := hs.pending _ c h
      rw [hcall] at hcall'
      cases hcall'
      rw [hkind] at hkind'
      cases hkind'
    have hsent : Moves k _ (Shared.send _ call.connector id (.checked isOpen ends), none) :=
      send_moves htaken.sound (htaken.ready _ rfl)
    exact ⟨hsent.sound, hsent.ready, htaken.kept.trans hsent.kept⟩
  · exact .over hs

theorem step_moves {r : Shared × Option Flight} (hs : Sound s) (hready : Ready k s f)
    (h : f.step k s = some r) : Moves k s r := by
  cases f with
  | registers connector =>
    cases h
    exact registers_moves hs
  | numbered connector g =>
    cases h
    exact numbered_moves hs hready
  | registered connector g =>
    cases h
    exact drop_moves hs hready
  | closing g =>
    cases h
    exact ⟨hs.waiting, ready_of_none, .of_eq rfl rfl rfl rfl rfl⟩
  | calls call =>
    cases h
    cases honline : s.online.lookup call.connector with
    | none => exact .over hs
    | some g =>
      refine .goOn hs ?_
      rw [hs.online, Option.filter_eq_some_iff] at honline
      exact hs.effective call.connector g honline.1
  | found call g =>
    simp only [Flight.step] at h
    split at h
    · cases h
    · rename_i hnew
      cases h
      exact insert_moves hs hready hnew
  | inserted call g =>
    simp only [Flight.step] at h
    split at h
    · cases h
      exact .goOn hs hready.2
    · split at h
      · cases h
        exact ask_moves hs hready rfl
      · cases h
  | waits call =>
    simp only [Flight.step] at h
    split at h
    · cases h
      exact .goOn hs hready
    · split at h
      · cases h
        refine ⟨hs.waiting, fun g hg => ?_, .of_eq rfl rfl rfl rfl rfl⟩
        cases hg
        exact hready
      · cases h
  | removing call result =>
    simp only [Flight.step] at h
    split at h
    · cases h
      refine remove_moves hs hready fun g hg => ?_
      cases hg
      exact ⟨_, rfl⟩
    · cases h
      exact remove_moves hs hready ready_of_none
  | counts connector | counted connector =>
    cases h
    refine ⟨hs.counts, fun g hg => ?_, .of_eq rfl rfl rfl rfl rfl⟩
    cases hg
    trivial
  | carrying connector =>
    cases h
    unfold Shared.uncount
    split
    · exact .over hs
    · exact ⟨hs.counts, ready_of_none, .of_eq rfl rfl rfl rfl rfl⟩
  | claims connector id =>
    cases h
    exact claim_moves hs
  | fails connector id reason notOpen =>
    cases h
    exact claim_moves hs
  | claimed connector id answer =>
    cases h
    exact send_moves hs hready
  | checked connector id isOpen ends =>
    cases h
    exact checked_moves hs

theorem next_moves {r : Shared × Option Flight} (hs : Sound s) (hready : Ready k s f)
    (h : f.next k s = some r) : Moves k s r := by
  unfold Flight.next at h
  split at h
  · have hmoves : ∀ {late cancelled closed : List Nat} {replies : HashMap Uuid Reply},
        Moves k s ({ s with late, cancelled, closed, replies }, none) :=
      ⟨hs.waiting, ready_of_none, .of_eq rfl rfl rfl rfl rfl⟩
    unfold Flight.cancel at h
    split at h
    · cases h
      exact hmoves
    · cases h
      exact hmoves
    · cases h
      exact hmoves
    · cases h
  · exact step_moves hs hready h

theorem outside_keeps {e : Outside} (hs : Sound s) (h : s.outside e = some s') :
    Sound s' ∧ Kept k s s' ∧ s'.carrying = s.carrying := by
  cases e with
  | timeout k | cancel k =>
    cases h
    exact ⟨hs.waiting, .of_eq rfl rfl rfl rfl rfl, rfl⟩
  | forward g =>
    obtain ⟨queue, hqueue, rfl⟩ := Option.map_eq_some_iff.1 h
    refine ⟨⟨hs.owners, hs.effective, hs.dropped, hs.online, hs.pending, hs.checks, hs.claimers, hs.once,
      hs.answers, hs.returned, fun g' queue' hqueue' m hm => ?_⟩, .of_eq rfl rfl rfl rfl rfl, rfl⟩
    change (s.queues.insert g queue.tail).lookup g' = some queue' at hqueue'
    rw [HashMap.lookup_insert_eq] at hqueue'
    split at hqueue'
    · rename_i heq
      subst heq
      cases hqueue'
      exact hs.queues g' queue hqueue m (List.mem_of_mem_tail hm)
    · exact hs.queues g' queue' hqueue' m hm

/-! ## The counts -/

/-- Whether a process holds a `Carrying` of the connector. -/
def Flight.holds (connector : Uuid) : Flight → Bool
  | .counted c | .carrying c => c = connector
  | _ => false

def Flight.weight (connector : Uuid) (f : Flight) : Nat := if f.holds connector then 1 else 0

/-- A count as the hub stores it: without an entry at zero. -/
def stored (n : Nat) : Option Nat := if n = 0 then none else some n

/-- Each count is that of the processes. -/
def Counted (w : World Shared Flight) : Prop :=
  ∀ c, w.shared.carrying.lookup c = stored (count (Flight.holds c) w.flights)

theorem stored_streams {c : Uuid} (h : s.carrying.lookup c ≠ some 0) :
    s.carrying.lookup c = stored (s.streams c) := by
  unfold Shared.streams
  cases hcount : s.carrying.lookup c with
  | none => rfl
  | some n =>
    have hne : n ≠ 0 := fun heq => h (heq ▸ hcount)
    rw [Option.getD_some, stored, if_neg hne]

theorem uncount_streams {connector c : Uuid} (h : s.carrying.lookup c ≠ some 0) :
    (s.uncount connector).carrying.lookup c =
      stored (s.streams c - Flight.weight c (.carrying connector)) := by
  by_cases hc : connector = c
  · subst hc
    have hweight : Flight.weight connector (.carrying connector) = 1 := if_pos (decide_eq_true rfl)
    rw [hweight]
    unfold Shared.uncount Shared.streams
    cases hcount : s.carrying.lookup connector with
    | none => exact hcount
    | some n =>
      change (if n - 1 = 0 then s.carrying.erase connector
        else s.carrying.insert connector (n - 1)).lookup connector = stored (n - 1)
      unfold stored
      split
      · exact AList.lookup_erase _ _
      · exact AList.lookup_insert _
  · have hweight : Flight.weight c (.carrying connector) = 0 := if_neg (by simp [Flight.holds, hc])
    rw [hweight, Nat.sub_zero, ← stored_streams h]
    unfold Shared.uncount
    split
    · rfl
    · change (if _ then s.carrying.erase connector else s.carrying.insert connector _).lookup c = _
      split
      · exact AList.lookup_erase_ne (Ne.symm hc)
      · exact AList.lookup_insert_ne (Ne.symm hc)

/-- A step without a `Carrying` before or after it. -/
theorem same_streams {o : Option Flight} {c : Uuid} (h : s.carrying.lookup c ≠ some 0)
    (hweight : o.elim 0 (Flight.weight c) = f.weight c) (hcarrying : s'.carrying = s.carrying) :
    s'.carrying.lookup c = stored (s.streams c + o.elim 0 (Flight.weight c) - f.weight c) := by
  rw [hweight, Nat.add_sub_cancel, hcarrying, stored_streams h]

theorem answerBy_streams {connector id c : Uuid} {answer : Answer} {o : Option Flight}
    (h0 : s.carrying.lookup c ≠ some 0) (hf : f.weight c = 0)
    (h : s.answerBy k connector id answer = (s', o)) :
    s'.carrying.lookup c = stored (s.streams c + o.elim 0 (Flight.weight c) - f.weight c) := by
  unfold Shared.answerBy Shared.claim at h
  split at h
  · cases h
    exact same_streams h0 hf.symm rfl
  · rename_i hclaim
    cases h
    split at hclaim
    · cases hclaim
      exact same_streams h0 hf.symm rfl
    · cases hclaim

theorem next_streams {o : Option Flight} {c : Uuid} (h0 : s.carrying.lookup c ≠ some 0)
    (h : f.next k s = some (s', o)) :
    s'.carrying.lookup c = stored (s.streams c + o.elim 0 (Flight.weight c) - f.weight c) := by
  unfold Flight.next at h
  split at h
  · unfold Flight.cancel at h
    split at h
    · cases h
      exact same_streams h0 rfl rfl
    · cases h
      exact same_streams h0 rfl rfl
    · cases h
      exact same_streams h0 rfl rfl
    · cases h
  · cases f with
    | counts connector =>
      cases h
      change (s.carrying.insert connector (s.streams connector + 1)).lookup c =
        stored (s.streams c + Flight.weight c (.counted connector) - 0)
      by_cases hc : c = connector
      · subst hc
        have hweight : Flight.weight c (.counted c) = 1 := if_pos (decide_eq_true rfl)
        rw [AList.lookup_insert, hweight, Nat.sub_zero, stored, if_neg (Nat.succ_ne_zero _)]
      · have hweight : Flight.weight c (.counted connector) = 0 :=
          if_neg (by simp [Flight.holds, Ne.symm hc])
        rw [AList.lookup_insert_ne hc, hweight, Nat.sub_zero, Nat.add_zero, ← stored_streams h0]
    | carrying connector =>
      cases h
      rw [Option.elim_none, Nat.add_zero]
      exact uncount_streams h0
    | counted connector =>
      cases h
      exact same_streams h0 rfl rfl
    | calls call =>
      cases h
      refine same_streams h0 ?_ rfl
      cases s.online.lookup call.connector with
      | none => rfl
      | some g => rfl
    | registers | numbered | closing | claimed =>
      cases h
      exact same_streams h0 rfl rfl
    | registered connector g =>
      cases h
      refine same_streams h0 rfl ?_
      rw [drop_eq]
    | found call g =>
      simp only [Flight.step] at h
      split at h
      · cases h
      · cases h
        refine same_streams h0 rfl ?_
        rw [insert_eq]
    | inserted call g =>
      simp only [Flight.step] at h
      split at h
      · cases h
        exact same_streams h0 rfl rfl
      · split at h
        · cases h
          exact same_streams h0 rfl rfl
        · cases h
    | waits call =>
      simp only [Flight.step] at h
      split at h
      · cases h
        exact same_streams h0 rfl rfl
      · split at h
        · cases h
          exact same_streams h0 rfl rfl
        · cases h
    | removing call result =>
      have hremove : (s.remove call).carrying = s.carrying := by rw [remove_eq]
      simp only [Flight.step] at h
      split at h
      · cases h
        exact same_streams h0 rfl hremove
      · cases h
        exact same_streams h0 rfl hremove
    | claims connector id => exact answerBy_streams h0 rfl (Option.some.inj h)
    | fails connector id reason notOpen => exact answerBy_streams h0 rfl (Option.some.inj h)
    | checked connector id =>
      cases h
      refine same_streams h0 rfl ?_
      unfold Shared.checkedBy
      split
      · rfl
      · rfl

theorem Counted.ne_zero {w : World Shared Flight} (h : Counted w) (c : Uuid) :
    w.shared.carrying.lookup c ≠ some 0 := by
  rw [h c, stored]
  split
  · nofun
  · rename_i hne
    exact fun heq => hne (Option.some.inj heq)

theorem Counted.streams {w : World Shared Flight} (h : Counted w) (c : Uuid) :
    w.shared.streams c = count (Flight.holds c) w.flights := by
  rw [Shared.streams, h c, stored]
  split
  · rename_i heq
    rw [heq]
    rfl
  · rfl

theorem Counted.step {w w' : World Shared Flight} {ev : Event Flight Outside} (h : Counted w)
    (hw : Sound w.shared) (hstep : step system w ev = some w') : Counted w' := by
  rcases step_cases hstep with ⟨k, f, rfl, hk, hf, rfl⟩ | ⟨k, f, s, o, rfl, hf, hn, rfl⟩ |
    ⟨e, s, rfl, ho, rfl⟩
  · intro c
    have hholds : f.holds c = false := by
      cases f with
      | counted | carrying => cases hf
      | _ => rfl
    change w.shared.carrying.lookup c = stored (count (Flight.holds c) (w.flights.insert k f))
    rw [count_insert hk, hholds]
    exact h c
  · intro c
    change s.carrying.lookup c = stored (count (Flight.holds c) (put w.flights k o))
    have hcount := count_put (p := Flight.holds c) (o := o) hf
    have hweight : (o.elim 0 fun g => if g.holds c then 1 else 0) = o.elim 0 (Flight.weight c) := rfl
    rw [hweight] at hcount
    rw [next_streams (h.ne_zero c) hn, h.streams c]
    congr 1
    unfold Flight.weight at hcount ⊢
    omega
  · intro c
    change s.carrying.lookup c = stored (count (Flight.holds c) w.flights)
    rw [(outside_keeps (k := 0) hw ho).2.2]
    exact h c

/-! ## Runs -/

theorem world_step {w w' : World Shared Flight} {ev : Event Flight Outside}
    (hw : Holds Sound Ready w) (hstep : step system w ev = some w') : Holds Sound Ready w' := by
  refine hw.step hstep (fun k f hf => ?_) ?_ ?_
  · cases f with
    | registers | calls | claims | fails | checked => trivial
    | _ => cases hf
  · intro k f s o he hf hn
    have hmoves : Moves k w.shared (s, o) := next_moves hw.shared (hw.flights k f hf) hn
    exact ⟨hmoves.sound, hmoves.ready, fun k' g hne hg => (hw.flights k' g hg).mono hmoves.kept hne⟩
  · intro e s he ho
    refine ⟨(outside_keeps (k := 0) hw.shared ho).1, fun k g hg => ?_⟩
    exact (hw.flights k g hg).mono (outside_keeps (k := k + 1) hw.shared ho).2.1 (Nat.succ_ne_self k).symm

/-- The hub has the same entries. -/
def SameEntries (s s' : Shared) : Prop := s.pending = s'.pending ∧ s.checks = s'.checks

/-- What holds of the hub at any time. -/
structure Consistent (w : World Shared Flight) : Prop where
  /-- Online is a connector whose registration inserted last is not dropped. -/
  online : ∀ c, w.shared.isOnline c = true ↔
    ∃ g, w.shared.effective.lookup c = some g ∧ g ∉ w.shared.dropped
  /-- A call is answered at most once, by the connector it asks. -/
  once : (w.shared.answers.map (·.1)).Nodup
  asked : ∀ e ∈ w.shared.answers,
    ∃ call, w.shared.asked.lookup e.1 = some call ∧ call.connector = e.2
  /-- An answer changes nothing if the connector was not asked under this id, if it is answered or taken
  out already, or if the call has returned. -/
  others : ∀ k c id, (∀ call, w.shared.asked.lookup id = some call → call.connector ≠ c) ∨
      id ∈ w.shared.claimers ∨ id ∈ w.shared.returned →
    w.shared.claim k c id = none ∧ ∀ isOpen ends, w.shared.checkedBy k c id isOpen ends = w.shared
  /-- An answer after the result of a call is known leaves what the call leaves without it. -/
  late : ∀ k call result, w.flights.lookup k = some (.removing call result) → ∀ k' c,
    (∀ s, w.shared.claim k' c call.id = some s → SameEntries (s.remove call) (w.shared.remove call)) ∧
      ∀ isOpen ends, SameEntries ((w.shared.checkedBy k' c call.id isOpen ends).remove call)
        (w.shared.remove call)
  /-- A call that has returned has no entry. -/
  returned : ∀ id ∈ w.shared.returned, id ∉ w.shared.pending ∧ id ∉ w.shared.checks
  /-- Only the connector that a call asks has it in its queues. -/
  queues : ∀ g queue, w.shared.queues.lookup g = some queue → ∀ m ∈ queue, ∃ k c call,
    w.shared.owners.lookup g = some (k, c) ∧ w.shared.asked.lookup m.id = some call ∧
      call.connector = c
  /-- The count of carried connections, with no entry at zero. -/
  carrying : Counted w

theorem Sound.online_iff (hs : Sound s) (c : Uuid) :
    s.isOnline c = true ↔ ∃ g, s.effective.lookup c = some g ∧ g ∉ s.dropped := by
  rw [Shared.isOnline, hs.online, Option.isSome_iff_exists]
  simp [Option.filter_eq_some_iff]

theorem Sound.others {c id : Uuid} (hs : Sound s)
    (h : (∀ call, s.asked.lookup id = some call → call.connector ≠ c) ∨ id ∈ s.claimers ∨
      id ∈ s.returned) :
    s.claim k c id = none ∧ ∀ isOpen ends, s.checkedBy k c id isOpen ends = s := by
  have hpending : s.pending.lookup id ≠ some c := by
    intro hfound
    obtain ⟨hclaimer, call, _, hcall, -, hc⟩ := hs.pending id c hfound
    rcases h with h | h | h
    · exact h call hcall hc
    · exact hclaimer h
    · exact (hs.returned id h).2.1 (mem_of_lookup hfound)
  have hchecks : s.checks.lookup id ≠ some c := by
    intro hfound
    obtain ⟨hclaimer, call, hcall, -, hc⟩ := hs.checks id c hfound
    rcases h with h | h | h
    · exact h call hcall hc
    · exact hclaimer h
    · exact (hs.returned id h).2.2 (mem_of_lookup hfound)
  exact ⟨if_neg hpending, fun _ _ => if_neg hchecks⟩

theorem erase_erase {ν : Type} (m : HashMap Uuid ν) (id : Uuid) : (m.erase id).erase id = m.erase id :=
  AList.ext (List.kerase_of_notMem_keys (List.notMem_keys_kerase id m.nodupKeys))

theorem claim_then_remove {c : Uuid} {call : Call} (hs : Sound s)
    (hcall : s.asked.lookup call.id = some call) (h : s.claim k c call.id = some s') :
    SameEntries (s'.remove call) (s.remove call) := by
  unfold Shared.claim at h
  split at h
  · rename_i hpending
    cases h
    obtain ⟨-, call', whom, hcall', hkind, -⟩ := hs.pending _ c hpending
    rw [hcall] at hcall'
    cases hcall'
    rw [remove_eq, remove_eq, hkind]
    exact ⟨erase_erase _ _, rfl⟩
  · cases h

theorem checked_then_remove {c : Uuid} {call : Call} {isOpen : Bool} {ends : Option String}
    (hs : Sound s) (hcall : s.asked.lookup call.id = some call) :
    SameEntries ((s.checkedBy k c call.id isOpen ends).remove call) (s.remove call) := by
  unfold Shared.checkedBy
  split
  · rename_i hchecks
    obtain ⟨-, call', hcall', hkind, -⟩ := hs.checks _ c hchecks
    rw [hcall] at hcall'
    cases hcall'
    rw [remove_eq, remove_eq, hkind]
    exact ⟨rfl, erase_erase _ _⟩
  · exact ⟨rfl, rfl⟩

/-- **The hub stays consistent**, over every interleaving. -/
theorem hub_consistent {es : List (Event Flight Outside)} {w : World Shared Flight}
    (hr : Run.run (step system) (World.quiet {}) es = some w) : Consistent w := by
  have hstart : Holds Sound Ready (World.quiet {} : World Shared Flight) := by
    refine .quiet ⟨nofun, nofun, nofun, fun _ => rfl, nofun, nofun, ?_, .nil, nofun, nofun, nofun⟩
    intro id h
    cases h
  have hw : Holds Sound Ready w ∧ Counted w := by
    refine Run.inv_of_run (I := fun _ w => Holds Sound Ready w ∧ Counted w)
      ⟨hstart, fun _ => rfl⟩ ?_ hr
    intro es t e t' _ hs ht
    exact ⟨world_step ht.1 hs, ht.2.step ht.1.shared hs⟩
  have hs : Sound w.shared := hw.1.shared
  refine ⟨hs.online_iff, hs.once, fun e he => (hs.answers e he).2, fun _ _ _ h => hs.others h, ?_,
    fun id h => (hs.returned id h).2, hs.queues, hw.2⟩
  intro k call result hf k' c
  have hcall : w.shared.asked.lookup call.id = some call := hw.1.flights k _ hf
  exact ⟨fun s h => claim_then_remove hs hcall h, fun _ _ => checked_then_remove hs hcall⟩

/-- A connector registers, and opens the stream that is asked of it. -/
def streamOpens : List (Event Flight Outside) :=
  [.start 0 (.registers 1), .next 0, .next 0,
    .start 1 (.calls { kind := .stream none, connector := 1, target := "10.0.0.1:22", id := 9 }),
    .next 1, .next 1, .next 1, .outside (.forward 0), .start 2 (.claims 1 9), .next 2, .next 2] ++
    List.replicate 4 (.next 1)

theorem hub_consistent_stream :
    ∃ w, Run.run (step system) (World.quiet {}) streamOpens = some w ∧
      w.shared.answers = [(9, 1)] ∧ w.shared.streams 1 = 1 ∧ Consistent w := by
  have hrun : (Run.run (step system) (World.quiet {}) streamOpens).map
      (fun w => (w.shared.answers, w.shared.streams 1)) = some ([(9, 1)], 1) := by
    decide
  obtain ⟨w, hr, hw⟩ := Option.map_eq_some_iff.1 hrun
  rw [Prod.mk.injEq] at hw
  exact ⟨w, hr, hw.1, hw.2, hub_consistent hr⟩

end Server.Hub
