import RemoteHub.Server.SecurityKeys

/-!
# Each challenge once, and counters that grow

A challenge goes with the commit that accepts its answer, and no other transaction takes it before
(`Challenges`). The counter of a key that an answer is checked against is the one of the row that the
transaction has locked, so that nobody stores another one meanwhile (`Counters`). Only the first
confirmation of a local account's key finds no row, and then locks none. Over a run in which there is
still no row when its counter is stored, the counters grow (`keys_hold`); where there is one by then,
a lower counter is accepted (`older_counter_accepted`).
-/

namespace Server.SecurityKeys

open Model Webauthn Interleave Except

variable {c : Crates} {rp : RelyingParty} {s s' t : Shared} {k : Nat} {f : Flight}
  {o : Option Flight} {a : Attempt}

/-! ## The check of a counter -/

/-- Keys without a counter always send 0; one that has one counts up. -/
def CountsOn (stored counter : Nat) : Prop :=
  counter < 2 ^ 32 ∧ (stored = 0 ∧ counter = 0 ∨ stored < counter)

theorem verify_countsOn {challenge publicKey : Bytes} {stored counter : Nat} {answer : Assertion}
    (h : Webauthn.verify c rp challenge publicKey stored answer = .ok counter) :
    CountsOn stored counter := by
  obtain ⟨_, -, h⟩ := bind_eq_ok.1 h
  obtain ⟨_, -, h⟩ := bind_eq_ok.1 h
  obtain ⟨data, -, h⟩ := bind_eq_ok.1 h
  obtain ⟨counter', hcounter, h⟩ := bind_eq_ok.1 h
  obtain ⟨_, -, h⟩ := bind_eq_ok.1 h
  obtain ⟨_, -, h⟩ := bind_eq_ok.1 h
  obtain ⟨_, -, h⟩ := bind_eq_ok.1 h
  obtain ⟨_, -, h⟩ := bind_eq_ok.1 h
  obtain ⟨_, hgrows, h⟩ := bind_eq_ok.1 h
  have heq := pure_eq_ok.1 h
  subst heq
  have hgrows := refuse_eq_ok.1 hgrows
  refine ⟨?_, by omega⟩
  obtain ⟨_, -, hcounter⟩ := bind_eq_ok.1 hcounter
  obtain ⟨_, -, hcounter⟩ := bind_eq_ok.1 hcounter
  obtain ⟨_, -, hcounter⟩ := bind_eq_ok.1 hcounter
  rw [← pure_eq_ok.1 hcounter]
  exact BitVec.isLt _

theorem toU32_natCast {n : Nat} (h : n < 2 ^ 32) : toU32 n = n := by
  unfold toU32
  rw [if_pos (by omega)]
  rfl

/-! ## What holds between two statements -/

/-- The challenges: each is there until it is used, and each was used once, by whom and for what it
was issued, before it expired. -/
structure Challenges (s : Shared) : Prop where
  unique : (s.issued.map (·.1)).Nodup
  issued : ∀ id row, s.challenges.lookup id = some row → (id, row) ∈ s.issued
  once : (s.answered.map (·.challengeId)).Nodup
  gone : ∀ a ∈ s.answered, a.challengeId ∉ s.challenges
  fits : ∀ a ∈ s.answered, ∃ row, (a.challengeId, row) ∈ s.issued ∧ row.userId = a.user ∧
    row.purpose = a.purpose ∧ a.began < row.expiresAt

/-- After a counter that is not zero, only higher ones are accepted. -/
def Grows (v v' : Nat) : Prop := v ≠ 0 → v < v'

/-- The counters: they grow, and the row of the key keeps the highest one. -/
structure Counters (s : Shared) : Prop where
  ordered : Acceptance.Ordered Grows s.log
  stored : ∀ id row, s.keys.lookup id = some row →
    ∀ v ∈ Acceptance.current (.stored id) s.log, v ≤ toU32 row.signCount
  kratos : ∀ user credentialId, ∀ v ∈ Acceptance.current (.kratos user credentialId) s.log,
    ∃ n, s.counters.lookup credentialId = some ⟨user, n⟩ ∧ v ≤ toU32 n

/-- The challenge of the attempt is there, fits and is locked. -/
def Taken (k : Nat) (s : Shared) (a : Attempt) : Prop :=
  s.locks (.challenge a.answer.challengeId) = some k ∧
    ∃ row, s.challenges.lookup a.answer.challengeId = some row ∧ row.userId = a.user ∧
      row.purpose = a.usage.purpose ∧ a.began < row.expiresAt

/-- The counter of the local account's key is this one, and is locked. -/
def Ours (k : Nat) (s : Shared) (user : Uuid) (credentialId : Bytes) (n : Int) : Prop :=
  s.locks (.counter credentialId) = some k ∧ s.counters.lookup credentialId = some ⟨user, n⟩

/-- What a request in flight relies on. -/
def Ready (k : Nat) (s : Shared) : Flight → Prop
  | .taken a _ | .localTaken a _ _ => Taken k s a
  | .found a _ keyId _ count => Taken k s a ∧ s.locks (.key keyId) = some k ∧
      ∃ row, s.keys.lookup keyId = some row ∧ row.signCount = count
  | .counted a keyId counter => Taken k s a ∧ s.locks (.key keyId) = some k ∧
      ∃ row, s.keys.lookup keyId = some row ∧ CountsOn (toU32 row.signCount) counter
  | .localFound a _ key ours => Taken k s a ∧
      ∀ n, ours = some n → Ours k s a.user key.credentialId n
  | .localVerified a credentialId ours counter => Taken k s a ∧ counter < 2 ^ 32 ∧
      ∀ n, ours = some n → Ours k s a.user credentialId n ∧ CountsOn (toU32 n) counter
  | .localCounted a credentialId counter => Taken k s a ∧ counter < 2 ^ 32 ∧
      s.locks (.counter credentialId) = some k ∧ (s.counters.lookup credentialId = none ∨
        ∃ n, s.counters.lookup credentialId = some ⟨a.user, n⟩ ∧ CountsOn (toU32 n) counter)
  | _ => True

/-- What process `k` has locked is as it was. -/
structure Keeps (k : Nat) (s s' : Shared) : Prop where
  locks : ∀ key, s.locks key = some k → s'.locks key = some k
  challenges : ∀ id, s.locks (.challenge id) = some k →
    s'.challenges.lookup id = s.challenges.lookup id
  keys : ∀ id, s.locks (.key id) = some k → s'.keys.lookup id = s.keys.lookup id
  counters : ∀ credentialId, s.locks (.counter credentialId) = some k →
    s'.counters.lookup credentialId = s.counters.lookup credentialId

theorem Taken.later (h : Taken k s a) (hkeeps : Keeps k s s') : Taken k s' a := by
  obtain ⟨hlock, hrow⟩ := h
  refine ⟨hkeeps.locks _ hlock, ?_⟩
  rw [hkeeps.challenges _ hlock]
  exact hrow

theorem Ours.later {user : Uuid} {credentialId : Bytes} {n : Int} (h : Ours k s user credentialId n)
    (hkeeps : Keeps k s s') : Ours k s' user credentialId n := by
  obtain ⟨hlock, hrow⟩ := h
  refine ⟨hkeeps.locks _ hlock, ?_⟩
  rw [hkeeps.counters _ hlock]
  exact hrow

/-- A request keeps what it relies on while others leave alone what it has locked. -/
theorem Ready.later (h : Ready k s f) (hkeeps : Keeps k s s') : Ready k s' f := by
  cases f with
  | taken a _ => exact Taken.later h hkeeps
  | localTaken a _ _ => exact Taken.later h hkeeps
  | found a bytes keyId publicKey count =>
    obtain ⟨htaken, hlock, hrow⟩ := h
    refine ⟨htaken.later hkeeps, hkeeps.locks _ hlock, ?_⟩
    rw [hkeeps.keys _ hlock]
    exact hrow
  | counted a keyId counter =>
    obtain ⟨htaken, hlock, hrow⟩ := h
    refine ⟨htaken.later hkeeps, hkeeps.locks _ hlock, ?_⟩
    rw [hkeeps.keys _ hlock]
    exact hrow
  | localFound a bytes key ours =>
    exact ⟨h.1.later hkeeps, fun n hn => (h.2 n hn).later hkeeps⟩
  | localVerified a credentialId ours counter =>
    obtain ⟨htaken, hsmall, hours⟩ := h
    exact ⟨htaken.later hkeeps, hsmall, fun n hn => ⟨(hours n hn).1.later hkeeps, (hours n hn).2⟩⟩
  | localCounted a credentialId counter =>
    obtain ⟨htaken, hsmall, hlock, hrow⟩ := h
    refine ⟨htaken.later hkeeps, hsmall, hkeeps.locks _ hlock, ?_⟩
    rw [hkeeps.counters _ hlock]
    exact hrow
  | _ => trivial

/-! ### Challenges -/

theorem lookup_of_erase {id id' : Uuid} {row : ChallengeRow}
    (h : (s.challenges.erase id).lookup id' = some row) : s.challenges.lookup id' = some row :=
  (HashMap.of_lookup_erase h).2

theorem Challenges.congr (h : Challenges s) (hchallenges : t.challenges = s.challenges)
    (hissued : t.issued = s.issued) (hanswered : t.answered = s.answered) : Challenges t := by
  constructor
  · rw [hissued]
    exact h.unique
  · rw [hchallenges, hissued]
    exact h.issued
  · rw [hanswered]
    exact h.once
  · rw [hanswered, hchallenges]
    exact h.gone
  · rw [hanswered, hissued]
    exact h.fits

theorem Challenges.erase {id : Uuid} (h : Challenges s)
    (hchallenges : t.challenges = s.challenges.erase id) (hissued : t.issued = s.issued)
    (hanswered : t.answered = s.answered) : Challenges t where
  unique := by
    rw [hissued]
    exact h.unique
  issued id' row hrow := by
    rw [hchallenges] at hrow
    rw [hissued]
    exact h.issued id' row (lookup_of_erase hrow)
  once := by
    rw [hanswered]
    exact h.once
  gone a ha := by
    rw [hanswered] at ha
    rw [hchallenges, AList.mem_erase]
    exact fun hmem => h.gone a ha hmem.2
  fits := by
    rw [hanswered, hissued]
    exact h.fits

/-- A right answer uses the challenge. -/
theorem Challenges.accept (h : Challenges s) (htaken : Taken k s a)
    (hchallenges : t.challenges = s.challenges.erase a.answer.challengeId)
    (hissued : t.issued = s.issued)
    (hanswered : t.answered =
      s.answered ++ [⟨a.answer.challengeId, a.user, a.usage.purpose, a.began⟩]) : Challenges t := by
  obtain ⟨-, row, hrow, huser, hpurpose, hexpires⟩ := htaken
  have hmem : a.answer.challengeId ∈ s.challenges := by
    rw [← AList.lookup_isSome, hrow]
    rfl
  constructor
  · rw [hissued]
    exact h.unique
  · intro id row hrow
    rw [hchallenges] at hrow
    rw [hissued]
    exact h.issued id row (lookup_of_erase hrow)
  · rw [hanswered, List.map_append, List.nodup_append]
    refine ⟨h.once, List.nodup_singleton _, ?_⟩
    intro id hid id' hid' heq
    obtain ⟨a', ha', rfl⟩ := List.mem_map.1 hid
    rw [List.map_singleton, List.mem_singleton] at hid'
    apply h.gone a' ha'
    rw [heq, hid']
    exact hmem
  · intro a' ha'
    rw [hchallenges, AList.mem_erase]
    rw [hanswered, List.mem_append, List.mem_singleton] at ha'
    rcases ha' with ha' | rfl
    · exact fun hmem' => h.gone a' ha' hmem'.2
    · exact fun hmem' => hmem'.1 rfl
  · intro a' ha'
    rw [hanswered, List.mem_append, List.mem_singleton] at ha'
    rw [hissued]
    rcases ha' with ha' | rfl
    · exact h.fits a' ha'
    · exact ⟨row, h.issued _ _ hrow, huser, hpurpose, hexpires⟩

/-- A new challenge. -/
theorem Challenges.issue {id : Uuid} {row : ChallengeRow} (h : Challenges s)
    (hnew : id ∉ s.issued.map (·.1)) (hchallenges : t.challenges = s.unexpired.insert id row)
    (hissued : t.issued = s.issued ++ [(id, row)]) (hanswered : t.answered = s.answered) :
    Challenges t := by
  have hunexpired : ∀ id' row', s.unexpired.lookup id' = some row' →
      s.challenges.lookup id' = some row' := by
    intro id' row' hrow'
    unfold Shared.unexpired at hrow'
    rw [HashMap.lookup_foldl_erase] at hrow'
    split at hrow'
    · cases hrow'
    · exact hrow'
  constructor
  · rw [hissued, List.map_append, List.nodup_append]
    refine ⟨h.unique, List.nodup_singleton _, fun id' hid' id'' hid'' heq => hnew ?_⟩
    rw [List.map_singleton, List.mem_singleton] at hid''
    rw [heq, hid''] at hid'
    exact hid'
  · intro id' row' hrow'
    rw [hchallenges, HashMap.lookup_insert_eq] at hrow'
    rw [hissued, List.mem_append]
    split at hrow'
    · rename_i heq
      cases hrow'
      right
      rw [heq]
      exact List.mem_singleton_self _
    · exact .inl (h.issued id' row' (hunexpired id' row' hrow'))
  · rw [hanswered]
    exact h.once
  · intro a ha
    rw [hanswered] at ha
    rw [hchallenges, AList.mem_insert]
    rintro (heq | hmem)
    · obtain ⟨row', hrow', -⟩ := h.fits a ha
      apply hnew
      rw [← heq]
      exact List.mem_map_of_mem hrow'
    · obtain ⟨row', hrow'⟩ := Option.isSome_iff_exists.1 (AList.lookup_isSome.2 hmem)
      apply h.gone a ha
      rw [← AList.lookup_isSome, hunexpired _ _ hrow']
      rfl
  · intro a ha
    rw [hanswered] at ha
    rw [hissued]
    obtain ⟨row', hrow', hfits⟩ := h.fits a ha
    exact ⟨row', List.mem_append_left _ hrow', hfits⟩

/-! ### Counters -/

theorem Counters.congr (h : Counters s) (hlog : t.log = s.log) (hkeys : t.keys = s.keys)
    (hcounters : t.counters = s.counters) : Counters t := by
  constructor
  · rw [hlog]
    exact h.ordered
  · rw [hlog, hkeys]
    exact h.stored
  · rw [hlog, hcounters]
    exact h.kratos

theorem CountsOn.grows {stored counter v : Nat} (h : CountsOn stored counter) (hv : v ≤ stored) :
    Grows v counter ∧ v ≤ counter := by
  obtain ⟨-, h⟩ := h
  unfold Grows
  omega

/-- The counter of a directory user's key. -/
theorem Counters.acceptStored {keyId : Uuid} {row : KeyRow} {counter : Nat} (h : Counters s)
    (hrow : s.keys.lookup keyId = some row) (hcounts : CountsOn (toU32 row.signCount) counter)
    (hlog : t.log = s.log ++ [.accepted (.stored keyId) counter])
    (hkeys : t.keys = s.keys.modify keyId fun row => { row with signCount := counter })
    (hcounters : t.counters = s.counters) : Counters t := by
  have hgrows : ∀ v ∈ Acceptance.current (.stored keyId) s.log, Grows v counter ∧ v ≤ counter :=
    fun v hv => hcounts.grows (h.stored keyId row hrow v hv)
  constructor
  · rw [hlog]
    exact h.ordered.accept fun v hv => (hgrows v hv).1
  · intro id row' hrow' v hv
    rw [hkeys, HashMap.lookup_modify] at hrow'
    rw [hlog, Acceptance.current_accepted] at hv
    by_cases heq : id = keyId
    · subst heq
      rw [if_pos rfl, hrow] at hrow'
      cases hrow'
      rw [if_pos rfl, List.mem_append, List.mem_singleton] at hv
      rw [toU32_natCast hcounts.1]
      rcases hv with hv | rfl
      · exact (hgrows v hv).2
      · exact le_rfl
    · rw [if_neg heq] at hrow'
      rw [if_neg (by rw [KeyId.stored.injEq]; exact Ne.symm heq)] at hv
      exact h.stored id row' hrow' v hv
  · intro user credentialId v hv
    rw [hlog, Acceptance.current_accepted, if_neg nofun] at hv
    rw [hcounters]
    exact h.kratos user credentialId v hv

/-- The counter of a local account's key: the first one, or beyond the one that is stored. -/
theorem Counters.acceptKratos {user : Uuid} {credentialId : Bytes} {counter : Nat} (h : Counters s)
    (hsmall : counter < 2 ^ 32) (hrow : s.counters.lookup credentialId = none ∨
      ∃ n, s.counters.lookup credentialId = some ⟨user, n⟩ ∧ CountsOn (toU32 n) counter)
    (hlog : t.log = s.log ++ [.accepted (.kratos user credentialId) counter])
    (hkeys : t.keys = s.keys) (hcounters : t.counters = s.storeCounter user credentialId counter) :
    Counters t := by
  have hstored : s.storeCounter user credentialId counter =
      s.counters.insert credentialId ⟨user, counter⟩ := by
    unfold Shared.storeCounter
    rcases hrow with hrow | ⟨n, hrow, -⟩
    · rw [hrow]
    · rw [hrow]
      exact if_pos rfl
  have hgrows : ∀ v ∈ Acceptance.current (.kratos user credentialId) s.log,
      Grows v counter ∧ v ≤ counter := by
    intro v hv
    obtain ⟨n, hn, hle⟩ := h.kratos user credentialId v hv
    rcases hrow with hrow | ⟨n', hrow, hcounts⟩
    · rw [hrow] at hn
      cases hn
    · rw [hrow] at hn
      cases hn
      exact hcounts.grows hle
  constructor
  · rw [hlog]
    exact h.ordered.accept fun v hv => (hgrows v hv).1
  · intro id row hrow v hv
    rw [hkeys] at hrow
    rw [hlog, Acceptance.current_accepted, if_neg nofun] at hv
    exact h.stored id row hrow v hv
  · intro user' credentialId' v hv
    rw [hlog, Acceptance.current_accepted] at hv
    rw [hcounters, hstored, HashMap.lookup_insert_eq]
    split at hv
    · rename_i heq
      cases heq
      rw [if_pos rfl]
      refine ⟨counter, rfl, ?_⟩
      rw [toU32_natCast hsmall]
      rcases List.mem_append.1 hv with hv | hv
      · exact (hgrows v hv).2
      · rw [List.mem_singleton.1 hv]
    · rename_i hne
      obtain ⟨n, hn, hle⟩ := h.kratos user' credentialId' v hv
      by_cases heq : credentialId' = credentialId
      · -- the row is this account's
        subst heq
        rcases hrow with hrow | ⟨n', hrow, -⟩
        · rw [hrow] at hn
          cases hn
        · rw [hrow] at hn
          cases hn
          exact absurd rfl hne
      · rw [if_neg heq]
        exact ⟨n, hn, hle⟩

/-! ## Statements -/

/-- What a statement of request `k` leaves: what others have locked, and its own request ready to go
on. -/
structure Outcome (k : Nat) (s s' : Shared) (o : Option Flight) : Prop where
  keeps : ∀ k', k' ≠ k → Keeps k' s s'
  challenges : Challenges s'
  counters : Counters s'
  ready : ∀ g, o = some g → Ready k s' g

section
variable (hchallenges : Challenges s) (hcounters : Counters s)
include hchallenges hcounters

theorem Outcome.reads {g : Flight} (h : s.goOn g = some (s', o)) (hg : Ready k s g) :
    Outcome k s s' o := by
  cases h
  refine ⟨fun k' _ => ⟨fun _ h => h, fun _ _ => rfl, fun _ _ => rfl, fun _ _ => rfl⟩, hchallenges,
    hcounters, fun g hg' => ?_⟩
  cases hg'
  exact hg

theorem Outcome.locked {key : Lock} {g : Flight} (h : s.lock k key g = some (s', o))
    (hg : ∀ locks : Locks Lock, locks key = some k → Keeps k s { s with locks } →
      Ready k { s with locks } g) : Outcome k s s' o := by
  obtain ⟨locks, hlocks, h⟩ := Option.bind_eq_some_iff.1 h
  cases h
  have hkeeps : ∀ k', Keeps k' s { s with locks } := fun k' =>
    ⟨fun _ hk' => Locks.acquire_keeps hlocks hk', fun _ _ => rfl, fun _ _ => rfl, fun _ _ => rfl⟩
  refine ⟨fun k' _ => hkeeps k', hchallenges.congr rfl rfl rfl, hcounters.congr rfl rfl rfl,
    fun g' hg' => ?_⟩
  cases hg'
  exact hg locks (Locks.acquire_held hlocks) (hkeeps k)

theorem Outcome.close (h : s.close k = some (s', o)) : Outcome k s s' o := by
  cases h
  exact ⟨fun k' hne => ⟨fun _ hk' => Locks.release_others hne hk', fun _ _ => rfl, fun _ _ => rfl,
    fun _ _ => rfl⟩, hchallenges.congr rfl rfl rfl, hcounters.congr rfl rfl rfl, ready_of_none⟩

omit hchallenges hcounters in
/-- The challenge that a request has locked is gone; others had not locked it. -/
theorem lookup_erase_others {k' : Nat} {id : Uuid} (htaken : Taken k s a) (hne : k' ≠ k)
    (hk' : s.locks (.challenge id) = some k') :
    (s.challenges.erase a.answer.challengeId).lookup id = s.challenges.lookup id := by
  apply AList.lookup_erase_ne
  intro heq
  subst heq
  rw [htaken.1] at hk'
  exact hne (Option.some.inj hk').symm

theorem Outcome.refused (h : s.refused k a = some (s', o)) (htaken : Taken k s a) :
    Outcome k s s' o := by
  unfold Shared.refused at h
  split at h
  · exact .close hchallenges hcounters h
  · cases h
    refine ⟨fun k' hne => ⟨fun _ hk' => Locks.release_others hne hk', fun id hk' => ?_,
      fun _ _ => rfl, fun _ _ => rfl⟩, hchallenges.erase rfl rfl rfl, hcounters.congr rfl rfl rfl,
      ready_of_none⟩
    exact lookup_erase_others htaken hne hk'

theorem Outcome.takes {next : Bytes → Flight} (h : s.takeChallenge k a next = some (s', o))
    (hnext : ∀ t bytes, Taken k t a → Ready k t (next bytes)) : Outcome k s s' o := by
  unfold Shared.takeChallenge at h
  split at h
  · exact .close hchallenges hcounters h
  · rename_i row hrow
    obtain ⟨hrow, hfits⟩ := Option.filter_eq_some_iff.1 hrow
    obtain ⟨huser, hpurpose, hexpires⟩ := of_decide_eq_true hfits
    refine .locked hchallenges hcounters h fun locks hlock _ => hnext _ _ ?_
    exact ⟨hlock, row, hrow, huser, hpurpose, hexpires⟩

end

theorem Shared.lookup_findKey {user : Uuid} {credentialId : Bytes} {id : Uuid} {row : KeyRow}
    (h : s.findKey user credentialId = some (id, row)) : s.keys.lookup id = some row := by
  have hmem := List.mem_of_find?_eq_some h
  obtain ⟨e, he, heq⟩ := List.mem_map.1 hmem
  cases heq
  exact HashMap.lookup_eq_some.2 he

theorem Shared.lookup_storeCounter {user : Uuid} {credentialId other : Bytes} {counter : Nat}
    (hne : other ≠ credentialId) :
    (s.storeCounter user credentialId counter).lookup other = s.counters.lookup other := by
  unfold Shared.storeCounter
  split
  · exact AList.lookup_insert_ne hne
  · split
    · exact AList.lookup_insert_ne hne
    · rfl

/-- A confirmation that found no counter of its key stores the first one. -/
def Flight.storesFirst (s : Shared) : Flight → Bool
  | .localVerified _ credentialId none _ => credentialId ∉ s.counters
  | _ => true

theorem statement_ok (hchallenges : Challenges s) (hcounters : Counters s) (hready : Ready k s f)
    (hfirst : f.storesFirst s = true) (h : f.statement c rp k s = some (s', o)) :
    Outcome k s s' o := by
  cases f with
  | challenge user purpose id bytes =>
    simp only [Flight.statement] at h
    split at h
    · cases h
    · rename_i hnot
      rw [not_or] at hnot
      obtain ⟨hnew, hfree⟩ := hnot
      cases h
      refine ⟨fun k' hne => ⟨fun _ hk' => Locks.release_others hne hk', fun id' hk' => ?_,
        fun _ _ => rfl, fun _ _ => rfl⟩, hchallenges.issue hnew rfl rfl rfl,
        hcounters.congr rfl rfl rfl, ready_of_none⟩
      have hother : id' ∉ id :: s.expired := by
        intro hmem
        apply hfree
        refine List.any_eq_true.2 ⟨id', hmem, ?_⟩
        rw [hk']
        rfl
      rw [List.mem_cons, not_or] at hother
      show (s.unexpired.insert id _).lookup id' = _
      rw [AList.lookup_insert_ne hother.1, Shared.unexpired, HashMap.lookup_foldl_erase,
        if_neg hother.2]
  | verifyKey user answer usage => exact .reads hchallenges hcounters h trivial
  | begun a => exact .takes hchallenges hcounters h fun _ _ htaken => htaken
  | taken a bytes =>
    simp only [Flight.statement] at h
    split at h
    · exact .refused hchallenges hcounters h hready
    · split at h
      · split at h
        · exact .refused hchallenges hcounters h hready
        · rename_i id row hrow
          refine .locked hchallenges hcounters h fun locks hlock hkeeps => ?_
          exact ⟨Taken.later hready hkeeps, hlock, row, Shared.lookup_findKey hrow, rfl⟩
      · exact .refused hchallenges hcounters h hready
  | found a bytes keyId publicKey count =>
    obtain ⟨htaken, hlock, row, hrow, rfl⟩ := hready
    simp only [Flight.statement] at h
    split at h
    · exact .refused hchallenges hcounters h htaken
    · rename_i counter hcounter
      exact .reads hchallenges hcounters h ⟨htaken, hlock, row, hrow, verify_countsOn hcounter⟩
  | counted a keyId counter =>
    obtain ⟨htaken, hlock, row, hrow, hcounts⟩ := hready
    cases h
    refine ⟨fun k' hne => ⟨fun _ hk' => Locks.release_others hne hk', fun id hk' => ?_,
      fun id hk' => ?_, fun _ _ => rfl⟩, hchallenges.accept htaken rfl rfl rfl,
      hcounters.acceptStored hrow hcounts rfl rfl rfl, ready_of_none⟩
    · exact lookup_erase_others htaken hne hk'
    · show (s.keys.modify _ _).lookup id = _
      rw [HashMap.lookup_modify, if_neg]
      intro heq
      subst heq
      rw [hlock] at hk'
      exact hne (Option.some.inj hk').symm
  | localKey user answer factors => exact .reads hchallenges hcounters h trivial
  | localBegun a factors =>
    have h : s.takeChallenge k a (fun bytes => .localTaken a bytes factors) = some (s', o) := h
    exact .takes hchallenges hcounters h fun _ _ htaken => htaken
  | localTaken a bytes factors =>
    simp only [Flight.statement] at h
    split at h
    · exact .refused hchallenges hcounters h hready
    · split at h
      · exact .refused hchallenges hcounters h hready
      · rename_i credentialId _ _ key hkey
        have hcredential : key.credentialId = credentialId := by
          simpa using List.find?_some hkey
        subst hcredential
        split at h
        · split at h
          · exact .reads hchallenges hcounters h ⟨hready, nofun⟩
          · rename_i row hrow
            obtain ⟨hrow, huser⟩ := Option.filter_eq_some_iff.1 hrow
            have huser := of_decide_eq_true huser
            refine .locked hchallenges hcounters h fun locks hlock hkeeps => ?_
            refine ⟨Taken.later hready hkeeps, fun n hn => ?_⟩
            cases hn
            refine ⟨hlock, ?_⟩
            rw [← huser]
            exact hrow
        · exact .refused hchallenges hcounters h hready
  | localFound a bytes key ours =>
    obtain ⟨htaken, hours⟩ := hready
    simp only [Flight.statement] at h
    split at h
    · exact .refused hchallenges hcounters h htaken
    · rename_i counter hcounter
      have hcounts := verify_countsOn hcounter
      refine .reads hchallenges hcounters h ⟨htaken, hcounts.1, fun n hn => ⟨hours n hn, ?_⟩⟩
      subst hn
      -- the higher of the two counters counts
      obtain ⟨hsmall, hcounts⟩ := hcounts
      rw [Option.elim_some] at hcounts
      refine ⟨hsmall, ?_⟩
      omega
  | localVerified a credentialId ours counter =>
    obtain ⟨htaken, hsmall, hours⟩ := hready
    refine .locked hchallenges hcounters h fun locks hlock hkeeps => ?_
    refine ⟨htaken.later hkeeps, hsmall, hlock, ?_⟩
    cases ours with
    | none =>
      left
      exact AList.lookup_eq_none.2 (of_decide_eq_true hfirst)
    | some n =>
      obtain ⟨⟨-, hrow⟩, hcounts⟩ := hours n rfl
      exact .inr ⟨n, hrow, hcounts⟩
  | localCounted a credentialId counter =>
    obtain ⟨htaken, hsmall, hlock, hrow⟩ := hready
    cases h
    refine ⟨fun k' hne => ⟨fun _ hk' => Locks.release_others hne hk', fun id hk' => ?_,
      fun _ _ => rfl, fun id hk' => ?_⟩, hchallenges.accept htaken rfl rfl rfl,
      hcounters.acceptKratos hsmall hrow rfl rfl rfl, ready_of_none⟩
    · exact lookup_erase_others htaken hne hk'
    · apply Shared.lookup_storeCounter
      intro heq
      subst heq
      rw [hlock] at hk'
      exact hne (Option.some.inj hk').symm

theorem next_ok (hchallenges : Challenges s) (hcounters : Counters s) (hready : Ready k s f)
    (hfirst : k ∈ s.cancelled ∨ f.storesFirst s = true) (h : f.next c rp k s = some (s', o)) :
    Outcome k s s' o := by
  unfold Flight.next at h
  split at h
  · exact .close hchallenges hcounters h
  · rename_i hnot
    exact statement_ok hchallenges hcounters hready (hfirst.resolve_left hnot) h

/-! ## Runs -/

theorem Counters.addKey {id : Uuid} {row : KeyRow} (h : Counters s)
    (hlog : t.log = s.log ++ [.opened (.stored id)]) (hkeys : t.keys = s.keys.insert id row)
    (hcounters : t.counters = s.counters) : Counters t := by
  constructor
  · rw [hlog]
    exact h.ordered.opened _
  · intro id' row' hrow' v hv
    rw [hkeys, HashMap.lookup_insert_eq] at hrow'
    rw [hlog, Acceptance.current_opened] at hv
    by_cases heq : id' = id
    · rw [if_pos (by rw [heq])] at hv
      cases hv
    · rw [if_neg heq] at hrow'
      rw [if_neg (by rw [KeyId.stored.injEq]; exact Ne.symm heq)] at hv
      exact h.stored id' row' hrow' v hv
  · intro user credentialId v hv
    rw [hlog, Acceptance.current_opened, if_neg nofun] at hv
    rw [hcounters]
    exact h.kratos user credentialId v hv

theorem Counters.removeKey {id : Uuid} (h : Counters s) (hlog : t.log = s.log)
    (hkeys : t.keys = s.keys.erase id) (hcounters : t.counters = s.counters) : Counters t := by
  constructor
  · rw [hlog]
    exact h.ordered
  · intro id' row' hrow'
    rw [hkeys] at hrow'
    rw [hlog]
    exact h.stored id' row' (HashMap.of_lookup_erase hrow').2
  · rw [hlog, hcounters]
    exact h.kratos

/-- The step that comes next stores the first counter of a local account's key only where there is
none. -/
def storesFirst (w : World Shared Flight) : Interleave.Event Flight Outside → Bool
  | .next k => k ∈ w.shared.cancelled ∨
      (w.flights.lookup k).all fun f => f.storesFirst w.shared
  | _ => true

theorem outside_ok {e : Outside} (hchallenges : Challenges s) (hcounters : Counters s)
    (h : s.outside e = some s') : (Challenges s' ∧ Counters s') ∧ ∀ k, Keeps k s s' := by
  cases e with
  | cancel k =>
    cases h
    exact ⟨⟨hchallenges.congr rfl rfl rfl, hcounters.congr rfl rfl rfl⟩, fun _ =>
      ⟨fun _ h => h, fun _ _ => rfl, fun _ _ => rfl, fun _ _ => rfl⟩⟩
  | tick seconds =>
    cases h
    exact ⟨⟨hchallenges.congr rfl rfl rfl, hcounters.congr rfl rfl rfl⟩, fun _ =>
      ⟨fun _ h => h, fun _ _ => rfl, fun _ _ => rfl, fun _ _ => rfl⟩⟩
  | addKey id row =>
    simp only [Shared.outside] at h
    split at h
    · cases h
    · rename_i hnot
      rw [not_or, not_or, not_not] at hnot
      cases h
      refine ⟨⟨hchallenges.congr rfl rfl rfl, hcounters.addKey rfl rfl rfl⟩, fun k =>
        ⟨fun _ h => h, fun _ _ => rfl, fun id' hk => AList.lookup_insert_ne ?_, fun _ _ => rfl⟩⟩
      intro heq
      rw [heq, hnot.2.1] at hk
      cases hk
  | removeKey id =>
    simp only [Shared.outside] at h
    split at h
    · rename_i hfree
      cases h
      refine ⟨⟨hchallenges.congr rfl rfl rfl, hcounters.removeKey rfl rfl rfl⟩, fun k =>
        ⟨fun _ h => h, fun _ _ => rfl, fun id' hk => AList.lookup_erase_ne ?_, fun _ _ => rfl⟩⟩
      intro heq
      rw [heq, hfree] at hk
      cases hk
    · cases h
  | useChallenge id =>
    simp only [Shared.outside] at h
    split at h
    · rename_i hfree
      cases h
      refine ⟨⟨hchallenges.erase rfl rfl rfl, hcounters.congr rfl rfl rfl⟩, fun k =>
        ⟨fun _ h => h, fun id' hk => AList.lookup_erase_ne ?_, fun _ _ => rfl, fun _ _ => rfl⟩⟩
      intro heq
      rw [heq, hfree] at hk
      cases hk
    · cases h

theorem invariant : Invariant (system c rp) (fun w e => storesFirst w e = true)
    (fun s => Challenges s ∧ Counters s) Ready where
  start k s f _ hf := by
    cases f with
    | challenge | verifyKey | localKey => trivial
    | _ => cases hf
  next w k f s o hw hfirst hf h := by
    have hfirst : k ∈ w.shared.cancelled ∨ f.storesFirst w.shared = true := by
      have hfirst := of_decide_eq_true hfirst
      rwa [hf, Option.all_some] at hfirst
    obtain ⟨hkeeps, hchallenges, hcounters, hready⟩ :=
      next_ok hw.shared.1 hw.shared.2 (hw.flights k f hf) hfirst h
    exact ⟨⟨hchallenges, hcounters⟩, hready, fun k' g hne _ hg => hg.later (hkeeps k' hne)⟩
  outside w e s hw _ h := by
    obtain ⟨hs, hkeeps⟩ := outside_ok hw.shared.1 hw.shared.2 h
    exact ⟨hs, fun k g hg => hg.later (hkeeps k)⟩

/-- **Security keys**: from a state without challenges, over any interleaving of sign-ins and
confirmations in which the first counter of a local account's key is stored where there is none, each
challenge is accepted at most once, only from whom and for what it was issued and in a transaction
that began before it expired, and after a counter that is not zero only higher ones are accepted. -/
theorem keys_hold (c : Crates) (rp : RelyingParty) (s : Shared)
    (hstart : s.challenges = ∅ ∧ s.log = [] ∧ s.issued = [] ∧ s.answered = [])
    (es : List (Interleave.Event Flight Outside)) (w : World Shared Flight)
    (hrun : Run.run (Interleave.step (system c rp)) (World.quiet s) es = some w)
    (hfirst : Run.Meets (Interleave.step (system c rp)) (fun w e => storesFirst w e = true)
      (World.quiet s) es) :
    (w.shared.issued.map (·.1)).Nodup ∧
      (w.shared.answered.map (·.challengeId)).Nodup ∧
      (∀ a ∈ w.shared.answered, ∃ row, (a.challengeId, row) ∈ w.shared.issued ∧
        row.userId = a.user ∧ row.purpose = a.purpose ∧ a.began < row.expiresAt) ∧
      Acceptance.Ordered (fun v v' => v ≠ 0 → v < v') w.shared.log := by
  obtain ⟨hnone, hlog, hissued, hanswered⟩ := hstart
  have h0 : Challenges s ∧ Counters s := by
    refine ⟨⟨?_, ?_, ?_, ?_, ?_⟩, ?_, ?_, ?_⟩
    · simp [hissued]
    · rw [hnone]
      nofun
    · simp [hanswered]
    · simp [hanswered]
    · simp [hanswered]
    · rw [hlog]
      exact .nil
    · simp [hlog]
    · simp [hlog]
  obtain ⟨hchallenges, hcounters⟩ := (invariant.run h0 hfirst hrun).shared
  exact ⟨hchallenges.unique, hchallenges.once, hchallenges.fits, hcounters.ordered⟩

/-! ### One key, two answers -/

/-- SHA-256 of `hub`, the flags, and the counter. -/
def authenticatorData (counter : UInt8) : Bytes :=
  Text.bytes32 0x08d33503ee27d4c13055d0cefec5e730be4ef2e41cd6cfce434936ec1e7c9d4b ++
    [5, 0, 0, 0, counter]

def clientData (challenge : String) : Bytes :=
  Text.utf8 ("\x7b\"type\":\"webauthn.get\",\"challenge\":\"" ++ challenge ++
    "\",\"origin\":\"https://hub\"\x7d")

/-- The answer to the challenge of 32 ones, with the counter 7. -/
def answerSeven : Assertion where
  rawId := some [1, 2, 3, 4]
  clientData := some (clientData "AQEBAQEBAQEBAQEBAQEBAQEBAQEBAQEBAQEBAQEBAQE")
  authenticatorData := some (authenticatorData 7)
  signature := some
    [48, 70, 2, 33, 0, 178, 170, 154, 210, 76, 181, 91, 108, 243, 7, 170, 196, 108, 193, 18, 71, 238,
      206, 9, 247, 220, 208, 17, 178, 209, 233, 210, 137, 72, 73, 222, 98, 2, 33, 0, 226, 191, 80,
      253, 79, 157, 94, 50, 88, 198, 1, 28, 54, 179, 100, 220, 53, 19, 61, 234, 80, 254, 84, 7, 125,
      40, 35, 59, 148, 224, 56, 132]

/-- The answer to the challenge of 32 twos, with the counter 5. -/
def answerFive : Assertion where
  rawId := some [1, 2, 3, 4]
  clientData := some (clientData "AgICAgICAgICAgICAgICAgICAgICAgICAgICAgICAgI")
  authenticatorData := some (authenticatorData 5)
  signature := some
    [48, 69, 2, 33, 0, 145, 109, 24, 147, 219, 208, 60, 112, 109, 175, 95, 196, 221, 134, 252, 14, 18,
      86, 32, 39, 243, 203, 229, 118, 230, 13, 80, 104, 124, 49, 35, 130, 2, 32, 23, 131, 119, 90,
      106, 140, 89, 37, 235, 245, 60, 213, 87, 57, 88, 206, 55, 16, 65, 234, 117, 122, 242, 35, 28,
      103, 248, 183, 121, 43, 230, 214]

def publicKey : Bytes :=
  [4, 71, 28, 62, 117, 140, 73, 4, 40, 91, 186, 126, 83, 17, 142, 208, 245, 36, 173, 235, 7, 87, 210,
    91, 210, 248, 231, 176, 215, 109, 250, 113, 76, 221, 82, 15, 122, 202, 138, 139, 145, 122, 204,
    55, 245, 29, 232, 240, 201, 187, 227, 173, 133, 131, 130, 231, 2, 220, 37, 161, 45, 9, 247, 168,
    88]

/-- The two answers, with the byte of their challenge and the hash of their `clientDataJSON`. -/
def signedAnswers : List (Assertion × UInt8 × Nat) :=
  [(answerSeven, 1, 0x1d1ad00f4cd18e07853fad4bffca8309e57da35291610d415d93b75decd8ba7d),
    (answerFive, 2, 0xb0defa46507ecb88a11df99b9ce269305045a2204a96b479c13b7feec181f157)]

/-- What other crates say of them: both are signed with the key. -/
def twoAnswers : Crates where
  clientData bytes :=
    (signedAnswers.find? fun a => a.1.clientData = some bytes).map fun a =>
      ⟨"webauthn.get", some (List.replicate 32 a.2.1), "https://hub"⟩
  sha256 bytes :=
    if bytes = Text.utf8 "hub" then (authenticatorData 0).take 32
    else Text.bytes32 ((signedAnswers.find? fun a => a.1.clientData = some bytes).elim 0 (·.2.2))
  isKey bytes := bytes = publicKey
  isSignature bytes := signedAnswers.any fun a => a.1.signature = some bytes
  verifies key signed signature := key = publicKey ∧ signedAnswers.any fun a =>
    a.1.authenticatorData.map (· ++ Text.bytes32 a.2.2) = some signed ∧ a.1.signature = some signature

def hub : RelyingParty := ⟨"hub", "https://hub"⟩

/-- The key as Kratos has it. -/
def kratosKeys : List KratosKey := [⟨[1, 2, 3, 4], publicKey, 3⟩]

/-- Two challenges for user `1`. -/
def twoChallenges : List (Interleave.Event Flight Outside) :=
  [.start 0 (.challenge 1 .confirm 10 (List.replicate 32 1)), .next 0,
    .start 1 (.challenge 1 .confirm 11 (List.replicate 32 2)), .next 1]

def confirmSeven : Interleave.Event Flight Outside :=
  .start 2 (.localKey 1 ⟨10, answerSeven⟩ kratosKeys)

def confirmFive : Interleave.Event Flight Outside :=
  .start 3 (.localKey 1 ⟨11, answerFive⟩ kratosKeys)

/-- The counter is accepted. -/
def seven : Acceptance.Entry KeyId Nat := .accepted (.kratos 1 [1, 2, 3, 4]) 7
def five : Acceptance.Entry KeyId Nat := .accepted (.kratos 1 [1, 2, 3, 4]) 5

/-- One confirmation after the other. -/
def inTurn : List (Interleave.Event Flight Outside) :=
  twoChallenges ++ [confirmSeven] ++ List.replicate 6 (.next 2) ++ [confirmFive] ++
    List.replicate 4 (.next 3)

theorem keys_hold_in_turn :
    ∃ w, Run.run (Interleave.step (system twoAnswers hub)) (World.quiet {}) inTurn = some w ∧
      w.shared.log = [seven] ∧ w.shared.answered.length = 1 ∧ w.flights.keys = [] ∧
      (w.shared.answered.map (·.challengeId)).Nodup ∧
      Acceptance.Ordered (fun v v' => v ≠ 0 → v < v') w.shared.log := by
  have hrun : (Run.run (Interleave.step (system twoAnswers hub)) (World.quiet {}) inTurn).map
      (fun w => (w.shared.log, w.shared.answered.length, w.flights.keys)) = some ([seven], 1, []) := by
    decide +kernel
  obtain ⟨w, hw, hlog⟩ := Option.map_eq_some_iff.1 hrun
  simp only [Prod.mk.injEq] at hlog
  have hfirst : Run.Meets (Interleave.step (system twoAnswers hub))
      (fun w e => storesFirst w e = true) (World.quiet {}) inTurn := by decide +kernel
  obtain ⟨-, honce, -, hordered⟩ :=
    keys_hold twoAnswers hub {} ⟨rfl, rfl, rfl, rfl⟩ inTurn w hw hfirst
  exact ⟨w, hw, hlog.1, hlog.2.1, hlog.2.2, honce, hordered⟩

/-- Both look for the counter before one stores it. -/
def atOnce : List (Interleave.Event Flight Outside) :=
  twoChallenges ++ [confirmSeven, confirmFive] ++ List.replicate 3 (.next 3) ++
    List.replicate 6 (.next 2) ++ List.replicate 3 (.next 3)

theorem older_counter_accepted :
    ∃ w, Run.run (Interleave.step (system twoAnswers hub)) (World.quiet {}) atOnce = some w ∧
      w.shared.log = [seven, five] ∧
      ¬Acceptance.Ordered (fun v v' => v ≠ 0 → v < v') w.shared.log := by
  have hrun : (Run.run (Interleave.step (system twoAnswers hub)) (World.quiet {}) atOnce).map
      (fun w => w.shared.log) = some [seven, five] := by decide
  obtain ⟨w, hw, hlog⟩ := Option.map_eq_some_iff.1 hrun
  refine ⟨w, hw, hlog, fun hordered => ?_⟩
  rw [hlog] at hordered
  have hlt := hordered (.kratos 1 [1, 2, 3, 4]) 7 5 [] [] [] rfl (by simp) (by decide)
  omega

end Server.SecurityKeys
