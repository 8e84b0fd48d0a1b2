import RemoteHub.Server.Roles

/-!
# There is an administrator

Two revocations cannot take the role from each other: the second one waits for the row of `instance`
and counts after the first one is committed. The deletion of a group or a local account takes its
roles along and counts nothing. Over a run in which each such deletion leaves an administrator that
no revocation is about to take, there is always one (`administrator_stays`); deleting the last
administrator's group leaves none (`last_administrator_deleted`).
-/

namespace Server.Roles

open Model Except Interleave

/-- The principal has the administrator role. -/
def Administers (s : Shared) (p : PrincipalId) : Prop := (.administrator, p) ∈ s.assignments

/-- What a request in flight relies on: past the lock it has the row of `instance`, and a revocation
that counted leaves another administrator. -/
def Ready (k : Nat) (s : Shared) : Flight → Prop
  | .locked .administrator _ | .removed .administrator _ | .settingUp .. | .setupCleared .. =>
    s.lock = some k
  | .counted .administrator p => s.lock = some k ∧ ∃ q, q ≠ p ∧ Administers s q
  | _ => True

variable {s s' : Shared} {k : Nat} {f : Flight} {o : Option Flight} {p : PrincipalId}

theorem mem_drop {found : List (SystemRole × PrincipalId)} {key : SystemRole × PrincipalId} :
    key ∈ (s.drop found).assignments ↔ key ∉ found ∧ key ∈ s.assignments := by
  rw [← AList.lookup_isSome, ← AList.lookup_isSome]
  unfold Shared.drop
  rw [HashMap.lookup_foldl_erase]
  by_cases h : key ∈ found <;> simp [h]

@[simp] theorem lock_drop {found : List (SystemRole × PrincipalId)} :
    (s.drop found).lock = s.lock := rfl

@[simp] theorem assignments_release : (s.release k).assignments = s.assignments := by
  unfold Shared.release
  split <;> rfl

theorem lock_release {k' : Nat} (hne : k' ≠ k) (h : s.lock = some k') :
    (s.release k).lock = some k' := by
  unfold Shared.release
  rw [if_neg]
  · exact h
  · rw [h, Option.some.injEq]
    exact hne

/-- A request keeps what it relies on while nobody else takes the lock or an administrator. -/
theorem Ready.later (h : Ready k s f) (hlock : s.lock = some k → s'.lock = some k)
    (hstays : s.lock = some k → ∀ p q, f = .counted .administrator p → q ≠ p → Administers s q →
      ∃ q, q ≠ p ∧ Administers s' q) : Ready k s' f := by
  cases f with
  | locked role p =>
    cases role with
    | administrator => exact hlock h
    | _ => trivial
  | removed role p =>
    cases role with
    | administrator => exact hlock h
    | _ => trivial
  | counted role p =>
    cases role with
    | administrator =>
      obtain ⟨hlocked, q, hne, hq⟩ := h
      exact ⟨hlock hlocked, hstays hlocked p q rfl hne hq⟩
    | _ => trivial
  | settingUp _ _ => exact hlock h
  | setupCleared _ _ _ => exact hlock h
  | _ => trivial

/-! ## Statements -/

/-- What a statement of process `k` leaves: its own request ready to go on, and all administrators
unless it commits a removal or the setup. -/
structure Outcome (k : Nat) (s : Shared) (f : Flight) (s' : Shared) (o : Option Flight) : Prop where
  lock : ∀ k', k' ≠ k → s.lock = some k' → s'.lock = some k'
  ready : ∀ g, o = some g → Ready k s' g
  administers : (∀ p, Administers s p → Administers s' p) ∨
    (∃ p, f = .counted .administrator p ∧
      s'.assignments = (s.drop [(.administrator, p)]).assignments) ∨
    (∃ found, ((∃ id, f = .groupCleared id found) ∨ ∃ id, f = .userCleared id found) ∧
      s'.assignments = (s.drop found).assignments) ∨
    ∃ r previous found, f = .setupCleared r previous found ∧ ∃ p, Administers s' p

theorem Outcome.reads {g : Flight} (hg : Ready k s g) : Outcome k s f s (some g) where
  lock _ _ h := h
  ready g' h := by
    cases h
    exact hg
  administers := .inl fun _ hp => hp

theorem statement_ok (hready : Ready k s f) (hlock : f.locks = true → s.lock = some k)
    (h : f.statement s = .ok (s', o)) : Outcome k s f s' o := by
  cases f with
  | assign session role principal kind name =>
    obtain ⟨_, -, h⟩ := bind_eq_ok.1 h
    obtain ⟨_, -, h⟩ := bind_eq_ok.1 h
    obtain ⟨_, -, h⟩ := bind_eq_ok.1 h
    obtain ⟨_, -, h⟩ := bind_eq_ok.1 h
    cases h
    exact .reads trivial
  | assigning role principal row =>
    cases h
    split
    · exact ⟨fun _ _ h => h, nofun, .inl fun p hp => hp⟩
    · exact ⟨fun _ _ h => h, nofun, .inl fun p hp => (AList.mem_insert _).2 (.inr hp)⟩
  | revoke session role principal =>
    obtain ⟨_, -, h⟩ := bind_eq_ok.1 h
    obtain ⟨_, -, h⟩ := bind_eq_ok.1 h
    cases h
    exact .reads trivial
  | revoking role principal =>
    cases h
    refine .reads ?_
    cases role with
    | administrator => exact hlock rfl
    | _ => trivial
  | locked role principal =>
    obtain ⟨_, -, h⟩ := bind_eq_ok.1 h
    cases h
    refine .reads ?_
    cases role with
    | administrator => exact hready
    | _ => trivial
  | removed role principal =>
    obtain ⟨_, hcount, h⟩ := bind_eq_ok.1 h
    cases h
    refine .reads ?_
    cases role with
    | administrator =>
      have hcount := refuse_eq_ok.1 (onlyIf_eq_ok.1 hcount rfl)
      obtain ⟨key, hkey, hother⟩ := List.countP_pos_iff.1 (Nat.pos_of_ne_zero hcount)
      obtain ⟨role, q⟩ := key
      obtain ⟨hrole, hne⟩ := of_decide_eq_true hother
      have hrole : role = .administrator := hrole
      subst hrole
      exact ⟨hready, q, fun hq => hne (by rw [hq]), AList.mem_keys.2 hkey⟩
    | _ => trivial
  | counted role principal =>
    cases h
    by_cases hrole : role = .administrator
    · subst hrole
      exact ⟨fun _ _ h => h, nofun, .inr (.inl ⟨principal, rfl, rfl⟩)⟩
    · refine ⟨fun _ _ h => h, nofun, .inl fun p hp => mem_drop.2 ⟨fun hmem => hrole ?_, hp⟩⟩
      cases List.mem_singleton.1 hmem
      rfl
  | deleteGroup session id =>
    obtain ⟨_, -, h⟩ := bind_eq_ok.1 h
    obtain ⟨_, -, h⟩ := bind_eq_ok.1 h
    cases h
    exact .reads trivial
  | groupFound id =>
    cases h
    exact .reads trivial
  | groupCleared id found =>
    cases h
    exact ⟨fun _ _ h => h, nofun, .inr (.inr (.inl ⟨found, .inl ⟨id, rfl⟩, rfl⟩))⟩
  | deleteUser session id kratos =>
    obtain ⟨_, -, h⟩ := bind_eq_ok.1 h
    split at h
    · cases h
    · obtain ⟨_, -, h⟩ := bind_eq_ok.1 h
      split at h
      · cases h
      · obtain ⟨_, -, h⟩ := bind_eq_ok.1 h
        obtain ⟨_, -, h⟩ := bind_eq_ok.1 h
        cases h
        exact .reads trivial
  | userFound id identity =>
    cases h
    exact .reads trivial
  | userCleared id found =>
    cases h
    exact ⟨fun _ _ h => h, nofun, .inr (.inr (.inl ⟨found, .inr ⟨id, rfl⟩, rfl⟩))⟩
  | setup r =>
    obtain ⟨_, -, h⟩ := bind_eq_ok.1 h
    obtain ⟨_, -, h⟩ := bind_eq_ok.1 h
    obtain ⟨_, -, h⟩ := bind_eq_ok.1 h
    cases h
    exact .reads (hlock rfl)
  | settingUp r previous =>
    cases h
    exact .reads hready
  | setupCleared r previous found =>
    simp only [Flight.statement] at h
    split at h
    · cases h
    · rename_i identity _
      obtain ⟨_, -, h⟩ := bind_eq_ok.1 h
      cases h
      refine ⟨fun _ _ hheld => by cases previous <;> exact hheld, nofun,
        .inr (.inr (.inr ⟨r, previous, found, rfl, ?_⟩))⟩
      exact ⟨.account identity, (AList.mem_insert _).2 (.inl rfl)⟩

/-- The end of a transaction. -/
theorem Outcome.release (h : Outcome k s f s' none) : Outcome k s f (s'.release k) none where
  lock k' hne hlock := lock_release hne (h.lock k' hne hlock)
  ready := nofun
  administers := by
    simp only [Administers, assignments_release]
    exact h.administers

/-- A request that ends without a change. -/
theorem Outcome.close : Outcome k s f (s.release k) none :=
  Outcome.release ⟨fun _ _ h => h, nofun, .inl fun _ hp => hp⟩

/-- A request that took the lock. -/
theorem Outcome.acquired (hfree : s.lock = none) (h : Outcome k { s with lock := some k } f s' o) :
    Outcome k s f s' o where
  lock k' _ hlock := by
    rw [hfree] at hlock
    cases hlock
  ready := h.ready
  administers := h.administers

theorem run_ok (hready : Ready k s f) (hlock : f.locks = true → s.lock = some k)
    (h : (match f.statement s with
      | .ok (s, some f) => some (s, some f)
      | .ok (s, none) => some (s.release k, none)
      | .error (.problem _) => some (s.release k, none)
      | .error .endless => none) = some (s', o)) : Outcome k s f s' o := by
  split at h
  · rename_i hs
    cases h
    exact statement_ok hready hlock hs
  · rename_i hs
    cases h
    exact (statement_ok hready hlock hs).release
  · cases h
    exact .close
  · cases h

/-- The next statement of a process. -/
theorem next_ok (hready : Ready k s f) (h : f.next k s = some (s', o)) : Outcome k s f s' o := by
  obtain ⟨t, ht, h⟩ := Option.bind_eq_some_iff.1 h
  by_cases hlocks : f.locks = true
  · rw [if_pos hlocks] at ht
    unfold Shared.acquire at ht
    split at ht
    · rename_i hfree
      cases ht
      refine .acquired hfree (run_ok ?_ (fun _ => rfl) h)
      cases f <;> trivial
    · cases ht
  · rw [if_neg hlocks] at ht
    cases ht
    exact run_ok hready (fun hlocks' => absurd hlocks' hlocks) h

/-! ## Runs -/

/-- The administrator that the request is about to take the role from. -/
def Flight.takes : Flight → Option PrincipalId
  | .counted .administrator p => some p
  | _ => none

/-- The deletion of a group or an account that is committed next leaves an administrator, and one
that no revocation is about to take. -/
def leavesOne (w : World Shared Flight) : Interleave.Event Flight Outside → Bool
  | .next k =>
    match w.flights.lookup k with
    | some (.groupCleared _ found) | some (.userCleared _ found) =>
      w.shared.assignments.keys.any fun key => key.1 = .administrator && key ∉ found &&
        w.flights.entries.all fun e => e.2.takes ≠ some key.2
    | _ => true
  | _ => true

theorem leavesOne_next {w : World Shared Flight} {found : List (SystemRole × PrincipalId)}
    (hf : w.flights.lookup k = some f)
    (hdeletes : (∃ id, f = .groupCleared id found) ∨ ∃ id, f = .userCleared id found)
    (h : leavesOne w (.next k) = true) :
    ∃ q, (.administrator, q) ∈ w.shared.assignments ∧ (.administrator, q) ∉ found ∧
      ∀ k' p, w.flights.lookup k' = some (.counted .administrator p) → q ≠ p := by
  have hany : (w.shared.assignments.keys.any fun key => key.1 = .administrator && key ∉ found &&
      w.flights.entries.all fun e => e.2.takes ≠ some key.2) = true := by
    unfold leavesOne at h
    rcases hdeletes with ⟨id, rfl⟩ | ⟨id, rfl⟩ <;> simpa only [hf] using h
  obtain ⟨⟨role, q⟩, hkey, hq⟩ := List.any_eq_true.1 hany
  simp only [Bool.and_eq_true, decide_eq_true_eq, List.all_eq_true] at hq
  obtain ⟨⟨rfl, hnot⟩, hall⟩ := hq
  refine ⟨q, AList.mem_keys.2 hkey, hnot, fun k' p hk' hqp => ?_⟩
  exact hall ⟨k', .counted .administrator p⟩ (HashMap.lookup_eq_some.1 hk') (by rw [hqp]; rfl)

theorem invariant :
    Invariant system (fun w e => leavesOne w e = true) (fun s => ∃ p, Administers s p) Ready where
  start k s f _ hf := by
    cases f <;> trivial
  next w k f s o hw hleaves hf h := by
    have hready := hw.flights k f hf
    obtain ⟨hlock, hown, hadministers⟩ := next_ok hready h
    obtain ⟨p, hp⟩ := hw.shared
    rcases hadministers with hall | ⟨p', rfl, hdrop⟩ | ⟨found, hdeletes, hdrop⟩ |
      ⟨r, previous, found, rfl, hsome⟩
    · exact ⟨⟨p, hall p hp⟩, hown, fun k' g hne _ hg => hg.later (hlock k' hne)
        fun _ p q _ hqp hq => ⟨q, hqp, hall q hq⟩⟩
    · -- a revocation has the lock, so that no other one has counted
      obtain ⟨hlocked, q, hne, hq⟩ := hready
      have hkept : Administers s q := by
        unfold Administers
        rw [hdrop, mem_drop]
        refine ⟨fun hmem => hne ?_, hq⟩
        cases List.mem_singleton.1 hmem
        rfl
      refine ⟨⟨q, hkept⟩, hown, fun k' g hne' _ hg => hg.later (hlock k' hne') ?_⟩
      intro hlock'
      rw [hlocked] at hlock'
      cases hlock'
      exact absurd rfl hne'
    · obtain ⟨q, hq, hnot, hfree⟩ := leavesOne_next hf hdeletes hleaves
      have hkept : Administers s q := by
        unfold Administers
        rw [hdrop, mem_drop]
        exact ⟨hnot, hq⟩
      refine ⟨⟨q, hkept⟩, hown, fun k' g hne hg hready' => hready'.later (hlock k' hne) ?_⟩
      intro _ p' _ hg' _ _
      subst hg'
      exact ⟨q, hfree k' p' hg, hkept⟩
    · refine ⟨hsome, hown, fun k' g hne _ hg => hg.later (hlock k' hne) ?_⟩
      intro hlock'
      have hlocked : w.shared.lock = some k := hready
      rw [hlocked] at hlock'
      cases hlock'
      exact absurd rfl hne
  outside w e s hw _ h := by
    cases e with
    | elsewhere users groups setupCompleted =>
      cases h
      exact ⟨hw.shared, fun k g hg => hg.later (fun h => h) fun _ p q _ hqp hq => ⟨q, hqp, hq⟩⟩

/-- **The last administrator stays**: from a state with one, over any interleaving of the requests
that give and take roles in which each deletion of a group or an account leaves an administrator
that no revocation is about to take, there is one. -/
theorem administrator_stays (s : Shared) (hstart : ∃ p, Administers s p)
    (es : List (Interleave.Event Flight Outside)) (w : World Shared Flight)
    (hrun : Run.run (Interleave.step system) (World.quiet s) es = some w)
    (hleaves : Run.Meets (Interleave.step system) (fun w e => leavesOne w e = true)
      (World.quiet s) es) :
    ∃ p, Administers w.shared p :=
  (invariant.run hstart hleaves hrun).shared

/-- Group `1` and the local account of user `2` are administrators. -/
def twoAdministrators : Shared where
  assignments := .collect
    [((.administrator, .group 1), { principalKind := "group", principalName := "Operations" }),
      ((.administrator, .account 3), { principalKind := "user", principalName := "Alice" })]
  users := .collect [(2, { kind := .account, identityId := some 3, signedIn := true })]
  groups := .collect [(1, "Operations")]

def alice : Session := ⟨2, true⟩

/-- A group of administrators is deleted, then the last one is to be revoked. -/
def deleteThenRevoke : List (Interleave.Event Flight Outside) :=
  [.start 0 (.deleteGroup alice 1), .start 1 (.revoke alice "administrator" (.account 3))] ++
    List.replicate 3 (.next 0) ++ List.replicate 4 (.next 1)

theorem administrator_stays_refused :
    ∃ w, Run.run (Interleave.step system) (World.quiet twoAdministrators) deleteThenRevoke =
        some w ∧
      w.flights.keys = [] ∧ w.shared.assignments.keys = [(.administrator, .account 3)] ∧
      ∃ p, Administers w.shared p := by
  have hrun : (Run.run (Interleave.step system) (World.quiet twoAdministrators)
      deleteThenRevoke).map (fun w => (w.flights.keys, w.shared.assignments.keys)) =
      some ([], [(.administrator, .account 3)]) := by decide
  obtain ⟨w, hw, hkeys⟩ := Option.map_eq_some_iff.1 hrun
  simp only [Prod.mk.injEq] at hkeys
  have hstart : ∃ p, Administers twoAdministrators p :=
    ⟨.group 1, AList.mem_keys.2 (by decide)⟩
  have hleaves : Run.Meets (Interleave.step system) (fun w e => leavesOne w e = true)
      (World.quiet twoAdministrators) deleteThenRevoke := by decide
  exact ⟨w, hw, hkeys.1, hkeys.2,
    administrator_stays twoAdministrators hstart deleteThenRevoke w hw hleaves⟩

/-- A group is the one administrator. -/
def oneAdministrator : Shared :=
  { twoAdministrators with
    assignments := .collect [((.administrator, .group 1),
      { principalKind := "group", principalName := "Operations" })] }

theorem last_administrator_deleted :
    (∃ p, Administers oneAdministrator p) ∧
      ∃ w, Run.run (Interleave.step system) (World.quiet oneAdministrator)
          [.start 0 (.deleteGroup alice 1), .next 0, .next 0, .next 0] = some w ∧
        ¬∃ p, Administers w.shared p := by
  have hrun : (Run.run (Interleave.step system) (World.quiet oneAdministrator)
      [.start 0 (.deleteGroup alice 1), .next 0, .next 0, .next 0]).map
        (fun w => w.shared.assignments.keys) = some [] := by decide
  obtain ⟨w, hw, hkeys⟩ := Option.map_eq_some_iff.1 hrun
  refine ⟨⟨.group 1, AList.mem_keys.2 (by decide)⟩, w, hw, fun hsome => ?_⟩
  obtain ⟨p, hp⟩ := hsome
  have hmem := AList.mem_keys.1 hp
  rw [hkeys] at hmem
  cases hmem

end Server.Roles
