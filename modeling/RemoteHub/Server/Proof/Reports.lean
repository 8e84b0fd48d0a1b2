import RemoteHub.Server.Reports

/-!
# One answer to who a user is

However users and sessions are written, a user is named by a SID or by an identity, never by both, and
only the sessions of directory users have groups (`Sound`, kept by every `Write`). `standing` says who a
user with a principal and directory groups is; `byHash_standing`, `report_standing` and
`shown_standing` compare the three computations with it.
-/

namespace Server.Reports

open Model

variable {t t' : Tables} {id user : Uuid} {row : UserRow} {groups : List String} {x : String}

/-! ## Users and their sessions -/

/-- What the columns of a user say together. -/
inductive UserRow.Sound : UserRow → Prop
  | directory (sid : String) : Sound ⟨.directory, some sid, none⟩
  | account (identity : Uuid) : Sound ⟨.account, none, some identity⟩
  | breakGlass : Sound ⟨.breakGlass, none, none⟩
  | deleted : Sound ⟨.deleted, none, none⟩

def Tables.Directory (t : Tables) (user : Uuid) : Prop :=
  ∃ sid, t.users.lookup user = some ⟨.directory, some sid, none⟩

/-- Only directory users have groups in their sessions. -/
structure Tables.Sound (t : Tables) : Prop where
  users : ∀ id row, t.users.lookup id = some row → row.Sound
  sessions : ∀ key session, t.sessions.lookup key = some session → session.groups ≠ [] →
    t.Directory session.userId
  codes : ∀ code ∈ t.codes, code.2 ≠ [] → t.Directory code.1

theorem Tables.Sound.insert (ht : t.Sound) (hid : id ∉ t.users) (hrow : row.Sound) :
    Tables.Sound { t with users := t.users.insert id row } := by
  have hkept : ∀ user, t.Directory user → Tables.Directory { t with users := t.users.insert id row } user := by
    rintro user ⟨sid, hsid⟩
    refine ⟨sid, ?_⟩
    have hne : user ≠ id := fun h => hid (AList.lookup_isSome.1 (by rw [← h, hsid]; rfl))
    rw [HashMap.lookup_insert_eq, if_neg hne, hsid]
  refine ⟨fun id' row' hlookup => ?_, fun key session hsession hgroups => ?_, fun code hcode hgroups => ?_⟩
  · rw [HashMap.lookup_insert_eq] at hlookup
    split at hlookup
    · cases hlookup
      exact hrow
    · exact ht.users id' row' hlookup
  · exact hkept _ (ht.sessions key session hsession hgroups)
  · exact hkept _ (ht.codes code hcode hgroups)

/-- A user that the directory does not know is deleted. -/
theorem Tables.Sound.modify (ht : t.Sound) {g : UserRow → UserRow}
    (hrow : ∀ row, t.users.lookup id = some row → row.kind ≠ .directory ∧ (g row).Sound) :
    Tables.Sound { t with users := t.users.modify id g } := by
  have hkept : ∀ user, t.Directory user → Tables.Directory { t with users := t.users.modify id g } user := by
    rintro user ⟨sid, hsid⟩
    refine ⟨sid, ?_⟩
    have hne : user ≠ id := fun h => (hrow _ (h ▸ hsid)).1 rfl
    rw [HashMap.lookup_modify, if_neg hne, hsid]
  refine ⟨fun id' row' hlookup => ?_, fun key session hsession hgroups => ?_, fun code hcode hgroups => ?_⟩
  · rw [HashMap.lookup_modify] at hlookup
    split at hlookup
    · subst id'
      obtain ⟨row, hrow', rfl⟩ := Option.map_eq_some_iff.1 hlookup
      exact (hrow row hrow').2
    · exact ht.users id' row' hlookup
  · exact hkept _ (ht.sessions key session hsession hgroups)
  · exact hkept _ (ht.codes code hcode hgroups)

theorem Tables.Sound.startSession (ht : t.Sound) (hgroups : groups ≠ [] → t.Directory user) (session : Uuid)
    (now : Int) : (t.startSession session user groups now).Sound := by
  refine ⟨ht.users, fun key row hrow hne => ?_, ht.codes⟩
  unfold Tables.startSession at hrow
  rw [HashMap.lookup_insert_eq] at hrow
  split at hrow
  · cases hrow
    exact hgroups hne
  · exact ht.sessions key row hrow hne

/-- The row that an upsert finds or makes. -/
theorem upsert_sound {same : UserRow → Bool} {r : Tables × Uuid} (ht : t.Sound) (hrow : row.Sound)
    (hsame : same row = true) (h : t.upsert id row same = some r) :
    r.1.Sound ∧ ∃ found, r.1.users.lookup r.2 = some found ∧ same found = true := by
  unfold Tables.upsert at h
  split at h
  · rename_i e he
    cases h
    exact ⟨ht, e.2, HashMap.lookup_eq_some.2 (List.mem_of_find?_eq_some he),
      List.find?_some (p := fun e : Sigma fun _ : Uuid => UserRow => same e.2) he⟩
  · split at h
    · cases h
    · rename_i hid
      cases h
      exact ⟨ht.insert hid hrow, row, AList.lookup_insert _, hsame⟩

theorem write_sound {w : Write} (ht : t.Sound) (h : t.write w = some t') : t'.Sound := by
  cases w with
  | signInDirectory id sid session groups now =>
    obtain ⟨r, hr, rfl⟩ := Option.map_eq_some_iff.1 h
    obtain ⟨hsound, found, hfound, hsame⟩ := upsert_sound ht (.directory sid) (by simp) hr
    refine hsound.startSession (fun _ => ?_) session now
    have hrow := hsound.users _ _ hfound
    cases hrow with
    | directory sid' => exact ⟨sid', hfound⟩
    | _ => simp at hsame
  | invite id identity =>
    obtain ⟨r, hr, rfl⟩ := Option.map_eq_some_iff.1 h
    exact (upsert_sound ht (.account identity) (by simp) hr).1
  | signInLocal id identity session now =>
    obtain ⟨r, hr, rfl⟩ := Option.map_eq_some_iff.1 h
    exact (upsert_sound ht (.account identity) (by simp) hr).1.startSession (fun h => absurd rfl h) session now
  | createBreakGlass id =>
    simp only [Tables.write, Option.ite_none_left_eq_some, Option.some.injEq] at h
    obtain ⟨hid, rfl⟩ := h
    exact ht.insert hid .breakGlass
  | signInBreakGlass id session now =>
    simp only [Tables.write, Option.ite_none_right_eq_some, Option.some.injEq] at h
    obtain ⟨-, rfl⟩ := h
    exact ht.startSession (fun h => absurd rfl h) session now
  | deleteLocal id =>
    simp only [Tables.write, Option.ite_none_right_eq_some, Option.some.injEq] at h
    obtain ⟨hfound, rfl⟩ := h
    refine ht.modify fun row hrow => ?_
    rw [hrow, Option.any_some] at hfound
    cases ht.users id row hrow with
    | directory sid => simp at hfound
    | account | breakGlass | deleted => exact ⟨nofun, .deleted⟩
  | deleteBreakGlass id =>
    simp only [Tables.write, Option.ite_none_right_eq_some, Option.some.injEq] at h
    obtain ⟨hfound, rfl⟩ := h
    refine ht.modify fun row hrow => ?_
    rw [hrow, Option.any_some] at hfound
    cases ht.users id row hrow with
    | directory sid => simp at hfound
    | account => simp at hfound
    | breakGlass | deleted => exact ⟨nofun, .deleted⟩
  | issueCode session =>
    obtain ⟨row, hrow, rfl⟩ := Option.map_eq_some_iff.1 h
    refine ⟨ht.users, ht.sessions, fun code hcode hgroups => ?_⟩
    rcases List.mem_cons.1 hcode with rfl | hcode
    · exact ht.sessions session row hrow hgroups
    · exact ht.codes code hcode hgroups
  | connectExtension code session now =>
    simp only [Tables.write, Option.ite_none_right_eq_some, Option.some.injEq] at h
    obtain ⟨hcode, rfl⟩ := h
    exact ht.startSession (ht.codes code hcode) session now
  | refresh session groups =>
    simp only [Tables.write, Option.bind_eq_some_iff, Option.ite_none_right_eq_some, Option.some.injEq] at h
    obtain ⟨row, hrow, hsid, rfl⟩ := h
    refine ⟨ht.users, fun key session' hsession hgroups => ?_, ht.codes⟩
    rw [HashMap.lookup_collect_entries t.sessions
      fun s => if s.userId = row.userId then { s with groups } else s] at hsession
    obtain ⟨old, hold, rfl⟩ := Option.map_eq_some_iff.1 hsession
    by_cases hsame : old.userId = row.userId
    · rw [if_pos hsame]
      rw [Option.any_eq_true] at hsid
      obtain ⟨found, hfound, hsome⟩ := hsid
      rw [← hsame] at hfound
      cases ht.users _ _ hfound with
      | directory sid => exact ⟨sid, hfound⟩
      | _ => cases hsome
    · rw [if_neg hsame] at hgroups ⊢
      exact ht.sessions key old hold hgroups
  | endSession session =>
    cases h
    exact ⟨ht.users, fun key row hrow => ht.sessions key row (HashMap.of_lookup_erase hrow).2, ht.codes⟩
  | setMembers members =>
    cases h
    exact ⟨ht.users, ht.sessions, ht.codes⟩
  | setAssignments assignments =>
    cases h
    exact ⟨ht.users, ht.sessions, ht.codes⟩

/-- Over every run. -/
theorem run_sound {ws : List Write} (h : Run.run Tables.write {} ws = some t) : t.Sound :=
  Run.inv_of_run (I := fun _ t => t.Sound) ⟨nofun, nofun, nofun⟩ (fun _ _ _ _ _ hs ht => write_sound ht hs) h

/-! ## Who a user is

`standing` says it of a principal and directory groups; the three computations agree with it.
-/

structure Standing where
  memberships : Finset String
  roles : Finset String
  subject : Subject

/-- The own groups with one of these principals. -/
def Tables.memberOf (t : Tables) (sids : Finset String) : Finset String :=
  ((t.members.filter fun m => m.2 ∈ sids).map (groupSid ·.1)).toFinset

/-- The roles of these principals. -/
def Tables.assigned (t : Tables) (sids : Finset String) : Finset String :=
  ((t.assignments.filter fun r => r.2 ∈ sids).map (·.1)).toFinset

def Tables.standing (t : Tables) (kind : UserKind) (principal : Option String) (directory : Finset String) :
    Standing :=
  let named := directory ∪ principal.toList.toFinset
  let memberships := t.memberOf named
  let roles := t.assigned (named ∪ memberships)
  ⟨memberships, roles,
    ⟨named ∪ memberships, kind = .breakGlass || SystemRole.administrator.asStr ∈ roles⟩⟩

theorem mem_memberOf {sids : Finset String} :
    x ∈ t.memberOf sids ↔ ∃ m ∈ t.members, m.2 ∈ sids ∧ groupSid m.1 = x := by
  simp only [Tables.memberOf, List.mem_toFinset, List.mem_map, List.mem_filter, decide_eq_true_eq, and_assoc]

theorem mem_assigned {sids : Finset String} :
    x ∈ t.assigned sids ↔ ∃ r ∈ t.assignments, r.2 ∈ sids ∧ r.1 = x := by
  simp only [Tables.assigned, List.mem_toFinset, List.mem_map, List.mem_filter, decide_eq_true_eq, and_assoc]

/-! ## Sessions and the report -/

def Session.standing (s : Session) : Standing := ⟨s.memberships.toFinset, s.roles.toFinset, s.subject⟩

/-- A session whose memberships and roles are those of its principals. -/
theorem Session.standing_eq {s : Session} (hmemberships : s.memberships.toFinset =
      t.memberOf (s.groups ++ s.principal.toList).toFinset)
    (hroles : s.roles.toFinset = t.assigned s.sids.toFinset) :
    s.standing = t.standing s.kind s.principal s.groups.toFinset := by
  have hnamed : (s.groups ++ s.principal.toList).toFinset = s.groups.toFinset ∪ s.principal.toList.toFinset := by
    ext x
    simp
  have hsids : s.sids.toFinset = s.groups.toFinset ∪ s.principal.toList.toFinset ∪ s.memberships.toFinset := by
    ext x
    simp [Session.sids, or_comm]
  have hadmin : s.isAdmin = (s.kind = .breakGlass || SystemRole.administrator.asStr ∈ s.roles.toFinset) := by
    rw [Session.isAdmin, Session.hasRole, List.any_eq]
    simp
  rw [hnamed] at hmemberships
  rw [Session.standing, Session.subject, Tables.standing, hadmin, hsids, hroles, hsids, hmemberships]

/-- The principal of a row, as `Session::principal` has it. -/
def UserRow.principal (row : UserRow) : Option String := row.sid.or (row.identityId.map localSid)

theorem UserRow.Sound.isUser (hrow : row.Sound) : Tables.isUser row x = true ↔ x ∈ row.principal.toList := by
  rw [Option.mem_toList]
  cases hrow <;> simp [Tables.isUser, UserRow.principal]

theorem byHash_standing (hrow : row.Sound) :
    (t.byHash row groups).standing = t.standing row.kind row.principal groups.toFinset := by
  refine Session.standing_eq ?_ ?_ <;> ext x
  · simp only [mem_memberOf, Tables.byHash, List.mem_toFinset, List.mem_dedup, List.mem_map, List.mem_filter,
      Bool.or_eq_true, decide_eq_true_eq, hrow.isUser, List.mem_append, and_assoc]
    rfl
  · simp only [mem_assigned, Session.sids, Tables.byHash, List.mem_toFinset, List.mem_dedup, List.mem_map,
      List.mem_filter, Bool.or_eq_true, decide_eq_true_eq, hrow.isUser, Session.principal, UserRow.principal,
      List.mem_append, and_assoc]

theorem report_standing {answer : Option (List String)} :
    (t.report id row answer).standing =
      t.standing row.kind row.principal (t.report id row answer).groups.toFinset := by
  refine Session.standing_eq ?_ ?_ <;> ext x
  · simp only [mem_memberOf, Tables.report, List.mem_toFinset, List.mem_dedup, List.mem_map, List.mem_filter,
      decide_eq_true_eq, and_assoc]
    rfl
  · simp only [mem_assigned, Tables.report, List.mem_toFinset, List.mem_dedup, List.mem_map, List.mem_filter,
      decide_eq_true_eq, and_assoc]
    rfl

/-! ## The access overview -/

def User.ownGroups (shown : User) : Finset String :=
  ((shown.groups.filter fun g => g.source = .own).map (·.sid)).toFinset

def User.roleNames (shown : User) : Finset String := (shown.roles.map (·.role)).toFinset

/-- The user that the overview shows. -/
def User.standing (shown : User) : Standing where
  memberships := shown.ownGroups
  roles := shown.roleNames
  subject :=
    { sids := (shown.principal.toList ++ shown.groups.map (·.sid)).toFinset
      admin := shown.kind = .breakGlass || SystemRole.administrator.asStr ∈ shown.roleNames }

/-- What `pushAt` collects at a key. -/
theorem getD_lookup_foldl_pushAt {ν : Type} (rows : List (ν × String)) (m : HashMap String (List ν)) (k : String) :
    ((rows.foldl (fun (m : HashMap String (List ν)) row => m.pushAt row.2 row.1) m).lookup k).getD [] =
      (m.lookup k).getD [] ++ (rows.filter fun row => row.2 = k).map (·.1) := by
  induction rows generalizing m with
  | nil => simp
  | cons row rows ih =>
    rw [List.foldl_cons, ih, HashMap.getD_lookup_pushAt, List.append_assoc]
    by_cases h : row.2 = k <;> simp [h, Ne.symm]

theorem getD_inOwn (sid : String) :
    (t.inOwn.lookup sid).getD [] = (t.members.filter fun m => m.2 = sid).map (·.1) :=
  (getD_lookup_foldl_pushAt t.members ∅ sid).trans (List.nil_append _)

theorem getD_rolesOf (sid : String) :
    (t.rolesOf.lookup sid).getD [] = (t.assignments.filter fun r => r.2 = sid).map (·.1) :=
  (getD_lookup_foldl_pushAt t.assignments ∅ sid).trans (List.nil_append _)

/-- The loop over the own groups has shown these, each once. -/
structure Collected (acc : Finset Uuid × List UserGroup) (ids : Finset Uuid) : Prop where
  seen : acc.1 = ids
  sids : (acc.2.map (·.sid)).toFinset = ids.image groupSid
  own : ∀ g ∈ acc.2, g.source = .own

namespace Collected

variable {acc : Finset Uuid × List UserGroup} {ids : Finset Uuid} {via : Option String}

theorem addOwn (h : Collected acc ids) (group : Uuid) : Collected (Tables.addOwn via acc group) (insert group ids) := by
  unfold Tables.addOwn
  split
  · rename_i hmem
    rw [h.seen] at hmem
    rwa [Finset.insert_eq_of_mem hmem]
  · refine ⟨by rw [h.seen], ?_, ?_⟩
    · rw [List.map_append, List.toFinset_append, h.sids, Finset.image_insert, Finset.insert_eq, Finset.union_comm]
      rfl
    · intro g hg
      rcases List.mem_append.1 hg with hg | hg
      · exact h.own g hg
      · rw [List.mem_singleton.1 hg]

theorem addOwns (l : List Uuid) (h : Collected acc ids) :
    Collected (l.foldl (Tables.addOwn via) acc) (ids ∪ l.toFinset) := by
  induction l generalizing acc ids with
  | nil => simpa using h
  | cons group l ih => simpa [Finset.insert_union, Finset.union_insert] using ih (h.addOwn group)

theorem holders (holders : List (String × Option String)) (h : Collected acc ids) :
    Collected
      (holders.foldl (fun acc holder => ((t.inOwn.lookup holder.1).getD []).foldl (Tables.addOwn holder.2) acc) acc)
      (ids ∪ ((t.members.filter fun m => m.2 ∈ holders.map (·.1)).map (·.1)).toFinset) := by
  induction holders generalizing acc ids with
  | nil => simpa using h
  | cons holder holders ih =>
    have hids : ids ∪ ((t.members.filter fun m => m.2 ∈ (holder :: holders).map (·.1)).map (·.1)).toFinset =
        ids ∪ ((t.inOwn.lookup holder.1).getD []).toFinset ∪
          ((t.members.filter fun m => m.2 ∈ holders.map (·.1)).map (·.1)).toFinset := by
      ext id
      simp only [getD_inOwn, List.map_cons, List.mem_cons, Finset.mem_union, List.mem_toFinset, List.mem_map,
        List.mem_filter, decide_eq_true_eq, and_or_left, or_and_right, exists_or, or_assoc]
    rw [hids]
    exact ih (h.addOwns _)

end Collected

/-- The own groups of a user in the overview are those with one of the holders. -/
theorem ownGroups_collected (holders : List (String × Option String)) :
    ((t.ownGroups holders).map (·.sid)).toFinset = t.memberOf (holders.map (·.1)).toFinset ∧
      ∀ g ∈ t.ownGroups holders, g.source = .own := by
  have h : Collected (∅, []) ∅ := ⟨rfl, rfl, nofun⟩
  have hall := h.holders (t := t) holders
  refine ⟨hall.sids.trans ?_, hall.own⟩
  ext x
  simp [mem_memberOf, ← exists_and_right, and_assoc]

/-- The holders of a user's own groups. -/
theorem map_holders (principal : Option String) (directory : List String) :
    (principal.toList.map (·, none) ++ directory.map fun sid => (sid, some sid)).map
      (fun holder : String × Option String => holder.1) = principal.toList ++ directory := by
  rw [List.map_append, List.map_map, List.map_map]
  exact congrArg₂ (· ++ ·) (List.map_id _) (List.map_id _)

theorem roleNames_of (sids : List String) :
    ((sids.flatMap fun sid => ((t.rolesOf.lookup sid).getD []).map (UserRole.mk · sid)).map (·.role)).toFinset =
      t.assigned sids.toFinset := by
  ext x
  simp [mem_assigned, getD_rolesOf, and_comm]

theorem shown_standing {kind : UserKind} {principal : Option String} {directory : List String} :
    (t.shown kind principal directory).standing = t.standing kind principal directory.toFinset := by
  have hnamed : (principal.toList ++ directory).toFinset = directory.toFinset ∪ principal.toList.toFinset := by
    rw [List.toFinset_append, Finset.union_comm]
  obtain ⟨hsids, hown⟩ := ownGroups_collected (t := t)
    (principal.toList.map (·, none) ++ directory.map fun sid => (sid, some sid))
  rw [map_holders, hnamed] at hsids
  have hmemberships : (t.shown kind principal directory).ownGroups =
      t.memberOf (directory.toFinset ∪ principal.toList.toFinset) := by
    rw [← hsids, User.ownGroups, Tables.shown, List.filter_append, List.filter_eq_nil_iff.2, List.nil_append,
      List.filter_eq_self.2]
    · exact fun g hg => decide_eq_true (hown g hg)
    · intro g hg
      obtain ⟨sid, -, rfl⟩ := List.mem_map.1 hg
      exact nofun
  have hall : ((t.shown kind principal directory).principal.toList ++
      (t.shown kind principal directory).groups.map (·.sid)).toFinset =
        directory.toFinset ∪ principal.toList.toFinset ∪
          t.memberOf (directory.toFinset ∪ principal.toList.toFinset) := by
    rw [← hsids, ← hnamed, ← List.toFinset_append, List.append_assoc]
    simp only [Tables.shown, List.map_append, List.map_map, Function.comp_def, List.map_id']
  have hroles : (t.shown kind principal directory).roleNames = t.assigned
      (directory.toFinset ∪ principal.toList.toFinset ∪
        t.memberOf (directory.toFinset ∪ principal.toList.toFinset)) :=
    (roleNames_of _).trans (congrArg t.assigned hall)
  rw [User.standing, hmemberships, hroles, hall]
  rfl

/-! ## The groups of the last sign-in -/

theorem mem_foldl_later {session : SessionRow} {rows : List SessionRow} {latest : Option SessionRow}
    (h : session ∈ rows.foldl Tables.later latest) : session ∈ latest ∨ session ∈ rows := by
  induction rows generalizing latest with
  | nil => exact .inl h
  | cons row rows ih =>
    rcases ih h with h | h
    · unfold Tables.later at h
      split at h
      · cases h
        exact .inr List.mem_cons_self
      · exact .inl h
    · exact .inr (List.mem_cons_of_mem row h)

theorem latestGroups_from {G : List String} (h : t.latestGroups id = some G) :
    ∃ key session, t.sessions.lookup key = some session ∧ session.userId = id ∧ session.groups = G := by
  obtain ⟨session, hsession, rfl⟩ := Option.map_eq_some_iff.1 h
  have hmem := (mem_foldl_later hsession).resolve_left nofun
  obtain ⟨hmem, huser⟩ := List.mem_filter.1 hmem
  obtain ⟨e, he, rfl⟩ := List.mem_map.1 hmem
  exact ⟨e.1, e.2, HashMap.lookup_eq_some.2 he, of_decide_eq_true huser, rfl⟩

/-- Only a directory user has groups at the last sign-in. -/
theorem Tables.Sound.latestGroups (ht : t.Sound) (hrow : t.users.lookup id = some row)
    (hkind : row.kind ≠ .directory) : (t.latestGroups id).getD [] = [] := by
  by_contra hne
  cases hlatest : t.latestGroups id with
  | none => simp [hlatest] at hne
  | some G =>
    rw [hlatest, Option.getD_some] at hne
    obtain ⟨key, session, hsession, rfl, rfl⟩ := latestGroups_from hlatest
    obtain ⟨sid, hsid⟩ := ht.sessions key session hsession hne
    rw [hrow] at hsid
    cases hsid
    exact hkind rfl

theorem Tables.Sound.overview (ht : t.Sound) (hrow : t.users.lookup id = some row)
    (hnamed : row.sid.isSome ∨ row.identityId.isSome) :
    t.overview id row = some (t.shown row.kind row.principal ((t.latestGroups id).getD [])) := by
  cases ht.users id row hrow with
  | directory | account => rfl
  | breakGlass | deleted => simp at hnamed

/-! ## Main theorem -/

/-- The three computations give a user with the directory groups `groups` the same memberships and roles,
and `Catalog` the same answers. -/
theorem reports_true {ws : List Write} {answer : Option (List String)}
    (h : Run.run Tables.write {} ws = some t) (hrow : t.users.lookup id = some row)
    (hnamed : row.sid.isSome ∨ row.identityId.isSome)
    (hlatest : ∀ x, x ∈ (t.latestGroups id).getD [] ↔ x ∈ groups)
    (hanswer : row.kind = .directory → ∀ x, x ∈ t.directoryGroups id answer ↔ x ∈ groups) :
    ∃ shown, t.overview id row = some shown ∧
      let session := t.byHash row groups
      let them := t.report id row answer
      (shown.ownGroups = session.memberships.toFinset ∧ shown.roleNames = session.roles.toFinset) ∧
      (them.memberships.toFinset = session.memberships.toFinset ∧ them.roles.toFinset = session.roles.toFinset) ∧
      ∀ catalog : Catalog, ∀ subject ∈ [shown.standing.subject, them.subject],
        catalog.visible subject = catalog.visible session.subject ∧
          ∀ object, catalog.effectiveRole subject object = catalog.effectiveRole session.subject object := by
  have ht := run_sound h
  have hsame : ∀ {l : List String}, (∀ x, x ∈ l ↔ x ∈ groups) → l.toFinset = groups.toFinset := fun hl => by
    ext x
    rw [List.mem_toFinset, List.mem_toFinset, hl]
  have hsession : (t.byHash row groups).standing = t.standing row.kind row.principal groups.toFinset :=
    byHash_standing (ht.users id row hrow)
  have hshown : (t.shown row.kind row.principal ((t.latestGroups id).getD [])).standing =
      (t.byHash row groups).standing := by
    rw [shown_standing, hsession, hsame hlatest]
  have hthem : (t.report id row answer).standing = (t.byHash row groups).standing := by
    rw [report_standing, hsession]
    congr 1
    unfold Tables.report
    dsimp only
    split
    · rename_i hkind
      exact hsame (hanswer hkind)
    · rename_i hkind
      rw [← hsame hlatest, ht.latestGroups hrow hkind]
  refine ⟨_, ht.overview hrow hnamed, ⟨congrArg (·.memberships) hshown, congrArg (·.roles) hshown⟩,
    ⟨congrArg (·.memberships) hthem, congrArg (·.roles) hthem⟩, fun catalog subject hsubject => ?_⟩
  have hsubject : subject = (t.byHash row groups).subject := by
    rcases List.mem_cons.1 hsubject with rfl | hsubject
    · exact congrArg (·.subject) hshown
    · rw [List.mem_singleton.1 hsubject]
      exact congrArg (·.subject) hthem
  rw [hsubject]
  exact ⟨rfl, fun _ => rfl⟩

/-- A user whose directory group is a member of an own group that has a role. -/
def auditors : Tables where
  users := HashMap.collect [(1, ⟨.directory, some "S-1-5-21-7", none⟩)]
  sessions := HashMap.collect [(2, ⟨1, ["S-1-5-21-40"], 0⟩)]
  members := [(9, "S-1-5-21-40")]
  assignments := [("auditor", groupSid 9)]

/-- All three know the role that comes by way of the two groups. -/
theorem reports_true_auditors :
    ∃ shown, auditors.overview 1 ⟨.directory, some "S-1-5-21-7", none⟩ = some shown ∧
      "auditor" ∈ shown.roleNames ∧
      "auditor" ∈ (auditors.byHash ⟨.directory, some "S-1-5-21-7", none⟩ ["S-1-5-21-40"]).roles ∧
      "auditor" ∈ (auditors.report 1 ⟨.directory, some "S-1-5-21-7", none⟩ none).roles := by
  have hrun : Run.run Tables.write {} [.signInDirectory 1 "S-1-5-21-7" 2 ["S-1-5-21-40"] 0,
      .setMembers [(9, "S-1-5-21-40")], .setAssignments [("auditor", groupSid 9)]] = some auditors := rfl
  obtain ⟨shown, hshown, ⟨-, hroles⟩, ⟨-, hthem⟩, -⟩ :=
    @reports_true auditors 1 _ ["S-1-5-21-40"] _ none hrun rfl (.inl rfl) (fun _ => Iff.rfl) fun _ _ => Iff.rfl
  have hsession : "auditor" ∈ (auditors.byHash ⟨.directory, some "S-1-5-21-7", none⟩ ["S-1-5-21-40"]).roles := by
    decide
  refine ⟨shown, hshown, hroles ▸ List.mem_toFinset.2 hsession, hsession, List.mem_toFinset.1 ?_⟩
  exact hthem ▸ List.mem_toFinset.2 hsession

end Server.Reports
