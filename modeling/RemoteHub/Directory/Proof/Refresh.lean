import RemoteHub.Directory.Proof.LdapDirectory

/-!
# Asking again by a SID

The SID that a sign-in gives is that of the entry's own bytes, so the search by it finds this entry and no
other (`found_sid`): as long as the directory stays as it is, asking again gives the groups of the sign-in
(`refresh_iff`). `group_names` searches for a hundred SIDs at a time; that is one search for all of them
(`groupNames_spec`).
-/

namespace Directory.LdapDirectory

open LdapFilter Text

variable {lib : Ldap3} {config : LdapConfig}

/-! ## Accounts that may no longer sign in -/

/-- The entry's flags say that it is disabled. -/
def Disabled (entry : SearchEntry) : Prop :=
  ∃ control, (firstText entry "userAccountControl").bind (parseUnsigned (2 ^ 32 - 1)) = some control ∧
    control.testBit 1 = true

/-- The entry's last moment, counted in tenths of microseconds since 1601, has passed. -/
def Expired (now : Int) (entry : SearchEntry) : Prop :=
  ∃ moment, (firstText entry "accountExpires").bind (parseSigned (-2 ^ 63) (2 ^ 63 - 1)) = some moment ∧
    0 < moment ∧ 0 ≤ now ∧ moment / 10000000 - filetimeToUnix < now

theorem and_two_ne_zero (n : Nat) : n &&& 2 ≠ 0 ↔ n.testBit 1 = true := by
  have hbit (i : Nat) : (n &&& 2).testBit i = (n.testBit i && decide (1 = i)) := by
    rw [Nat.testBit_and, show 2 = 2 ^ 1 from rfl, Nat.testBit_two_pow]
  constructor
  · intro h
    obtain ⟨i, hi⟩ := Nat.exists_testBit_of_ne_zero h
    rw [hbit, Bool.and_eq_true, decide_eq_true_eq] at hi
    obtain ⟨hi, rfl⟩ := hi
    exact hi
  · rintro h hzero
    have hone := hbit 1
    rw [hzero, h] at hone
    simp at hone

theorem disabled_iff (entry : SearchEntry) :
    ((firstText entry "userAccountControl").bind (parseUnsigned (2 ^ 32 - 1))).getD 0 &&&
      accountDisabledBit ≠ 0 ↔ Disabled entry := by
  unfold Disabled
  rw [accountDisabledBit, and_two_ne_zero]
  cases (firstText entry "userAccountControl").bind (parseUnsigned (2 ^ 32 - 1)) <;> simp

theorem expired_iff (now : Int) (entry : SearchEntry) :
    expired ((firstText entry "accountExpires").bind (parseSigned (-2 ^ 63) (2 ^ 63 - 1))) now = true ↔
      Expired now entry := by
  unfold Expired expired
  cases (firstText entry "accountExpires").bind (parseSigned (-2 ^ 63) (2 ^ 63 - 1)) with
  | none => simp
  | some moment =>
    by_cases hpos : 0 < moment
    swap
    · simp [Option.filter, hpos]
    by_cases hnow : 0 ≤ now
    · simp [Option.filter, hpos, hnow, filetimeToUnix]
      omega
    · simp [Option.filter, hpos, hnow]

/-! ## Asking again -/

theorem disabled_select {entry : SearchEntry} :
    Disabled (select refreshAttributes entry) ↔ Disabled entry := by
  rw [Disabled, firstText_select (by decide)]
  rfl

theorem expired_select {now : Int} {entry : SearchEntry} :
    Expired now (select refreshAttributes entry) ↔ Expired now entry := by
  rw [Expired, firstText_select (by decide)]
  rfl

/-- What asking again by a SID comes to: the first user with it that the configured filter lets through is
neither disabled nor expired and has these groups. -/
def Refreshes (config : LdapConfig) (servers : RefreshStep → Server)
    (content : RefreshStep → Content) (now : Int) (sid : Sid) (groups : List Sid) : Prop :=
  ∃ extra entry, (servers .service).Accepts config.bindDn config.bindPassword ∧
    read (config.userFilter.getD "") = some extra ∧
    (servers .find).Answered config.baseDn .subtree (refreshFilter sid config.userFilter)
      refreshAttributes ∧
    ((content .find).found (personUser ++ sidItem sid :: extra)).head? = some entry ∧
    ¬ Disabled entry ∧ ¬ Expired now entry ∧
    (servers .groups).Answered entry.dn .base "(objectClass=*)" ["tokenGroups"] ∧
    Groups ((content .groups).object entry.dn) groups

theorem refresh_eq_ok {servers : RefreshStep → Server} {content : RefreshStep → Content} {now : Int}
    {sid : Sid} {groups : List Sid}
    (hanswers : ∀ step, (servers step).Answers config.baseDn (content step)) :
    refresh lib config servers now sid = .ok groups ↔
      Refreshes config servers content now sid groups := by
  constructor
  · intro h
    obtain ⟨_, hservice, h⟩ := Except.bind_eq_ok.1 h
    obtain ⟨⟨es, result⟩, hsearch, h⟩ := Except.bind_eq_ok.1 h
    have hsearch := mapError_eq_ok.1 hsearch
    obtain ⟨es', hsuccess, h⟩ := Except.bind_eq_ok.1 h
    obtain ⟨hrc, hes⟩ := success_eq_ok.1 hsuccess
    obtain ⟨entry, hentry, h⟩ := Except.bind_eq_ok.1 h
    obtain ⟨f, hf, hfound⟩ := (hanswers .find).subtree hsearch hrc
    obtain ⟨extra, hextra, hconj⟩ := read_refreshFilter.1 hf
    rw [← hes, hfound, hconj, found_all, Except.elim_eq_ok, List.head?_map,
      Option.map_eq_some_iff] at hentry
    obtain ⟨e, he, heq⟩ := hentry
    rw [← heq] at h
    obtain ⟨_, hdisabled, h⟩ := Except.bind_eq_ok.1 h
    obtain ⟨_, hexpired, h⟩ := Except.bind_eq_ok.1 h
    obtain ⟨hbase, hgroups⟩ := (tokenGroups_eq_ok (hanswers .groups)).1 h
    rw [Except.refuse_eq_ok, disabled_iff, disabled_select] at hdisabled
    rw [Except.refuse_eq_ok, expired_iff, expired_select] at hexpired
    exact ⟨extra, e, service_eq_ok.1 hservice, hextra, ⟨_, _, hsearch, hrc⟩, he, hdisabled, hexpired, hbase,
      hgroups⟩
  · rintro ⟨extra, e, hservice, hextra, ⟨es, result, hsearch, hrc⟩, he, hdisabled, hexpired, hbase, hgroups⟩
    obtain ⟨f, hf, rfl⟩ := (hanswers .find).subtree hsearch hrc
    obtain ⟨extra', hextra', rfl⟩ := read_refreshFilter.1 hf
    cases hextra.symm.trans hextra'
    refine Except.bind_eq_ok.2 ⟨(), service_eq_ok.2 hservice, ?_⟩
    refine Except.bind_eq_ok.2 ⟨_, mapError_eq_ok.2 hsearch, ?_⟩
    refine Except.bind_eq_ok.2 ⟨_, success_eq_ok.2 ⟨hrc, rfl⟩, ?_⟩
    refine Except.bind_eq_ok.2 ⟨select refreshAttributes e, ?_, ?_⟩
    · rw [found_all, Except.elim_eq_ok, List.head?_map, he, Option.map_some]
    refine Except.bind_eq_ok.2 ⟨(), ?_, ?_⟩
    · rwa [Except.refuse_eq_ok, disabled_iff, disabled_select]
    refine Except.bind_eq_ok.2 ⟨(), ?_, ?_⟩
    · rwa [Except.refuse_eq_ok, expired_iff, expired_select]
    exact (tokenGroups_eq_ok (hanswers .groups)).2 ⟨hbase, hgroups⟩

/-! ## After a sign-in -/

/-- A directory in which an item of a SID matches the entries that have it, and no two users share one. -/
structure Content.HasSids (content : Content) : Prop where
  item : ∀ e ∈ content.entries, ∀ value,
    content.rule e "objectSid" [value] = some true ↔ firstBinary e "objectSid" = some value
  nodup : content.entries.Nodup
  unique : ∀ e ∈ content.entries, ∀ e' ∈ content.entries,
    firstBinary e "objectSid" ≠ none → firstBinary e "objectSid" = firstBinary e' "objectSid" → e = e'

/-- The search by the SID of an entry finds this entry. -/
theorem found_sid {content : Content} {extra : List Filter} {item : Filter} {entry : SearchEntry}
    {sid : Sid} (hsids : content.HasSids) (hentry : content.found (personUser ++ item :: extra) = [entry])
    (hsid : (firstBinary entry "objectSid").bind Sid.fromBytes = some sid) :
    content.found (personUser ++ sidItem sid :: extra) = [entry] := by
  obtain ⟨value, hvalue, hread⟩ := Option.bind_eq_some_iff.1 hsid
  have hbytes : sid.toBytes = value := (Sid.of_fromBytes hread).1
  obtain ⟨hmem, hholds⟩ := mem_found.1 (hentry ▸ List.mem_singleton_self entry)
  refine List.perm_singleton.1 ((List.perm_ext_iff_of_nodup (hsids.nodup.filter _)
    (List.nodup_singleton _)).2 fun e => ?_)
  rw [List.mem_singleton]
  constructor
  · intro he
    obtain ⟨he, hall⟩ := mem_found.1 he
    have hitem := hall (sidItem sid) (List.mem_append_right _ List.mem_cons_self)
    rw [sidItem, Filter.holds_item, hbytes, hsids.item e he] at hitem
    exact hsids.unique e he entry hmem (by simp [hitem]) (hitem.trans hvalue.symm)
  · rintro rfl
    refine mem_found.2 ⟨hmem, fun f hf => ?_⟩
    rcases List.mem_append.1 hf with hf | hf
    · exact hholds f (List.mem_append_left _ hf)
    rcases List.mem_cons.1 hf with rfl | hf
    · rw [sidItem, Filter.holds_item, hbytes, hsids.item e hmem, hvalue]
    · exact hholds f (List.mem_append_right _ (List.mem_cons_of_mem _ hf))

theorem groups_unique {object : Option SearchEntry} {groups groups' : List Sid} (h : Groups object groups)
    (h' : Groups object groups') : groups = groups' := by
  have : Std.Irrefl fun a b : Sid => a.text < b.text := ⟨fun a => lt_irrefl a.text⟩
  have : Std.Antisymm fun a b : Sid => a.text < b.text := ⟨fun a b h h' => absurd h (lt_asymm h')⟩
  exact List.Pairwise.eq_of_mem_iff h.2.1 h'.2.1 fun sid => (h.2.2 sid).trans (h'.2.2 sid).symm

/-- The exchanges of `refresh` are answered. -/
def Available (config : LdapConfig) (servers : RefreshStep → Server) (sid : Sid) (dn : String) : Prop :=
  (servers .service).Accepts config.bindDn config.bindPassword ∧
    (servers .find).Answered config.baseDn .subtree (refreshFilter sid config.userFilter)
      refreshAttributes ∧
    (servers .groups).Answered dn .base "(objectClass=*)" ["tokenGroups"]

/-- **Asking again.** What asking again by a SID comes to in any directory; and in the directory of a sign-in it
is asking about the entry that signed in, which has the groups of the sign-in as long as it may sign in. -/
theorem refresh_iff (lib : Ldap3) (config : LdapConfig) (hescape : Escapes lib.escape)
    (servers : RefreshStep → Server) (content : RefreshStep → Content)
    (hanswers : ∀ step, (servers step).Answers config.baseDn (content step)) (now : Int) (sid : Sid)
    (groups : List Sid) :
    (refresh lib config servers now sid = .ok groups ↔
      Refreshes config servers content now sid groups) ∧
    ∀ (signIn : SignInStep → Server) (directory : Content) (username password : String) (identity : Identity),
      directory.HasSids → (∀ step, content step = directory) →
      (∀ step, (signIn step).Answers config.baseDn directory) →
      authenticate lib config signIn username password = .ok identity → identity.sid = sid →
      ∃ entry ∈ directory.entries, identity.IsOf entry ∧
        (refresh lib config servers now sid = .ok groups ↔ Available config servers sid entry.dn ∧
          ¬ Disabled entry ∧ ¬ Expired now entry ∧ groups = identity.groups) := by
  refine ⟨refresh_eq_ok hanswers, fun signIn directory username password identity hsids hcontent hsignIn hauth
    hsid => ?_⟩
  obtain ⟨account, extra, entry, -, -, -, hextra, -, hfound, -, -, hgroups, hisOf⟩ :=
    (authenticate_iff hescape signIn (fun _ => directory) hsignIn username password identity).1 hauth
  have hmem := (mem_found.1 (hfound ▸ List.mem_singleton_self entry)).1
  have hfind := found_sid hsids hfound (hsid ▸ hisOf.1)
  refine ⟨entry, hmem, hisOf, ?_⟩
  rw [refresh_eq_ok hanswers]
  constructor
  · rintro ⟨extra', e, hservice, hextra', hfindAnswered, he, hdisabled, hexpired, hbase, hgroups'⟩
    cases hextra.symm.trans hextra'
    rw [hcontent, hfind, List.head?_cons, Option.some.injEq] at he
    subst he
    rw [hcontent] at hgroups'
    exact ⟨⟨hservice, hfindAnswered, hbase⟩, hdisabled, hexpired, groups_unique hgroups' hgroups⟩
  · rintro ⟨⟨hservice, hfindAnswered, hbase⟩, hdisabled, hexpired, rfl⟩
    refine ⟨extra, entry, hservice, hextra, hfindAnswered, ?_, hdisabled, hexpired, hbase, ?_⟩
    · rw [hcontent, hfind, List.head?_cons]
    · rwa [hcontent]

theorem exampleDirectory_hasSids : exampleDirectory.HasSids where
  item := by
    have halice : binaryValues alice "objectSid" = [[1, 1, 0, 0, 0, 0, 0, 5, 11, 0, 0, 0]] := by decide
    have hstaff : binaryValues staff "objectSid" = [[1, 1, 0, 0, 0, 0, 0, 5, 32, 0, 0, 0]] := by decide
    rw [exampleDirectory, List.forall_mem_cons, List.forall_mem_singleton]
    constructor
    · intro value
      simp [valueRule, firstBinary, halice, eq_comm]
    · intro value
      simp [valueRule, firstBinary, hstaff, eq_comm]
  nodup := by decide
  unique := by decide

theorem refresh_iff_alice :
    ∃ entry ∈ exampleDirectory.entries, ∃ identity : Identity, identity.IsOf entry ∧
      (refresh exampleLdap3 exampleConfig (fun _ => exampleServer) 1767225600 ⟨"S-1-5-11"⟩ =
          .ok [⟨"S-1-5-32"⟩] ↔
        Available exampleConfig (fun _ => exampleServer) ⟨"S-1-5-11"⟩ entry.dn ∧ ¬ Disabled entry ∧
          ¬ Expired 1767225600 entry ∧ [⟨"S-1-5-32"⟩] = identity.groups) := by
  obtain ⟨entry, hentry, hisOf, h⟩ := (refresh_iff exampleLdap3 exampleConfig escapes_ldapEscape
    (fun _ => exampleServer) (fun _ => exampleDirectory) (fun _ => serverOf_answers _ _ _) 1767225600
    ⟨"S-1-5-11"⟩ [⟨"S-1-5-32"⟩]).2 (fun _ => exampleServer) exampleDirectory "alice" "secret"
      { sid := ⟨"S-1-5-11"⟩, guid := 0, username := "alice", upn := none, displayName := "alice"
        email := none, groups := [⟨"S-1-5-32"⟩] }
      exampleDirectory_hasSids (fun _ => rfl) (fun _ => serverOf_answers _ _ _) (by decide +kernel) rfl
  exact ⟨entry, hentry, _, hisOf, h⟩

/-! ## The names of groups -/

/-- An entry of a group with one of the SIDs. -/
def GroupWith (content : Content) (sids : List Sid) (entry : SearchEntry) : Prop :=
  entry ∈ content.entries ∧ content.rule entry "objectCategory" [utf8 "group"] = some true ∧
    ∃ sid ∈ sids, content.rule entry "objectSid" [sid.toBytes] = some true

theorem groupOf_select {entry : SearchEntry} : groupOf (select ["cn", "objectSid"] entry) = groupOf entry := by
  rw [groupOf, groupOf, firstBinary_select (by decide), firstText_select (by decide)]

theorem mem_chunkNames {server : Server} {content : Content} {sids : List Sid} {groups : List Group}
    (hanswers : server.Answers config.baseDn content)
    (h : chunkNames lib config server sids = .ok groups) (group : Group) :
    group ∈ groups ↔ ∃ entry, GroupWith content sids entry ∧ groupOf entry = some group := by
  obtain ⟨_, -, h⟩ := Except.bind_eq_ok.1 h
  obtain ⟨⟨es, result⟩, hsearch, h⟩ := Except.bind_eq_ok.1 h
  obtain ⟨_, hrc, h⟩ := Except.bind_eq_ok.1 h
  rw [Except.refuse_eq_ok, not_not] at hrc
  obtain ⟨f, hf, hfound⟩ := hanswers.subtree (mapError_eq_ok.1 hsearch) hrc
  cases hf.symm.trans (read_groupsFilter sids)
  have hselect : groupOf ∘ select ["cn", "objectSid"] = groupOf := funext fun _ => groupOf_select
  rw [← Except.pure_eq_ok.1 h, hfound, List.filterMap_map, hselect]
  simp only [List.mem_filterMap, List.mem_map, found_all, mem_found, List.forall_mem_cons,
    Filter.holds_item, Filter.holds_any, exists_exists_and_eq_and, sidItem, GroupWith,
    List.not_mem_nil, false_imp_iff, implies_true, and_true, and_assoc]

theorem chunks_flatten {rounds : Nat} {sids : List Sid} (h : sids.length ≤ rounds) :
    (chunks rounds sids).flatten = sids := by
  induction rounds generalizing sids with
  | zero => rw [List.length_eq_zero_iff.1 (Nat.le_zero.1 h), chunks, List.flatten_nil]
  | succ rounds ih =>
    cases sids with
    | nil => rfl
    | cons sid sids =>
      rw [chunks, List.flatten_cons, ih, List.take_append_drop]
      · rw [List.length_drop]
        rw [List.length_cons] at h ⊢
        omega
      · rintro ⟨⟩

theorem mem_chunks {sids chunk : List Sid} {sid : Sid} (hchunk : chunk ∈ chunks sids.length sids)
    (h : sid ∈ chunk) : sid ∈ sids := by
  rw [← chunks_flatten (Nat.le_refl sids.length)]
  exact List.mem_flatten_of_mem hchunk h

theorem length_of_mem_chunks {rounds : Nat} {sids chunk : List Sid} (h : chunk ∈ chunks rounds sids) :
    chunk.length ≤ 100 := by
  induction rounds generalizing sids with
  | zero => cases h
  | succ rounds ih =>
    cases sids with
    | nil => cases h
    | cons sid sids =>
      rcases List.mem_cons.1 h with rfl | h
      · exact List.length_take_le _ _
      · exact ih h

/-- The search for a chunk is answered. -/
def ChunkAnswered (config : LdapConfig) (server : Server) (sids : List Sid) : Prop :=
  server.Accepts config.bindDn config.bindPassword ∧
    server.Answered config.baseDn .subtree (groupsFilter sids) ["cn", "objectSid"]

theorem chunkNames_isOk {server : Server} {sids : List Sid} :
    (∃ groups, chunkNames lib config server sids = .ok groups) ↔
      ChunkAnswered config server sids := by
  constructor
  · rintro ⟨groups, h⟩
    obtain ⟨_, hservice, h⟩ := Except.bind_eq_ok.1 h
    obtain ⟨⟨es, result⟩, hsearch, h⟩ := Except.bind_eq_ok.1 h
    obtain ⟨_, hrc, -⟩ := Except.bind_eq_ok.1 h
    rw [Except.refuse_eq_ok, not_not] at hrc
    exact ⟨service_eq_ok.1 hservice, es, result, mapError_eq_ok.1 hsearch, hrc⟩
  · rintro ⟨hservice, es, result, hsearch, hrc⟩
    refine ⟨es.filterMap groupOf, Except.bind_eq_ok.2 ⟨(), service_eq_ok.2 hservice, ?_⟩⟩
    refine Except.bind_eq_ok.2 ⟨_, mapError_eq_ok.2 hsearch, ?_⟩
    exact Except.bind_eq_ok.2 ⟨(), Except.refuse_eq_ok.2 (not_not.2 hrc), rfl⟩

theorem groupNames_eq_ok {servers : Nat → Server} {sids : List Sid} {groups : List Group} :
    groupNames lib config servers sids = .ok groups ↔
      ∃ parts, (chunks sids.length sids).zipIdx.mapM
        (fun e => chunkNames lib config (servers e.2) e.1) = .ok parts ∧ parts.flatten = groups := by
  rw [groupNames]
  cases (chunks sids.length sids).zipIdx.mapM (fun e => chunkNames lib config (servers e.2) e.1) with
  | error e =>
    constructor
    · intro h
      cases h
    · rintro ⟨parts, h, -⟩
      cases h
  | ok parts =>
    constructor
    · intro h
      exact ⟨parts, rfl, Except.ok.inj h⟩
    · rintro ⟨parts', h, rfl⟩
      cases h
      rfl

/-- The question is answered exactly when each of its searches is. -/
theorem groupNames_isOk {servers : Nat → Server} {sids : List Sid} :
    (∃ groups, groupNames lib config servers sids = .ok groups) ↔
      ∀ i chunk, (chunks sids.length sids)[i]? = some chunk →
        ChunkAnswered config (servers i) chunk := by
  have hparts : (∃ groups, groupNames lib config servers sids = .ok groups) ↔
      ∃ parts, (chunks sids.length sids).zipIdx.mapM
        (fun e => chunkNames lib config (servers e.2) e.1) = .ok parts := by
    constructor
    · rintro ⟨groups, h⟩
      obtain ⟨parts, hparts, -⟩ := groupNames_eq_ok.1 h
      exact ⟨parts, hparts⟩
    · rintro ⟨parts, hparts⟩
      exact ⟨parts.flatten, groupNames_eq_ok.2 ⟨parts, hparts, rfl⟩⟩
  rw [hparts, Except.exists_mapM_eq_ok]
  constructor
  · intro h i chunk hchunk
    exact chunkNames_isOk.1 (h (chunk, i) (List.mem_zipIdx_iff_getElem?.2 hchunk))
  · rintro h ⟨chunk, i⟩ hchunk
    exact chunkNames_isOk.2 (h i chunk (List.mem_zipIdx_iff_getElem?.1 hchunk))

/-- **The names of groups.** The searches for at most a hundred SIDs each, which are those asked for, are all
answered or the whole question fails. Then they give the names that one search for all of them gives: of every
group with one of the SIDs, and of no other. A group that the directory has throughout is among them, and one
that it never has is not. -/
theorem groupNames_spec (lib : Ldap3) (config : LdapConfig) (servers : Nat → Server) (content : Nat → Content)
    (hanswers : ∀ i, (servers i).Answers config.baseDn (content i)) (sids : List Sid) :
    (∀ chunk ∈ chunks sids.length sids, chunk.length ≤ 100) ∧ (chunks sids.length sids).flatten = sids ∧
    ((∃ groups, groupNames lib config servers sids = .ok groups) ↔
      ∀ i chunk, (chunks sids.length sids)[i]? = some chunk →
        ChunkAnswered config (servers i) chunk) ∧
    ∀ groups, groupNames lib config servers sids = .ok groups → ∀ group,
      (group ∈ groups → ∃ i entry, GroupWith (content i) sids entry ∧ groupOf entry = some group) ∧
      ((∃ sid ∈ sids, ∀ i, ∃ entry, GroupWith (content i) [sid] entry ∧ groupOf entry = some group) →
        group ∈ groups) := by
  refine ⟨fun chunk hchunk => length_of_mem_chunks hchunk, chunks_flatten (Nat.le_refl _),
    groupNames_isOk, fun groups h group => ?_⟩
  obtain ⟨parts, hparts, rfl⟩ := groupNames_eq_ok.1 h
  rw [List.mem_flatten]
  constructor
  · rintro ⟨part, hpart, hgroup⟩
    obtain ⟨⟨chunk, i⟩, hchunk, hnames⟩ := (Except.mem_mapM hparts).1 hpart
    obtain ⟨entry, ⟨hentry, hcategory, sid, hsid, hrule⟩, hgroupOf⟩ :=
      (mem_chunkNames (hanswers i) hnames group).1 hgroup
    have hmem : chunk ∈ chunks sids.length sids :=
      List.mem_of_getElem? (List.mem_zipIdx_iff_getElem?.1 hchunk)
    exact ⟨i, entry, ⟨hentry, hcategory, sid, mem_chunks hmem hsid, hrule⟩, hgroupOf⟩
  · rintro ⟨sid, hsid, hentries⟩
    rw [← chunks_flatten (Nat.le_refl sids.length)] at hsid
    obtain ⟨chunk, hchunk, hsid⟩ := List.mem_flatten.1 hsid
    obtain ⟨i, hi⟩ := List.getElem?_of_mem hchunk
    have hzip : (chunk, i) ∈ (chunks sids.length sids).zipIdx := List.mem_zipIdx_iff_getElem?.2 hi
    obtain ⟨part, hpart, hnames⟩ := Except.exists_of_mem_mapM hparts hzip
    obtain ⟨entry, ⟨hentry, hcategory, sid', hsid', hrule⟩, hgroupOf⟩ := hentries i
    rw [List.mem_singleton.1 hsid'] at hrule
    exact ⟨part, hpart, (mem_chunkNames (hanswers i) hnames group).2
      ⟨entry, ⟨hentry, hcategory, sid, hsid, hrule⟩, hgroupOf⟩⟩

/-- A hundred and twenty groups, of which the directory has the last. -/
def manySids : List Sid := (List.range 120).map fun n => ⟨"S-1-5-" ++ (151 - n).repr⟩

theorem chunkAnswered_serverOf (content : Content) (sids : List Sid) :
    ChunkAnswered exampleConfig (serverOf content [("CN=remotehub", "service")]) sids := by
  refine ⟨⟨rfl, ⟨0, ""⟩, rfl, rfl⟩, (content.found [.all [.item "objectCategory" [utf8 "group"],
    .any (sids.map sidItem)]]).map (select ["cn", "objectSid"]), ⟨0, ""⟩, ?_, rfl⟩
  simp only [serverOf, read_groupsFilter]

theorem groupNames_spec_staff :
    (chunks manySids.length manySids).map List.length = [100, 20] ∧
      ∃ groups, groupNames exampleLdap3 exampleConfig
          (fun _ => serverOf exampleDirectory [("CN=remotehub", "service")]) manySids = .ok groups ∧
        ⟨⟨"S-1-5-32"⟩, "Staff"⟩ ∈ groups := by
  obtain ⟨-, -, hall, hgroups⟩ := groupNames_spec exampleLdap3 exampleConfig
    (fun _ => serverOf exampleDirectory [("CN=remotehub", "service")]) (fun _ => exampleDirectory)
    (fun _ => serverOf_answers _ _ _) manySids
  obtain ⟨groups, h⟩ := hall.2 fun _ chunk _ => chunkAnswered_serverOf exampleDirectory chunk
  have hstaff : GroupWith exampleDirectory [⟨"S-1-5-32"⟩] staff :=
    ⟨by decide, by decide, ⟨"S-1-5-32"⟩, List.mem_singleton_self _, by decide⟩
  exact ⟨by decide, groups, h, (hgroups groups h _).2
    ⟨⟨"S-1-5-32"⟩, by decide, fun _ => ⟨staff, hstaff, by decide⟩⟩⟩

end Directory.LdapDirectory
