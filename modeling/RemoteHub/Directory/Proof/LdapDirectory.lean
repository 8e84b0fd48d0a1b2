import Mathlib.Data.List.Sort
import RemoteHub.Directory.LdapDirectory
import RemoteHub.Directory.Proof.Sid
import RemoteHub.Lib.LdapFilter

/-!
# Who signs in

`Content` is what a directory holds and which of its entries a filter's items match; a server answers a
search with the entries for which the filter, as it reads it, is true (`Server.Answers`). Whatever name is
typed, and whatever filter is configured, the filter that is sent is read as the conjunction it is meant to be,
or not at all (`read_userFilter`). From that the exchanges of a sign-in say who signs in (`authenticate_iff`).
-/

namespace Directory.LdapDirectory

open LdapFilter Text

/-! ## What a server answers -/

/-- A directory: the entries below the base, what can be read of the entry with a name, and the matching
rules of the items. -/
structure Content where
  entries : List SearchEntry
  object : String → Option SearchEntry
  rule : SearchEntry → String → List Bytes → Option Bool

/-- An entry with the attributes asked for. -/
def select (attributes : List String) (entry : SearchEntry) : SearchEntry :=
  { entry with
    attrs := entry.attrs.filter fun e => attributes.any (eqIgnoreAsciiCase e.1 ·)
    binAttrs := entry.binAttrs.filter fun e => attributes.any (eqIgnoreAsciiCase e.1 ·) }

/-- The entries below the base that a filter's parts let through. -/
def Content.found (content : Content) (filters : List Filter) : List SearchEntry :=
  content.entries.filter fun e => ∀ f ∈ filters, f.Holds (content.rule e)

/-- The server answers searches from the directory `content`. -/
structure Server.Answers (server : Server) (base : String) (content : Content) : Prop where
  subtree {filter attributes es result} :
    server.search base .subtree filter attributes = .ok (es, result) → result.rc = 0 →
      ∃ f, read filter = some [f] ∧ es = (content.found [f]).map (select attributes)
  object {dn attributes es result} :
    server.search dn .base "(objectClass=*)" attributes = .ok (es, result) → result.rc = 0 →
      es = (content.object dn).toList.map (select attributes)

/-- The server answers this search without an error. -/
def Server.Answered (server : Server) (base : String) (scope : Scope) (filter : String)
    (attributes : List String) : Prop :=
  ∃ es result, server.search base scope filter attributes = .ok (es, result) ∧ result.rc = 0

/-- The server can be reached and takes this password. -/
def Server.Accepts (server : Server) (dn password : String) : Prop :=
  server.connect = .ok () ∧ ∃ result, server.bind dn password = .ok result ∧ result.rc = 0

/-! ## Attributes asked for -/

section
variable {α : Type} {attributes : List String} {name : String} {entry : SearchEntry}

theorem lookup_filter {map : List (String × List α)} (h : name ∈ attributes) :
    lookup (map.filter fun e => attributes.any (eqIgnoreAsciiCase e.1 ·)) name = lookup map name := by
  rw [lookup, lookup, List.find?_filter]
  congr 2
  funext e
  rw [Bool.eq_iff_iff]
  constructor
  · intro he
    exact (of_decide_eq_true he).2
  · intro he
    have : attributes.any (eqIgnoreAsciiCase e.1 ·) = true := List.any_eq_true.2 ⟨name, h, he⟩
    simp [this, he]

theorem binaryValues_select (h : name ∈ attributes) :
    binaryValues (select attributes entry) name = binaryValues entry name := by
  rw [binaryValues, binaryValues, select, lookup_filter h, lookup_filter h]

theorem firstBinary_select (h : name ∈ attributes) :
    firstBinary (select attributes entry) name = firstBinary entry name := by
  rw [firstBinary, firstBinary, binaryValues_select h]

theorem firstText_select (h : name ∈ attributes) :
    firstText (select attributes entry) name = firstText entry name := by
  rw [firstText, firstText, select, lookup_filter h]

end

/-! ## The filters -/

/-- A person who is a user. -/
def personUser : List Filter :=
  [.item "objectCategory" [utf8 "person"], .item "objectClass" [utf8 "user"]]

theorem read_personUser : read "(objectCategory=person)(objectClass=user)" = some personUser := by
  decide +kernel

theorem isName_attributeName (account : Account) : IsName account.attributeName := by
  have hsam : IsName "sAMAccountName" := by decide
  have hupn : IsName "userPrincipalName" := by decide
  cases account
  · exact hsam
  · exact hupn

/-- The account that is meant. -/
def Account.item (account : Account) : Filter := .item account.attributeName [utf8 account.name]

variable {lib : Ldap3} {config : LdapConfig}

/-- Whatever the configured filter is, a search for a user by an item is the conjunction of the item with what
it says. -/
theorem read_user {text : String} {item f : Filter} (h : read text = some [item]) :
    read ("(&(objectCategory=person)(objectClass=user)" ++ text ++ config.userFilter.getD "" ++ ")") =
        some [f] ↔
      ∃ extra, read (config.userFilter.getD "") = some extra ∧ f = .all (personUser ++ item :: extra) := by
  have hopen : "(&(objectCategory=person)(objectClass=user)" =
      "(&" ++ "(objectCategory=person)(objectClass=user)" := by decide
  have hassoc : ∀ a b c d e : String, a ++ b ++ c ++ d ++ e = a ++ (b ++ c) ++ d ++ e := by
    intro a b c d e
    simp only [String.append_assoc]
  rw [hopen, hassoc, read_all_iff (read_append read_personUser h)]
  simp only [List.append_assoc, List.singleton_append]

theorem read_userFilter {account : Account} {f : Filter} (hescape : Escapes lib.escape) :
    read (userFilter lib account config.userFilter) = some [f] ↔
      ∃ extra, read (config.userFilter.getD "") = some extra ∧
        f = .all (personUser ++ account.item :: extra) :=
  read_user (read_item (isName_attributeName account) (hescape.isPlain _) (hescape.mapM_pieces _))

/-! ### SIDs -/

theorem escapeBinary_eq (bytes : Bytes) : escapeBinary bytes = .ofList (bytes.flatMap escapeByte) := by
  have hbyte : ∀ b : UInt8, '\\' :: (Digits.digits 16 2 b.toNat).map Nat.digitChar = escapeByte b := by
    intro b
    have hlt := b.toNat_lt
    have hmod : b.toNat / 16 % 16 = b.toNat / 16 := Nat.mod_eq_of_lt (by omega)
    simp [Digits.digits, escapeByte, hmod]
  simp only [escapeBinary, hbyte]

/-- The item of a SID. -/
def sidItem (sid : Sid) : Filter := .item "objectSid" [sid.toBytes]

theorem read_sidItem (sid : Sid) :
    read ("(objectSid=" ++ escapeBinary sid.toBytes ++ ")") = some [sidItem sid] := by
  have hopen : "(objectSid=" = "(" ++ "objectSid" ++ "=" := by decide
  have hname : IsName "objectSid" := by decide
  refine (congrArg (fun text => read (text ++ escapeBinary sid.toBytes ++ ")")) hopen).trans ?_
  rw [escapeBinary_eq]
  exact read_item hname (isPlain_escapeBytes _) (mapM_pieces_escapeBytes _)

theorem read_refreshFilter {sid : Sid} {f : Filter} :
    read (refreshFilter sid config.userFilter) = some [f] ↔
      ∃ extra, read (config.userFilter.getD "") = some extra ∧
        f = .all (personUser ++ sidItem sid :: extra) := by
  have hopen : "(&(objectCategory=person)(objectClass=user)(objectSid=" =
      "(&(objectCategory=person)(objectClass=user)" ++ "(objectSid=" := by decide
  have hassoc : ∀ a b c d e f : String, a ++ b ++ c ++ d ++ e ++ f = a ++ (b ++ c ++ d) ++ e ++ f := by
    intro a b c d e f
    simp only [String.append_assoc]
  have htext := (congrArg (fun text => text ++ escapeBinary sid.toBytes ++ ")" ++
    config.userFilter.getD "" ++ ")") hopen).trans (hassoc ..)
  rw [← read_user (read_sidItem sid)]
  exact iff_of_eq (congrArg (read · = some [f]) htext)

theorem read_groupsFilter (sids : List Sid) :
    read (groupsFilter sids) =
      some [.all [.item "objectCategory" [utf8 "group"], .any (sids.map sidItem)]] := by
  have hgroup : read "(objectCategory=group)" = some [.item "objectCategory" [utf8 "group"]] := by
    decide +kernel
  have hsids := read_any (read_flatMap (l := sids) fun sid _ => read_sidItem sid)
  have hopen : "(&(objectCategory=group)(|" = "(&" ++ "(objectCategory=group)" ++ "(|" := by decide
  have hclose : "))" = ")" ++ ")" := by decide
  have hassoc : ∀ a b c d e f : String, a ++ b ++ c ++ d ++ (e ++ f) = a ++ (b ++ (c ++ d ++ e)) ++ f := by
    intro a b c d e f
    simp only [String.append_assoc]
  have htext := (congrArg₂ (fun text close => text ++
    String.join (sids.map fun sid => "(objectSid=" ++ escapeBinary sid.toBytes ++ ")") ++ close)
    hopen hclose).trans (hassoc ..)
  exact (congrArg read htext).trans (read_all (read_append hgroup hsids))

/-! ## Exchanges -/

section
variable {ε ε' α β : Type}

theorem mapError_eq_ok {x : Except ε α} {f : ε → ε'} {a : α} : x.mapError f = .ok a ↔ x = .ok a := by
  cases x <;> simp [Except.mapError]

theorem exists_mapM {g : α → Except ε β} {xs : List α} (h : ∀ x ∈ xs, ∃ y, g x = .ok y) :
    ∃ ys, xs.mapM g = .ok ys := by
  induction xs with
  | nil => exact ⟨[], rfl⟩
  | cons x xs ih =>
    obtain ⟨y, hy⟩ := h x List.mem_cons_self
    obtain ⟨ys, hys⟩ := ih fun z hz => h z (List.mem_cons_of_mem _ hz)
    exact ⟨y :: ys, by rw [List.mapM_cons, hy, hys]; rfl⟩

end

section
variable {server : Server} {content : Content} {base : String}

theorem found_all {filters : List Filter} : content.found [.all filters] = content.found filters := by
  simp [Content.found]

theorem mem_found {filters : List Filter} {e : SearchEntry} :
    e ∈ content.found filters ↔ e ∈ content.entries ∧ ∀ f ∈ filters, f.Holds (content.rule e) := by
  simp [Content.found]

theorem success_eq_ok {answer : List SearchEntry × LdapResult} {es : List SearchEntry} :
    success lib answer = .ok es ↔ answer.2.rc = 0 ∧ answer.1 = es := by
  unfold success
  by_cases h : answer.2.rc = 0 <;> simp [h]

theorem connect_eq_ok {u : Unit} : connect server = .ok u ↔ server.connect = .ok () := mapError_eq_ok

theorem service_eq_ok {u : Unit} :
    service lib config server = .ok u ↔ server.Accepts config.bindDn config.bindPassword := by
  simp only [service, Except.bind_eq_ok, connect_eq_ok, mapError_eq_ok, Except.refuse_eq_ok, not_not,
    Server.Accepts]
  constructor
  · rintro ⟨-, hconnect, result, hresult, hrc⟩
    exact ⟨hconnect, result, hresult, hrc⟩
  · rintro ⟨hconnect, result, hresult, hrc⟩
    exact ⟨(), hconnect, result, hresult, hrc⟩

theorem verifyPassword_eq_ok {dn password : String} {u : Unit} :
    verifyPassword server dn password = .ok u ↔ server.Accepts dn password := by
  have hcode (result : LdapResult) :
      (if result.rc = 0 then Except.ok ()
        else if result.rc = invalidCredentialsCode then .error (bindFailure result.text)
        else .error (.directory ("bind failed with code " ++ result.rc.repr ++ ": " ++ result.text))) =
          .ok u ↔ result.rc = 0 := by
    split_ifs with h h' <;> simp [h]
  simp only [verifyPassword, Except.bind_eq_ok, connect_eq_ok, mapError_eq_ok, hcode, Server.Accepts]
  constructor
  · rintro ⟨-, hconnect, result, hresult, hrc⟩
    exact ⟨hconnect, result, hresult, hrc⟩
  · rintro ⟨hconnect, result, hresult, hrc⟩
    exact ⟨(), hconnect, result, hresult, hrc⟩

theorem findUser_cases {account : Account} {entry : SearchEntry} :
    findUser lib config server account = .ok entry ↔ ∃ result,
      server.search config.baseDn .subtree (userFilter lib account config.userFilter) userAttributes =
        .ok ([entry], result) ∧ result.rc = 0 := by
  constructor
  · intro h
    obtain ⟨⟨es, result⟩, hsearch, h⟩ := Except.bind_eq_ok.1 h
    obtain ⟨es', hsuccess, h⟩ := Except.bind_eq_ok.1 h
    obtain ⟨hrc, rfl⟩ := success_eq_ok.1 hsuccess
    split at h
    · rename_i hone
      cases h
      exact ⟨result, hone ▸ mapError_eq_ok.1 hsearch, hrc⟩
    · cases h
    · cases h
  · rintro ⟨result, hsearch, hrc⟩
    refine Except.bind_eq_ok.2 ⟨_, mapError_eq_ok.2 hsearch, ?_⟩
    exact Except.bind_eq_ok.2 ⟨_, success_eq_ok.2 ⟨hrc, rfl⟩, rfl⟩

/-- What the search for a user comes to: the configured filter is one, and one entry is let through. -/
theorem findUser_eq_ok {account : Account} {entry : SearchEntry} (hescape : Escapes lib.escape)
    (hanswers : server.Answers config.baseDn content) :
    findUser lib config server account = .ok entry ↔
      server.Answered config.baseDn .subtree (userFilter lib account config.userFilter) userAttributes ∧
      ∃ extra e, read (config.userFilter.getD "") = some extra ∧
        content.found (personUser ++ account.item :: extra) = [e] ∧ entry = select userAttributes e := by
  rw [findUser_cases]
  constructor
  · rintro ⟨result, hsearch, hrc⟩
    obtain ⟨f, hf, hfound⟩ := hanswers.subtree hsearch hrc
    obtain ⟨extra, hextra, rfl⟩ := (read_userFilter hescape).1 hf
    rw [found_all, eq_comm, List.map_eq_singleton_iff] at hfound
    obtain ⟨e, he, hentry⟩ := hfound
    exact ⟨⟨_, _, hsearch, hrc⟩, extra, e, hextra, he, hentry.symm⟩
  · rintro ⟨⟨es, result, hsearch, hrc⟩, extra, e, hextra, he, rfl⟩
    obtain ⟨f, hf, hfound⟩ := hanswers.subtree hsearch hrc
    obtain ⟨extra', hextra', rfl⟩ := (read_userFilter hescape).1 hf
    cases hextra.symm.trans hextra'
    rw [found_all, he] at hfound
    cases hfound
    exact ⟨result, hsearch, hrc⟩

/-- The groups in `tokenGroups`, each once and in order. -/
def Groups (object : Option SearchEntry) (groups : List Sid) : Prop :=
  let values := object.toList.flatMap (binaryValues · "tokenGroups")
  (∀ value ∈ values, (Sid.fromBytes value).isSome = true) ∧ groups.Pairwise (·.text < ·.text) ∧
    ∀ sid, sid ∈ groups ↔ ∃ value ∈ values, Sid.fromBytes value = some sid

theorem mem_destutter {α : Type} [DecidableEq α] {a : α} {l : List α} :
    a ∈ l.destutter (· ≠ ·) ↔ a ∈ l := by
  have hfrom (b : α) (l : List α) : a ∈ l.destutter' (· ≠ ·) b ↔ a = b ∨ a ∈ l := by
    induction l generalizing b with
    | nil => simp
    | cons c l ih =>
      by_cases h : b = c
      · rw [List.destutter'_cons_neg _ (not_not.2 h), ih, List.mem_cons, h]
        tauto
      · rw [List.destutter'_cons_pos _ h, List.mem_cons, ih, List.mem_cons]
  cases l with
  | nil => simp
  | cons b l => rw [List.destutter_cons', hfrom, List.mem_cons]

/-- In order and without neighbours alike, each once. -/
theorem pairwise_lt {l : List Sid} (hle : l.Pairwise (·.text ≤ ·.text)) (hne : l.IsChain (· ≠ ·)) :
    l.Pairwise (·.text < ·.text) := by
  induction l with
  | nil => exact .nil
  | cons a l ih =>
    obtain ⟨ha, hle⟩ := List.pairwise_cons.1 hle
    refine List.pairwise_cons.2 ⟨fun b hb => ?_, ih hle hne.tail⟩
    cases l with
    | nil => cases hb
    | cons c l =>
      have hac : a.text < c.text :=
        lt_of_le_of_ne (ha c List.mem_cons_self) fun h => hne.rel (congrArg Sid.mk h)
      rcases List.mem_cons.1 hb with rfl | hb
      · exact hac
      · exact lt_of_lt_of_le hac ((List.pairwise_cons.1 hle).1 b hb)

theorem sortDedup_spec (sids : List Sid) :
    (sortDedup sids).Pairwise (·.text < ·.text) ∧ ∀ sid, sid ∈ sortDedup sids ↔ sid ∈ sids := by
  refine ⟨?_, fun sid => by rw [sortDedup, mem_destutter, List.mem_mergeSort]⟩
  have hle : (sids.mergeSort fun a b => decide (a.text ≤ b.text)).Pairwise (·.text ≤ ·.text) := by
    refine (List.pairwise_mergeSort ?_ ?_ sids).imp of_decide_eq_true
    · intro a b c hab hbc
      exact decide_eq_true (le_trans (of_decide_eq_true hab) (of_decide_eq_true hbc))
    · intro a b
      simpa using le_total a.text b.text
  exact pairwise_lt (hle.sublist (List.destutter_sublist (· ≠ ·) _)) (List.isChain_destutter (· ≠ ·) _)

theorem tokenGroups_eq_ok {dn : String} {groups : List Sid} (hanswers : server.Answers base content) :
    tokenGroups lib server dn = .ok groups ↔
      server.Answered dn .base "(objectClass=*)" ["tokenGroups"] ∧ Groups (content.object dn) groups := by
  have hvalues (object : Option SearchEntry) :
      (object.toList.map (select ["tokenGroups"])).flatMap (binaryValues · "tokenGroups") =
        object.toList.flatMap (binaryValues · "tokenGroups") := by
    rw [List.flatMap_map]
    exact List.flatMap_congr fun e _ => binaryValues_select List.mem_cons_self
  have hread (value : Bytes) (sid : Sid) : ((Sid.fromBytes value).elim
      (.error (.directory "invalid SID in tokenGroups")) .ok : Except AuthError Sid) = .ok sid ↔
        Sid.fromBytes value = some sid := Except.elim_eq_ok
  constructor
  · intro h
    obtain ⟨⟨es, result⟩, hsearch, h⟩ := Except.bind_eq_ok.1 h
    obtain ⟨es', hsuccess, h⟩ := Except.bind_eq_ok.1 h
    obtain ⟨hrc, rfl⟩ := success_eq_ok.1 hsuccess
    obtain ⟨sids, hsids, h⟩ := Except.bind_eq_ok.1 h
    have hsearch := mapError_eq_ok.1 hsearch
    obtain ⟨hsorted, hmem⟩ := sortDedup_spec sids
    rw [hanswers.object hsearch hrc, hvalues] at hsids
    rw [← Except.pure_eq_ok.1 h]
    refine ⟨⟨_, _, hsearch, hrc⟩, fun value hvalue => ?_, hsorted, fun sid => ?_⟩
    · obtain ⟨sid, -, hsid⟩ := Except.exists_of_mem_mapM hsids hvalue
      rw [(hread value sid).1 hsid]
      rfl
    · rw [hmem, Except.mem_mapM hsids]
      simp only [hread]
  · rintro ⟨⟨es, result, hsearch, hrc⟩, hvalid, hsorted, hmem⟩
    obtain ⟨sids, hsids⟩ := exists_mapM (g := fun value => ((Sid.fromBytes value).elim
      (.error (.directory "invalid SID in tokenGroups")) .ok : Except AuthError Sid)) fun value hvalue =>
        (Option.isSome_iff_exists.1 (hvalid value hvalue)).imp fun sid h => (hread value sid).2 h
    have hes := hanswers.object hsearch hrc
    obtain ⟨hsorted', hmem'⟩ := sortDedup_spec sids
    have hgroups : sortDedup sids = groups := by
      have : Std.Irrefl fun a b : Sid => a.text < b.text := ⟨fun a => lt_irrefl a.text⟩
      have : Std.Antisymm fun a b : Sid => a.text < b.text := ⟨fun a b h h' => absurd h (lt_asymm h')⟩
      refine List.Pairwise.eq_of_mem_iff hsorted' hsorted fun sid => ?_
      rw [hmem', Except.mem_mapM hsids, hmem]
      simp only [hread]
    refine Except.bind_eq_ok.2 ⟨_, mapError_eq_ok.2 hsearch, ?_⟩
    refine Except.bind_eq_ok.2 ⟨es, success_eq_ok.2 ⟨hrc, rfl⟩, ?_⟩
    exact Except.bind_eq_ok.2 ⟨sids, by rw [hes, hvalues]; exact hsids, by rw [hgroups]; rfl⟩

end

/-! ## Signing in -/

/-- The identity of an entry: what its attributes say. -/
def Identity.IsOf (identity : Identity) (entry : SearchEntry) : Prop :=
  (firstBinary entry "objectSid").bind Sid.fromBytes = some identity.sid ∧
    (firstBinary entry "objectGUID").bind guidFromBytes = some identity.guid ∧
    firstText entry "sAMAccountName" = some identity.username ∧
    identity.displayName = (firstText entry "displayName").getD identity.username ∧
    identity.upn = firstText entry "userPrincipalName" ∧ identity.email = firstText entry "mail"

theorem isOf_select {identity : Identity} {entry : SearchEntry} :
    identity.IsOf (select userAttributes entry) ↔ identity.IsOf entry := by
  simp only [Identity.IsOf]
  rw [firstBinary_select (by decide), firstBinary_select (by decide), firstText_select (by decide),
    firstText_select (by decide), firstText_select (by decide), firstText_select (by decide)]

/-- Who signs in: the only user that the configured filter lets through and whose name was typed, with the
password of that very entry. -/
def SignsIn (lib : Ldap3) (config : LdapConfig) (servers : SignInStep → Server)
    (content : SignInStep → Content) (username password : String) (identity : Identity) : Prop :=
  ∃ account extra entry, Account.parse username = some account ∧ password ≠ "" ∧
    (servers .service).Accepts config.bindDn config.bindPassword ∧
    read (config.userFilter.getD "") = some extra ∧
    (servers .find).Answered config.baseDn .subtree (userFilter lib account config.userFilter)
      userAttributes ∧
    (content .find).found (personUser ++ account.item :: extra) = [entry] ∧
    (servers .verify).Accepts entry.dn password ∧
    (servers .groups).Answered entry.dn .base "(objectClass=*)" ["tokenGroups"] ∧
    Groups ((content .groups).object entry.dn) identity.groups ∧ identity.IsOf entry

/-- **Who signs in.** Whatever is typed, whatever filter is configured and however the directory changes in
between. -/
theorem authenticate_iff (hescape : Escapes lib.escape) (servers : SignInStep → Server)
    (content : SignInStep → Content)
    (hanswers : ∀ step, (servers step).Answers config.baseDn (content step))
    (username password : String) (identity : Identity) :
    authenticate lib config servers username password = .ok identity ↔
      SignsIn lib config servers content username password identity := by
  constructor
  · intro h
    obtain ⟨account, haccount, h⟩ := Except.bind_eq_ok.1 h
    obtain ⟨_, hpassword, h⟩ := Except.bind_eq_ok.1 h
    obtain ⟨_, hservice, h⟩ := Except.bind_eq_ok.1 h
    obtain ⟨found, hfind, h⟩ := Except.bind_eq_ok.1 h
    obtain ⟨_, hverify, h⟩ := Except.bind_eq_ok.1 h
    obtain ⟨groups, hgroups, h⟩ := Except.bind_eq_ok.1 h
    obtain ⟨sid, hsid, h⟩ := Except.bind_eq_ok.1 h
    obtain ⟨guid, hguid, h⟩ := Except.bind_eq_ok.1 h
    obtain ⟨name, hname, h⟩ := Except.bind_eq_ok.1 h
    obtain ⟨hanswered, extra, entry, hextra, hfound, rfl⟩ :=
      (findUser_eq_ok hescape (hanswers .find)).1 hfind
    obtain ⟨hbase, hgroups⟩ := (tokenGroups_eq_ok (hanswers .groups)).1 hgroups
    cases Except.pure_eq_ok.1 h
    exact ⟨account, extra, entry, Except.elim_eq_ok.1 haccount, Except.refuse_eq_ok.1 hpassword,
      service_eq_ok.1 hservice, hextra, hanswered, hfound, verifyPassword_eq_ok.1 hverify, hbase, hgroups,
      isOf_select.1 ⟨Except.elim_eq_ok.1 hsid, Except.elim_eq_ok.1 hguid, Except.elim_eq_ok.1 hname, rfl,
        rfl, rfl⟩⟩
  · rintro ⟨account, extra, entry, haccount, hpassword, hservice, hextra, hanswered, hfound, hverify,
      hbase, hgroups, hisOf⟩
    obtain ⟨hsid, hguid, hname, hdisplay, hupn, hemail⟩ := isOf_select.2 hisOf
    refine Except.bind_eq_ok.2 ⟨account, Except.elim_eq_ok.2 haccount, ?_⟩
    refine Except.bind_eq_ok.2 ⟨(), Except.refuse_eq_ok.2 hpassword, ?_⟩
    refine Except.bind_eq_ok.2 ⟨(), service_eq_ok.2 hservice, ?_⟩
    refine Except.bind_eq_ok.2 ⟨_, (findUser_eq_ok hescape (hanswers .find)).2
      ⟨hanswered, extra, entry, hextra, hfound, rfl⟩, ?_⟩
    refine Except.bind_eq_ok.2 ⟨(), verifyPassword_eq_ok.2 hverify, ?_⟩
    refine Except.bind_eq_ok.2 ⟨_, (tokenGroups_eq_ok (hanswers .groups)).2 ⟨hbase, hgroups⟩, ?_⟩
    refine Except.bind_eq_ok.2 ⟨_, Except.elim_eq_ok.2 hsid, ?_⟩
    refine Except.bind_eq_ok.2 ⟨_, Except.elim_eq_ok.2 hguid, ?_⟩
    refine Except.bind_eq_ok.2 ⟨_, Except.elim_eq_ok.2 hname, ?_⟩
    rw [← hdisplay, ← hupn, ← hemail]
    rfl

/-! ### A directory -/

/-- The characters that `ldap_escape` writes as a byte. -/
def ldapEscape (s : String) : String :=
  .ofList (s.toList.flatMap fun c =>
    if c ∈ ['\\', '*', '(', ')', '\x00'] then escapeByte (.ofNat c.toNat) else [c])

theorem utf8_ofList_cons (c : Char) (l : List Char) :
    utf8 (.ofList (c :: l)) = utf8 (.singleton c) ++ utf8 (.ofList l) := by
  rw [← utf8_append]
  congr 1
  rw [← String.toList_inj]
  simp

theorem escapes_ldapEscape : Escapes ldapEscape where
  plain s := by
    intro c hc
    rw [ldapEscape, String.toList_ofList] at hc
    obtain ⟨d, -, hc⟩ := List.mem_flatMap.1 hc
    split at hc
    · have hmem : c ∈ ([.ofNat d.toNat] : Bytes).flatMap escapeByte := by simpa using hc
      exact mem_escapeBytes hmem
    · rename_i hd
      rw [List.mem_singleton.1 hc]
      exact ⟨fun h => hd (by simp [h]), fun h => hd (by simp [h]), fun h => hd (by simp [h])⟩
  unescape s := by
    have hall (l : List Char) : unescape (l.flatMap fun c =>
        if c ∈ ['\\', '*', '(', ')', '\x00'] then escapeByte (.ofNat c.toNat) else [c]) =
          some (utf8 (.ofList l)) := by
      induction l with
      | nil => rfl
      | cons c l ih =>
        rw [List.flatMap_cons, utf8_ofList_cons]
        split
        · rename_i hc
          have hbyte : utf8 (.singleton c) = [.ofNat c.toNat] := by
            have hfive : ∀ d ∈ ['\\', '*', '(', ')', '\x00'], utf8 (.singleton d) = [.ofNat d.toNat] := by
              decide
            exact hfive c hc
          rw [unescape_escapeByte, ih, hbyte]
          rfl
        · rename_i hc
          rw [List.singleton_append, unescape_cons fun h => hc (by simp [h]), ih]
          rfl
    rw [ldapEscape, String.toList_ofList, hall, String.ofList_toList]

/-- Items match the values of attributes. -/
def valueRule (entry : SearchEntry) (name : String) : List Bytes → Option Bool
  | [value] => some (decide (value ∈ binaryValues entry name))
  | _ => some true

/-- A server that knows these entries and passwords. -/
def serverOf (content : Content) (passwords : List (String × String)) : Server where
  connect := .ok ()
  bind dn password := .ok ⟨if (dn, password) ∈ passwords then 0 else invalidCredentialsCode, ""⟩
  search base scope filter attributes :=
    match scope with
    | .base => .ok ((content.object base).toList.map (select attributes), ⟨0, ""⟩)
    | .subtree =>
      match read filter with
      | some [f] => .ok ((content.found [f]).map (select attributes), ⟨0, ""⟩)
      | _ => .error "filter"

theorem serverOf_answers (content : Content) (passwords : List (String × String)) (base : String) :
    (serverOf content passwords).Answers base content where
  subtree := by
    intro filter attributes es result h _
    simp only [serverOf] at h
    split at h
    · rename_i f hf
      cases h
      exact ⟨f, hf, rfl⟩
    · cases h
  object := by
    intro dn attributes es result h _
    cases h
    rfl

/-- A user of `EXAMPLE`. -/
def alice : SearchEntry where
  dn := "CN=alice"
  attrs := [("objectCategory", ["person"]), ("objectClass", ["top", "user"]),
    ("SAMAccountName", ["alice"]), ("memberOf", ["CN=staff"])]
  binAttrs := [("objectSid", [[1, 1, 0, 0, 0, 0, 0, 5, 11, 0, 0, 0]]),
    ("objectGUID", [List.replicate 16 0]), ("tokenGroups", [[1, 1, 0, 0, 0, 0, 0, 5, 32, 0, 0, 0]])]

/-- A group of `EXAMPLE`. -/
def staff : SearchEntry where
  dn := "CN=staff"
  attrs := [("objectCategory", ["group"]), ("cn", ["Staff"])]
  binAttrs := [("objectSid", [[1, 1, 0, 0, 0, 0, 0, 5, 32, 0, 0, 0]])]

def exampleDirectory : Content where
  entries := [alice, staff]
  object dn := if dn = "CN=alice" then some alice else none
  rule := valueRule

def exampleConfig : LdapConfig where
  bindDn := "CN=remotehub"
  bindPassword := "service"
  baseDn := "DC=example"
  userFilter := some "(memberOf=CN=staff)"

def exampleLdap3 : Ldap3 := ⟨ldapEscape, fun result => result.text⟩

def exampleServer : Server :=
  serverOf exampleDirectory [("CN=remotehub", "service"), ("CN=alice", "secret")]

theorem authenticate_iff_alice :
    SignsIn exampleLdap3 exampleConfig (fun _ => exampleServer) (fun _ => exampleDirectory) " EXAMPLE\\alice" "secret"
      { sid := ⟨"S-1-5-11"⟩, guid := 0, username := "alice", upn := none, displayName := "alice"
        email := none, groups := [⟨"S-1-5-32"⟩] } :=
  (authenticate_iff escapes_ldapEscape _ _ (fun _ => serverOf_answers _ _ _) _ _ _).1 (by decide +kernel)

end Directory.LdapDirectory
