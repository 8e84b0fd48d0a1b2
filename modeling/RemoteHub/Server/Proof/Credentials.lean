import RemoteHub.Server.Credentials
import RemoteHub.Server.Proof.Requests

/-!
# One update of a credential

`Item`: the password, the one-time password or a protected field. `CredentialChange.sets` says what
a change gives for an item (nothing: it keeps what there is), `Db.current` what the credential's
current version holds.

* `Db.Stored`: what a sequence of `secrets::store` leaves.
* `current_of_changed`: a new version takes what the change keeps from the version that the request
  read.
* `current_writeCredential`: if that is the version it finds, the change gives every item what it
  sets and keeps the others.
-/

namespace Server

open Model Except

variable {db db' : Db}

/-! ## Sealing -/

namespace Db

/-- `new` was stored in a version, and nothing else. -/
structure Stored (db db' : Db) (id : Uuid) (version : Int) (new : String → String → Prop) :
    Prop where
  credentials : db'.credentials = db.credentials
  other : ∀ key, key.1 ≠ id ∨ key.2.1 ≠ version →
    db'.secretFields.lookup key = db.secretFields.lookup key
  lookup : ∀ f v, db'.secretFields.lookup (id, version, f) = some v ↔
    new f v ∨ db.secretFields.lookup (id, version, f) = some v

variable {id : Uuid} {version : Int}

theorem Stored.refl (db : Db) (id : Uuid) (version : Int) :
    Stored db db id version fun _ _ => False :=
  ⟨rfl, fun _ _ => rfl, fun f v => by simp⟩

theorem Stored.trans {db₁ db₂ db₃ : Db} {new new' : String → String → Prop}
    (h : Stored db₁ db₂ id version new) (h' : Stored db₂ db₃ id version new') :
    Stored db₁ db₃ id version fun f v => new f v ∨ new' f v where
  credentials := h'.credentials.trans h.credentials
  other key hkey := (h'.other key hkey).trans (h.other key hkey)
  lookup f v := by
    rw [h'.lookup, h.lookup]
    tauto

theorem Stored.congr {new new' : String → String → Prop} (h : Stored db db' id version new)
    (hnew : ∀ f v, new f v ↔ new' f v) : Stored db db' id version new' where
  credentials := h.credentials
  other := h.other
  lookup f v := by rw [h.lookup, hnew]

theorem store_stored {field plaintext : String}
    (h : db.store id version field plaintext = .ok db') :
    Stored db db' id version fun f v => f = field ∧ v = plaintext := by
  obtain ⟨_, hnew, h⟩ := bind_eq_ok.1 h
  cases h
  have habsent := AList.lookup_eq_none.2 fun hmem => refuse_eq_ok.1 hnew (.inr hmem)
  refine ⟨rfl, fun key hkey => ?_, fun f v => ?_⟩
  · rw [HashMap.lookup_insert_eq, if_neg]
    intro h
    subst h
    rcases hkey with h | h <;> exact h rfl
  · rw [HashMap.lookup_insert_eq]
    by_cases hf : f = field
    · subst hf
      simp [habsent, eq_comm]
    · simp [hf]

theorem storeAll_stored {α : Type} (name value : α → String) {xs : List α}
    (h : xs.foldlM (fun db x => store db id version (name x) (value x)) db = .ok db') :
    Stored db db' id version fun f v => ∃ x ∈ xs, f = name x ∧ v = value x := by
  induction xs generalizing db with
  | nil =>
    cases h
    exact (Stored.refl db' id version).congr fun f v => by simp
  | cons x xs ih =>
    obtain ⟨mid, hmid, h⟩ := bind_eq_ok.1 h
    exact ((store_stored hmid).trans (ih h)).congr fun f v => by simp

theorem carry_stored {before : Int} {names : List String} (hne : before ≠ version)
    (h : db.carry id before version names = .ok db') :
    Stored db db' id version fun f v =>
      f ∈ names ∧ db.secretFields.lookup (id, before, f) = some v := by
  induction names generalizing db with
  | nil =>
    cases h
    exact (Stored.refl db' id version).congr fun f v => by simp
  | cons name names ih =>
    obtain ⟨mid, hmid, h⟩ := bind_eq_ok.1 h
    have hfirst : Stored db mid id version fun f v =>
        f = name ∧ db.secretFields.lookup (id, before, f) = some v := by
      cases hvalue : db.secretFields.lookup (id, before, name) with
      | none =>
        simp only [hvalue] at hmid
        cases hmid
        refine (Stored.refl db id version).congr fun f v => ?_
        refine ⟨False.elim, fun hf => ?_⟩
        obtain ⟨rfl, hv⟩ := hf
        rw [hvalue] at hv
        cases hv
      | some value =>
        simp only [hvalue] at hmid
        refine (store_stored hmid).congr fun f v => and_congr_right fun hf => ?_
        rw [hf, hvalue, Option.some.injEq, eq_comm]
    refine (hfirst.trans (ih h)).congr fun f v => ?_
    -- what is copied from is not what is copied to
    rw [hfirst.other (id, before, f) (.inr hne), List.mem_cons, or_and_right]

theorem sealTotp_stored {totp : Option String} (h : db.sealTotp id version totp = .ok db') :
    Stored db db' id version fun f v => f = totpField ∧ totp = some v := by
  cases totp with
  | none =>
    cases h
    exact (Stored.refl db id version).congr fun f v => by simp
  | some totp => exact (store_stored h).congr fun f v => by simp [eq_comm]

theorem sealNew_stored {secrets : Option Secrets} (h : db.sealNew id version secrets = .ok db') :
    Stored db db' id version fun f v => ∃ s, secrets = some s ∧ (f, v) ∈ s.fields := by
  cases secrets with
  | none =>
    cases h
    exact (Stored.refl db id version).congr fun f v => by simp
  | some secrets =>
    refine (storeAll_stored Prod.fst Prod.snd h).congr fun f v => ?_
    simp [Prod.exists]

theorem carryAndSeal_stored {c : CredentialChange} (hne : c.changed = true → c.before ≠ version)
    (h : db.carryAndSeal id version c = .ok db') :
    Stored db db' id version fun f v => c.changed = true ∧
      ((f ∈ c.kept ∧ db.secretFields.lookup (id, c.before, f) = some v) ∨
        ∃ x ∈ c.details.fields.toSeal, f = secretName x.1 ∧ v = x.2) := by
  unfold carryAndSeal at h
  cases hc : c.changed with
  | true =>
    rw [hc, if_pos rfl] at h
    obtain ⟨carried, hcarried, h⟩ := bind_eq_ok.1 h
    exact ((carry_stored (hne hc) hcarried).trans (storeAll_stored _ _ h)).congr fun f v => by simp
  | false =>
    rw [hc, if_neg Bool.false_ne_true] at h
    cases h
    exact (Stored.refl db id version).congr fun f v => by simp

/-- What a change writes into its version: the copies, the new values. -/
theorem sealChange_stored {c : CredentialChange} (hne : c.changed = true → c.before ≠ version)
    (h : db.sealChange id version c = .ok db') :
    Stored db db' id version fun f v =>
      (c.changed = true ∧
        ((f ∈ c.kept ∧ db.secretFields.lookup (id, c.before, f) = some v) ∨
          ∃ x ∈ c.details.fields.toSeal, f = secretName x.1 ∧ v = x.2)) ∨
      (∃ s, c.secrets = some s ∧ (f, v) ∈ s.fields) ∨ (f = totpField ∧ c.totp = some (some v)) := by
  obtain ⟨mid, hmid, h⟩ := bind_eq_ok.1 h
  obtain ⟨mid', hmid', h⟩ := bind_eq_ok.1 h
  have hcopies := carryAndSeal_stored hne hmid
  refine ((hcopies.trans (sealNew_stored hmid')).trans (sealTotp_stored h)).congr fun f v => ?_
  rw [or_assoc, Option.join_eq_some_iff]

end Db

/-! ## Items -/

/-- What a credential has sealed. -/
inductive Item
  | password
  | totp
  | field (name : String)

def Item.sealedAs : Item → String
  | .password => passwordField
  | .totp => totpField
  | .field name => secretName name

/-- What the current version of a credential holds. -/
def Db.current (db : Db) (id : Uuid) (item : Item) : Option String :=
  (db.credentials.lookup id).bind fun row => db.secretFields.lookup (id, row.version, item.sealedAs)

theorem secretName_inj {n m : String} : secretName n = secretName m ↔ n = m := by
  unfold secretName
  constructor
  · intro h
    have hlist := congrArg String.toList h
    rw [String.toList_append, String.toList_append, List.append_cancel_left_eq] at hlist
    exact String.toList_inj.1 hlist
  · intro h
    rw [h]

/-- No protected field is sealed under the name of another secret. -/
theorem secretName_ne {n s : String} (hs : s.toList.take 6 ≠ "field:".toList) :
    secretName n ≠ s := by
  intro h
  apply hs
  rw [← h, secretName, String.toList_append]
  exact List.take_left' rfl

theorem secretName_ne_password (n : String) : secretName n ≠ passwordField :=
  secretName_ne (by decide)

theorem secretName_ne_totp (n : String) : secretName n ≠ totpField := secretName_ne (by decide)

theorem password_ne_totp : passwordField ≠ totpField := by decide

namespace Secrets

variable {s : Secrets} {f v : String}

theorem mem_password : (passwordField, v) ∈ s.fields ↔ s.fields.lookup passwordField = some v := by
  cases s with
  | password value => simp [fields, eq_comm]
  | key privateKey passphrase certificate algorithm fingerprint =>
    cases passphrase <;> cases certificate <;> simp [fields, List.lookup_cons, passwordField]

theorem totp_notMem : (totpField, v) ∉ s.fields := by
  cases s with
  | password value => simp [fields, totpField, passwordField]
  | key privateKey passphrase certificate algorithm fingerprint =>
    cases passphrase <;> cases certificate <;> simp [fields, totpField]

theorem secretName_notMem {n : String} : (secretName n, v) ∉ s.fields := by
  have hne : ∀ t : String, t.toList.take 6 ≠ "field:".toList → secretName n ≠ t :=
    fun t ht => secretName_ne ht
  cases s with
  | password value => simp [fields, secretName_ne_password]
  | key privateKey passphrase certificate algorithm fingerprint =>
    have h₁ := hne "private_key" (by decide)
    have h₂ := hne "passphrase" (by decide)
    have h₃ := hne "certificate" (by decide)
    cases passphrase <;> cases certificate <;> simp [fields, h₁, h₂, h₃]

end Secrets

namespace CredentialChange

variable {c : CredentialChange} {n v : String}

/-- What the change gives for an item; `none` if it keeps what there is. -/
def sets (c : CredentialChange) : Item → Option (Option String)
  | .password => c.secrets.map fun s => s.fields.lookup passwordField
  | .totp => c.totp
  | .field n =>
    match c.details.fields.toSeal.lookup n with
    | some v => some (some v)
    | none => if n ∈ c.details.fields.kept then none else some none

theorem password_mem_kept : passwordField ∈ c.kept ↔ c.secrets = none := by
  unfold kept
  have hne : ∀ n, secretName n ≠ passwordField := secretName_ne_password
  simp [password_ne_totp, hne]

theorem totp_mem_kept : totpField ∈ c.kept ↔ c.totp = none ∧ c.hadTotp = true := by
  unfold kept
  have hne : ∀ n, secretName n ≠ totpField := secretName_ne_totp
  simp [password_ne_totp.symm, hne]

theorem secretName_mem_kept : secretName n ∈ c.kept ↔ n ∈ c.details.fields.kept := by
  unfold kept
  simp [secretName_ne_password, secretName_ne_totp, secretName_inj]

/-- The value a protected field gets. -/
theorem toSeal_iff :
    (∃ x ∈ c.details.fields.toSeal, secretName n = secretName x.1 ∧ v = x.2) ↔
      c.details.fields.toSeal.lookup n = some v := by
  rw [HashMap.lookup_rows (List.nodup_append.1 c.details.fields.nodup).1]
  constructor
  · intro h
    obtain ⟨x, hx, hn, rfl⟩ := h
    rw [secretName_inj.1 hn]
    exact hx
  · intro h
    exact ⟨(n, v), h, rfl, rfl⟩

/-- What goes into a new version for an item, with `old` in the version before. -/
theorem sealed_iff {old : Option String} {item : Item}
    (hold : ∀ v, item = .totp → old = some v → c.hadTotp = true) (v : String) :
    (item.sealedAs ∈ c.kept ∧ old = some v ∨
        ∃ x ∈ c.details.fields.toSeal, item.sealedAs = secretName x.1 ∧ v = x.2) ∨
      (∃ s, c.secrets = some s ∧ (item.sealedAs, v) ∈ s.fields) ∨
        item.sealedAs = totpField ∧ c.totp = some (some v) ↔ (c.sets item).getD old = some v := by
  cases item with
  | password =>
    have hnot : ¬∃ x ∈ c.details.fields.toSeal, passwordField = secretName x.1 ∧ v = x.2 :=
      fun ⟨x, _, hx, _⟩ => secretName_ne_password x.1 hx.symm
    simp only [Item.sealedAs, password_mem_kept, hnot, password_ne_totp, Secrets.mem_password, sets,
      false_and, or_false]
    cases c.secrets with
    | none => simp
    | some s => simp
  | totp =>
    have hnot : ¬∃ x ∈ c.details.fields.toSeal, totpField = secretName x.1 ∧ v = x.2 :=
      fun ⟨x, _, hx, _⟩ => secretName_ne_totp x.1 hx.symm
    have hkept : c.hadTotp = true ∧ old = some v ↔ old = some v :=
      and_iff_right_of_imp (hold v rfl)
    simp only [Item.sealedAs, totp_mem_kept, hnot, Secrets.totp_notMem, sets, and_false,
      exists_false, or_false, false_or, true_and, and_assoc, hkept]
    cases c.totp with
    | none => simp
    | some given => simp
  | field n =>
    simp only [Item.sealedAs, secretName_mem_kept, toSeal_iff, Secrets.secretName_notMem,
      secretName_ne_totp, sets, and_false, exists_false, or_false, false_and]
    cases hs : c.details.fields.toSeal.lookup n with
    | none => by_cases hn : n ∈ c.details.fields.kept <;> simp [hn]
    | some value =>
      -- a field with a new value is not one that keeps its own
      obtain ⟨hnodup, -, hdisjoint⟩ := List.nodup_append.1 c.details.fields.nodup
      have hmem : (n, value) ∈ c.details.fields.toSeal := (HashMap.lookup_rows hnodup).1 hs
      have hn : n ∉ c.details.fields.kept := fun hkept =>
        hdisjoint n (List.mem_map.2 ⟨(n, value), hmem, rfl⟩) n hkept rfl
      simp [hn]

/-- A change that makes no new version sets nothing. -/
theorem of_not_changed (h : c.changed = false) :
    c.secrets = none ∧ c.details.fields.toSeal = [] ∧
      (∀ n, n ∈ protectedNames c.stored ↔ n ∈ c.details.fields.kept) ∧
      (c.totp = none ∨ c.totp = some none ∧ c.hadTotp = false) := by
  unfold changed at h
  rw [Bool.or_eq_false_iff, Bool.or_eq_false_iff] at h
  obtain ⟨⟨hsecrets, hfields⟩, htotp⟩ := h
  unfold fieldsChanged Checked.changesSecrets at hfields
  rw [decide_eq_false_iff_not, not_or, not_not, not_not] at hfields
  obtain ⟨hseal, hnames⟩ := hfields
  refine ⟨by simpa using hsecrets, hseal, ?_, ?_⟩
  · intro n
    have hmem := c.details.fields.mem_protected n
    rw [hseal, List.map_nil, List.nil_append] at hmem
    rw [← hmem, ← List.mem_mergeSort (l := protectedNames c.stored), ← hnames, List.mem_mergeSort]
  · unfold totpChanged at htotp
    cases htotp' : c.totp with
    | none => exact .inl rfl
    | some given =>
      rw [htotp'] at htotp
      cases given with
      | none => exact .inr ⟨rfl, by simpa using htotp⟩
      | some value => simp at htotp

end CredentialChange

/-! ## One update -/

/-- Nothing is sealed in the current version of a credential but what its row tells of, and nothing
yet in a later one. -/
structure Intact (db : Db) (id : Uuid) (row : CredentialRow) : Prop where
  found : db.credentials.lookup id = some row
  fields : ∀ n v, db.current id (.field n) = some v → n ∈ protectedNames row.fields
  totp : ∀ v, db.current id .totp = some v → row.hasTotp = true
  above : ∀ version f, row.version < version → db.secretFields.lookup (id, version, f) = none

/-- What the request read of the secrets is what it finds. -/
structure Agrees (c : CredentialChange) (row : CredentialRow) : Prop where
  version : c.before = row.version
  fields : ∀ n, n ∈ protectedNames c.stored ↔ n ∈ protectedNames row.fields
  totp : c.hadTotp = row.hasTotp

variable {id : Uuid} {row : CredentialRow} {c : CredentialChange}

theorem Intact.current (h : Intact db id row) (item : Item) :
    db.current id item = db.secretFields.lookup (id, row.version, item.sealedAs) := by
  unfold Db.current
  rw [h.found]
  rfl

/-- The transaction of an update: the row, and what it seals. -/
theorem writeCredential_ok (hrow : db.credentials.lookup id = some row)
    (hbefore : c.before ≤ row.version) (h : db.writeCredential id c = .ok db') :
    db'.credentials = db.credentials.insert id (c.apply row) ∧
      Db.Stored { db with credentials := db.credentials.insert id (c.apply row) } db' id
        (c.apply row).version fun f v =>
          (c.changed = true ∧
            ((f ∈ c.kept ∧ db.secretFields.lookup (id, c.before, f) = some v) ∨
              ∃ x ∈ c.details.fields.toSeal, f = secretName x.1 ∧ v = x.2)) ∨
          (∃ s, c.secrets = some s ∧ (f, v) ∈ s.fields) ∨
          (f = totpField ∧ c.totp = some (some v)) := by
  obtain ⟨row', hrow', h⟩ := bind_eq_ok.1 h
  obtain ⟨_, -, h⟩ := bind_eq_ok.1 h
  rw [Db.fetchOne_eq_ok, hrow] at hrow'
  cases hrow'
  have hne : c.changed = true → c.before ≠ (c.apply row).version := by
    intro hc
    have hversion : (c.apply row).version = row.version + 1 := by
      simp [CredentialChange.apply, hc]
    omega
  have hstored := Db.sealChange_stored hne h
  exact ⟨hstored.credentials, hstored⟩

theorem current_after (hrow : db.credentials.lookup id = some row) (hbefore : c.before ≤ row.version)
    (h : db.writeCredential id c = .ok db') (item : Item) :
    db'.current id item =
      db'.secretFields.lookup (id, (c.apply row).version, item.sealedAs) := by
  unfold Db.current
  rw [(writeCredential_ok hrow hbefore h).1, AList.lookup_insert]
  rfl

/-- **A new version** has for each item what the update sets, and else what the version had that the
request read, be that the current one or not. -/
theorem current_of_changed {item : Item} (hi : Intact db id row) (hbefore : c.before ≤ row.version)
    (hc : c.changed = true)
    (htotp : ∀ v, item = .totp →
      db.secretFields.lookup (id, c.before, item.sealedAs) = some v → c.hadTotp = true)
    (h : db.writeCredential id c = .ok db') :
    db'.current id item =
      (c.sets item).getD (db.secretFields.lookup (id, c.before, item.sealedAs)) := by
  have hstored := (writeCredential_ok hi.found hbefore h).2
  have hversion : (c.apply row).version = row.version + 1 := by simp [CredentialChange.apply, hc]
  refine Option.ext fun v => ?_
  rw [current_after hi.found hbefore h, hstored.lookup]
  show _ ∨ db.secretFields.lookup _ = some v ↔ _
  rw [hi.above (c.apply row).version item.sealedAs (by omega)]
  simp only [hc, true_and, reduceCtorEq, or_false]
  exact CredentialChange.sealed_iff htotp v

/-- An update that makes no new version leaves what is sealed. -/
theorem current_of_not_changed (hi : Intact db id row) (hbefore : c.before ≤ row.version)
    (hc : c.changed = false) (h : db.writeCredential id c = .ok db') (item : Item) :
    db'.current id item = db.current id item := by
  obtain ⟨hsecrets, -, -, htotp⟩ := CredentialChange.of_not_changed hc
  have hstored := (writeCredential_ok hi.found hbefore h).2
  have hversion : (c.apply row).version = row.version := by simp [CredentialChange.apply, hc]
  refine Option.ext fun v => ?_
  have hno : c.totp ≠ some (some v) := by
    rcases htotp with htotp | ⟨htotp, -⟩ <;> simp [htotp]
  rw [current_after hi.found hbefore h, hstored.lookup, hi.current]
  show _ ∨ db.secretFields.lookup _ = some v ↔ _
  rw [hversion]
  simp [hc, hsecrets, hno]

/-- What an update that makes no new version removes is not there. -/
theorem sets_of_not_changed (hi : Intact db id row) (ha : Agrees c row) (hc : c.changed = false)
    (item : Item) : (c.sets item).getD (db.current id item) = db.current id item := by
  obtain ⟨hsecrets, hseal, hnames, htotp⟩ := CredentialChange.of_not_changed hc
  cases item with
  | password =>
    unfold CredentialChange.sets
    rw [hsecrets]
    rfl
  | totp =>
    rcases htotp with htotp | ⟨htotp, hhad⟩
    · simp [CredentialChange.sets, htotp]
    · have hnone : db.current id .totp = none := by
        refine Option.eq_none_iff_forall_ne_some.2 fun v hv => ?_
        have hhas := hi.totp v hv
        rw [← ha.totp, hhad] at hhas
        cases hhas
      simp [CredentialChange.sets, htotp, hnone]
  | field n =>
    by_cases hn : n ∈ c.details.fields.kept
    · simp [CredentialChange.sets, hseal, hn]
    · have hnone : db.current id (.field n) = none := by
        refine Option.eq_none_iff_forall_ne_some.2 fun v hv => hn ?_
        rw [← hnames, ha.fields]
        exact hi.fields n v hv
      simp [CredentialChange.sets, hseal, hn, hnone]

/-- **An update that finds the version it read** gives every item what it sets and keeps the
others. -/
theorem current_writeCredential (hi : Intact db id row) (ha : Agrees c row)
    (h : db.writeCredential id c = .ok db') (item : Item) :
    db'.current id item = (c.sets item).getD (db.current id item) := by
  cases hc : c.changed with
  | false =>
    rw [current_of_not_changed hi ha.version.le hc h, sets_of_not_changed hi ha hc]
  | true =>
    rw [current_of_changed hi ha.version.le hc ?_ h, ha.version, ← hi.current]
    intro v hitem hv
    subst hitem
    rw [ha.version, ← hi.current] at hv
    exact ha.totp.trans (hi.totp v hv)

/-- The row and its secrets belong together after an update that finds what it read. -/
theorem intact_writeCredential (hi : Intact db id row) (ha : Agrees c row)
    (h : db.writeCredential id c = .ok db') : Intact db' id (c.apply row) := by
  obtain ⟨hcredentials, hstored⟩ := writeCredential_ok hi.found ha.version.le h
  have hversion : row.version ≤ (c.apply row).version := by
    show row.version ≤ row.version + if c.changed then 1 else 0
    split <;> omega
  refine ⟨?_, ?_, ?_, ?_⟩
  · rw [hcredentials]
    exact AList.lookup_insert _
  · intro n v hv
    show n ∈ protectedNames c.details.fields.stored
    rw [c.details.fields.mem_protected, List.mem_append]
    rw [current_writeCredential hi ha h] at hv
    cases hs : c.details.fields.toSeal.lookup n with
    | some value =>
      have hmem := (HashMap.lookup_rows (List.nodup_append.1 c.details.fields.nodup).1).1 hs
      exact .inl (List.mem_map.2 ⟨(n, value), hmem, rfl⟩)
    | none =>
      by_cases hn : n ∈ c.details.fields.kept
      · exact .inr hn
      · simp [CredentialChange.sets, hs, hn] at hv
  · intro v hv
    show c.hasTotp = true
    rw [current_writeCredential hi ha h] at hv
    unfold CredentialChange.hasTotp
    cases htotp : c.totp with
    | none =>
      simp only [CredentialChange.sets, htotp, Option.getD_none] at hv
      exact ha.totp.trans (hi.totp v hv)
    | some given =>
      simp only [CredentialChange.sets, htotp, Option.getD_some] at hv
      rw [hv]
      rfl
  · intro version f hlt
    rw [hstored.other (id, version, f) (.inr (by show version ≠ _; omega))]
    exact hi.above version f (by omega)

theorem current_congr (hrow : db'.credentials.lookup id = db.credentials.lookup id)
    (hfields : ∀ version f, db'.secretFields.lookup (id, version, f) =
      db.secretFields.lookup (id, version, f)) (item : Item) :
    db'.current id item = db.current id item := by
  unfold Db.current
  rw [hrow]
  simp only [hfields]

theorem Intact.congr (h : Intact db id row)
    (hrow : db'.credentials.lookup id = db.credentials.lookup id)
    (hfields : ∀ version f, db'.secretFields.lookup (id, version, f) =
      db.secretFields.lookup (id, version, f)) : Intact db' id row := by
  have hcurrent := current_congr hrow hfields
  refine ⟨hrow.trans h.found, ?_, ?_, ?_⟩
  · intro n v hv
    rw [hcurrent] at hv
    exact h.fields n v hv
  · intro v hv
    rw [hcurrent] at hv
    exact h.totp v hv
  · intro version f hlt
    rw [hfields]
    exact h.above version f hlt

/-- An update of another credential. -/
theorem other_writeCredential {other : Uuid} (hne : id ≠ other)
    (hrow : db.credentials.lookup other = some row) (hbefore : c.before ≤ row.version)
    (h : db.writeCredential other c = .ok db') :
    db'.credentials.lookup id = db.credentials.lookup id ∧
      ∀ version f, db'.secretFields.lookup (id, version, f) =
        db.secretFields.lookup (id, version, f) := by
  obtain ⟨hcredentials, hstored⟩ := writeCredential_ok hrow hbefore h
  refine ⟨?_, fun version f => hstored.other (id, version, f) (.inl hne)⟩
  rw [hcredentials, HashMap.lookup_insert_eq, if_neg hne]

/-- Another update that read the same version still agrees after one that made no new version. -/
theorem Agrees.of_not_changed {c' : CredentialChange} (ha : Agrees c row) (ha' : Agrees c' row)
    (hc : c.changed = false) : Agrees c' (c.apply row) := by
  obtain ⟨-, hseal, hnames, htotp⟩ := CredentialChange.of_not_changed hc
  refine ⟨?_, ?_, ?_⟩
  · rw [ha'.version]
    simp [CredentialChange.apply, hc]
  · intro n
    show n ∈ protectedNames c'.stored ↔ n ∈ protectedNames c.details.fields.stored
    rw [ha'.fields, ← ha.fields, hnames, c.details.fields.mem_protected, hseal, List.map_nil,
      List.nil_append]
  · show c'.hadTotp = c.hasTotp
    rw [ha'.totp, ← ha.totp]
    unfold CredentialChange.hasTotp
    rcases htotp with htotp | ⟨htotp, hhad⟩
    · rw [htotp]
      rfl
    · rw [htotp, hhad]
      rfl

theorem newSecrets_password {ssh : SshKeys} {input : SecretInput} {secrets : Option Secrets}
    (h : newSecrets ssh .password input = .ok secrets) :
    secrets = input.password.map .password := by
  cases h
  rfl

theorem createCredential_ok {crates : Crates} {caller : Caller} {input : CredentialInput}
    (h : db.createCredential crates caller id input = .ok db') :
    ∃ row details totp password, input.details crates = .ok details ∧ details.fields.kept = [] ∧
      row.version = 1 ∧ row.fields = details.fields.stored ∧
      row.hasTotp = Option.isSome totp ∧ db'.credentials = db.credentials.insert id row ∧
      Db.Stored { db with credentials := db.credentials.insert id row } db' id 1 fun f v =>
        ((∃ x ∈ (Secrets.password password).fields, f = x.1 ∧ v = x.2) ∨
          ∃ x ∈ details.fields.toSeal, f = secretName x.1 ∧ v = x.2) ∨
        f = totpField ∧ totp = some v := by
  obtain ⟨_, -, h⟩ := bind_eq_ok.1 h
  obtain ⟨_, -, h⟩ := bind_eq_ok.1 h
  obtain ⟨given, hgiven, h⟩ := bind_eq_ok.1 h
  obtain ⟨secrets, hsecrets, h⟩ := bind_eq_ok.1 h
  obtain ⟨details, hdetails, h⟩ := bind_eq_ok.1 h
  obtain ⟨totp, -, h⟩ := bind_eq_ok.1 h
  obtain ⟨_, hkept, h⟩ := bind_eq_ok.1 h
  obtain ⟨_, -, h⟩ := bind_eq_ok.1 h
  obtain ⟨_, -, h⟩ := bind_eq_ok.1 h
  obtain ⟨_, -, h⟩ := bind_eq_ok.1 h
  obtain ⟨mid, hmid, h⟩ := bind_eq_ok.1 h
  obtain ⟨mid', hmid', h⟩ := bind_eq_ok.1 h
  have hstored := ((Db.storeAll_stored Prod.fst Prod.snd hmid).trans
    (Db.storeAll_stored _ _ hmid')).trans (Db.sealTotp_stored h)
  rw [newSecrets_password hgiven] at hsecrets
  cases hpassword : input.secrets.password with
  | none =>
    rw [hpassword] at hsecrets
    cases hsecrets
  | some password =>
    rw [hpassword] at hsecrets
    cases hsecrets
    exact ⟨_, details, totp.join, password, hdetails, not_not.1 (refuse_eq_ok.1 hkept), rfl, rfl, rfl,
      hstored.credentials, hstored⟩

/-- A new credential is intact, if nothing was sealed for its id before. -/
theorem intact_createCredential {crates : Crates} {caller : Caller} {input : CredentialInput}
    (hnew : ∀ version f, db.secretFields.lookup (id, version, f) = none)
    (h : db.createCredential crates caller id input = .ok db') : ∃ row, Intact db' id row := by
  obtain ⟨row, details, totp, password, -, -, hversion, hfields, htotp, hcredentials, hstored⟩ :=
    createCredential_ok h
  have hfound : db'.credentials.lookup id = some row := by
    rw [hcredentials]
    exact AList.lookup_insert _
  have hcurrent : ∀ item v, db'.current id item = some v →
      ((∃ x ∈ (Secrets.password password).fields, item.sealedAs = x.1 ∧ v = x.2) ∨
        ∃ x ∈ details.fields.toSeal, item.sealedAs = secretName x.1 ∧ v = x.2) ∨
      item.sealedAs = totpField ∧ totp = some v := by
    intro item v hv
    unfold Db.current at hv
    rw [hfound, Option.bind_some, hversion, hstored.lookup] at hv
    rcases hv with hv | hv
    · exact hv
    · exact absurd (hnew 1 item.sealedAs) (by simp [show _ = some v from hv])
  refine ⟨row, hfound, ?_, ?_, ?_⟩
  · intro n v hv
    rw [hfields, details.fields.mem_protected, List.mem_append]
    rcases hcurrent (.field n) v hv with (⟨⟨f, value⟩, hx, hn, -⟩ | ⟨x, hx, hn, -⟩) | ⟨hn, -⟩
    · rw [← show secretName n = f from hn] at hx
      exact absurd hx Secrets.secretName_notMem
    · rw [secretName_inj.1 hn]
      exact .inl (List.mem_map.2 ⟨x, hx, rfl⟩)
    · exact absurd hn (secretName_ne_totp n)
  · intro v hv
    rw [htotp]
    rcases hcurrent .totp v hv with (⟨⟨f, value⟩, hx, hn, -⟩ | ⟨x, hx, hn, -⟩) | ⟨-, hv⟩
    · rw [← show totpField = f from hn] at hx
      exact absurd hx Secrets.totp_notMem
    · exact absurd hn.symm (secretName_ne_totp x.1)
    · rw [hv]
      rfl
  · intro version f hlt
    rw [hstored.other (id, version, f) (.inr (by show version ≠ 1; omega))]
    exact hnew version f

theorem readCredential_ok {crates : Crates} {catalog : Catalog} {subject : Subject}
    {input : CredentialInput} (h : db.readCredential crates catalog subject id input = .ok c) :
    ∃ row, db.credentials.lookup id = some row ∧ Agrees c row := by
  obtain ⟨_, -, h⟩ := bind_eq_ok.1 h
  obtain ⟨_, -, h⟩ := bind_eq_ok.1 h
  obtain ⟨_, -, h⟩ := bind_eq_ok.1 h
  obtain ⟨_, -, h⟩ := bind_eq_ok.1 h
  obtain ⟨row, hrow, h⟩ := bind_eq_ok.1 h
  obtain ⟨_, -, h⟩ := bind_eq_ok.1 h
  obtain ⟨_, -, h⟩ := bind_eq_ok.1 h
  obtain ⟨_, -, h⟩ := bind_eq_ok.1 h
  obtain ⟨_, -, h⟩ := bind_eq_ok.1 h
  cases h
  exact ⟨row, Db.fetchOne_eq_ok.1 hrow, rfl, fun _ => Iff.rfl, rfl⟩

end Server
