import Mathlib.Data.String.Basic
import RemoteHub.Server.Proof.Updates

/-!
# The versions of a credential, one request after another

A version that became current has exactly the sealed fields that the credential's row told of then
(`CredentialRow.secretNames`), and keeps them for good; an update makes the next version exactly
when it sets or removes a secret, and gives it the others as they were.
-/

namespace Server

open Model Except

/-- The sealed fields of the current version, by name. -/
def CredentialRow.secretNames (row : CredentialRow) : List String :=
  passwordField :: (protectedNames row.fields).map secretName ++
    if row.hasTotp then [totpField] else []

/-- The change sets a secret, or removes one there is. -/
def CredentialChange.Touches (c : CredentialChange) (db : Db) (id : Uuid) (item : Item) : Prop :=
  (∃ v, c.sets item = some (some v)) ∨ (c.sets item = some none ∧ db.current id item ≠ none)

namespace Versions

/-- The credential's current version has exactly the fields its row tells of, and there is nothing
in a later one. -/
structure Whole (db : Db) (id : Uuid) (row : CredentialRow) : Prop where
  found : db.credentials.lookup id = some row
  fields : ∀ f, (db.secretFields.lookup (id, row.version, f)).isSome ↔ f ∈ row.secretNames
  nodup : (protectedNames row.fields).Nodup
  above : ∀ version f, row.version < version → db.secretFields.lookup (id, version, f) = none

variable {crates : Crates} {db db' : Db} {id : Uuid} {row : CredentialRow} {c : CredentialChange}

/-! ## Names -/

theorem mem_secretNames {f : String} :
    f ∈ row.secretNames ↔ f = passwordField ∨ (∃ n ∈ protectedNames row.fields, f = secretName n) ∨
      (f = totpField ∧ row.hasTotp = true) := by
  unfold CredentialRow.secretNames
  cases row.hasTotp <;> simp [eq_comm]

theorem password_mem_secretNames : passwordField ∈ row.secretNames := mem_secretNames.2 (.inl rfl)

theorem totp_mem_secretNames : totpField ∈ row.secretNames ↔ row.hasTotp = true := by
  have hne : ∀ n, totpField ≠ secretName n := fun n => (secretName_ne_totp n).symm
  simp [mem_secretNames, password_ne_totp.symm, hne]

theorem secretName_mem_secretNames {n : String} :
    secretName n ∈ row.secretNames ↔ n ∈ protectedNames row.fields := by
  simp [mem_secretNames, secretName_ne_password, secretName_ne_totp, secretName_inj]

theorem secretNames_nodup (h : (protectedNames row.fields).Nodup) : row.secretNames.Nodup := by
  have hnames : ((protectedNames row.fields).map secretName).Nodup :=
    h.map fun _ _ hn => secretName_inj.1 hn
  unfold CredentialRow.secretNames
  cases row.hasTotp with
  | false => simp [hnames, secretName_ne_password]
  | true =>
    simp only [if_true, List.cons_append, List.nodup_cons, List.mem_append, List.mem_singleton,
      List.nodup_append]
    refine ⟨?_, hnames, by simp, ?_⟩
    · simp [secretName_ne_password, password_ne_totp]
    · simp [secretName_ne_totp]

/-! ## Checked fields -/

theorem push_nodup {c c' : Checked} {field : FieldInput} (h : c.push field = .ok c')
    (hnodup : (c.stored.map (·.name)).Nodup) : (c'.stored.map (·.name)).Nodup := by
  have hadd : ∀ f : Field, c.Fresh f.name → ((c.stored ++ [f]).map (·.name)).Nodup := by
    intro f hfresh
    rw [List.map_append, List.map_singleton, List.nodup_append]
    refine ⟨hnodup, by simp, ?_⟩
    intro n hn m hm
    obtain ⟨g, hg, rfl⟩ := List.mem_map.1 hn
    rw [List.mem_singleton.1 hm]
    exact hfresh g hg
  unfold Checked.push at h
  simp only at h
  split at h
  · rename_i hfresh
    obtain ⟨_, -, h⟩ := bind_eq_ok.1 h
    obtain ⟨_, -, h⟩ := bind_eq_ok.1 h
    cases h
    split
    · exact hadd _ hfresh
    · exact hadd _ hfresh
    · exact hadd _ hfresh
  · cases h

/-- No name twice among checked fields. -/
theorem checkFields_names {input : List FieldInput} {c : Checked} (h : checkFields input = .ok c) :
    (c.stored.map (·.name)).Nodup := by
  obtain ⟨_, -, h⟩ := bind_eq_ok.1 h
  have hall : ∀ (input : List FieldInput) (c₀ : Checked), (c₀.stored.map (·.name)).Nodup →
      input.foldlM Checked.push c₀ = .ok c → (c.stored.map (·.name)).Nodup := by
    intro input
    induction input with
    | nil =>
      intro c₀ hnodup h
      cases h
      exact hnodup
    | cons field input ih =>
      intro c₀ hnodup h
      obtain ⟨c₁, hpush, h⟩ := bind_eq_ok.1 h
      exact ih c₁ (push_nodup hpush hnodup) h
  exact hall input .empty List.nodup_nil h

theorem checkFields_nodup {input : List FieldInput} {c : Checked} (h : checkFields input = .ok c) :
    (protectedNames c.stored).Nodup :=
  (checkFields_names h).sublist (List.filter_sublist.map _)

theorem details_nodup {input : CredentialInput} {details : Details}
    (h : input.details crates = .ok details) : (protectedNames details.fields.stored).Nodup := by
  obtain ⟨_, -, h⟩ := bind_eq_ok.1 h
  obtain ⟨_, -, h⟩ := bind_eq_ok.1 h
  obtain ⟨_, -, h⟩ := bind_eq_ok.1 h
  obtain ⟨_, -, h⟩ := bind_eq_ok.1 h
  obtain ⟨_, -, h⟩ := bind_eq_ok.1 h
  obtain ⟨_, -, h⟩ := bind_eq_ok.1 h
  obtain ⟨fields, hfields, h⟩ := bind_eq_ok.1 h
  cases h
  exact checkFields_nodup hfields

/-- A change as `update_credential` checks it against the row it read. -/
structure Sound (c : CredentialChange) (row : CredentialRow) : Prop extends Agrees c row where
  kept : ∀ n ∈ c.details.fields.kept, n ∈ protectedNames row.fields
  nodup : (protectedNames c.details.fields.stored).Nodup
  secrets : ∀ s, c.secrets = some s → ∃ p, s = .password p
  stored : c.stored = row.fields

theorem readCredential_sound {catalog : Catalog} {subject : Subject} {input : CredentialInput}
    (h : db.readCredential crates catalog subject id input = .ok c) :
    ∃ row, db.credentials.lookup id = some row ∧ Sound c row := by
  obtain ⟨_, -, h⟩ := bind_eq_ok.1 h
  obtain ⟨_, -, h⟩ := bind_eq_ok.1 h
  obtain ⟨_, -, h⟩ := bind_eq_ok.1 h
  obtain ⟨_, -, h⟩ := bind_eq_ok.1 h
  obtain ⟨row, hrow, h⟩ := bind_eq_ok.1 h
  obtain ⟨secrets, hsecrets, h⟩ := bind_eq_ok.1 h
  obtain ⟨details, hdetails, h⟩ := bind_eq_ok.1 h
  obtain ⟨_, -, h⟩ := bind_eq_ok.1 h
  obtain ⟨_, hkeeps, h⟩ := bind_eq_ok.1 h
  cases h
  refine ⟨row, Db.fetchOne_eq_ok.1 hrow, ⟨rfl, fun _ => Iff.rfl, rfl⟩, ?_, details_nodup hdetails, ?_,
    rfl⟩
  · intro n hn
    have hkept : details.fields.keepsOnlyWhatWas row.fields = true := by
      simpa using refuse_eq_ok.1 hkeeps
    have hwas := List.all_eq_true.1 hkept n hn
    simpa [protectedNames, and_assoc] using hwas
  · intro s hs
    rw [newSecrets_password hsecrets] at hs
    obtain ⟨p, -, hp⟩ := Option.map_eq_some_iff.1 hs
    exact ⟨p, hp.symm⟩

theorem Whole.current (h : Whole db id row) (item : Item) :
    db.current id item = db.secretFields.lookup (id, row.version, item.sealedAs) := by
  unfold Db.current
  rw [h.found]
  rfl

theorem Whole.intact (h : Whole db id row) : Intact db id row where
  found := h.found
  fields n v hv := by
    rw [h.current] at hv
    exact secretName_mem_secretNames.1 ((h.fields (secretName n)).1 (Option.isSome_of_mem hv))
  totp v hv := by
    rw [h.current] at hv
    exact totp_mem_secretNames.1 ((h.fields totpField).1 (Option.isSome_of_mem hv))
  above := h.above

/-! ## When a version is new -/

/-- A protected field that is neither sealed anew nor kept is removed. -/
theorem exists_removed (hnodup : (protectedNames row.fields).Nodup) (hs : Sound c row)
    (hseal : c.details.fields.toSeal = [])
    (hnames : c.details.fields.changesSecrets c.stored = true) :
    ∃ n ∈ protectedNames row.fields, n ∉ c.details.fields.kept := by
  by_contra hno
  push Not at hno
  have hmem : ∀ n, n ∈ protectedNames c.details.fields.stored ↔ n ∈ protectedNames c.stored := by
    intro n
    rw [c.details.fields.mem_protected, hseal, List.map_nil, List.nil_append, hs.stored]
    exact ⟨hs.kept n, hno n⟩
  have hperm : (protectedNames c.details.fields.stored).Perm (protectedNames c.stored) :=
    (List.perm_ext_iff_of_nodup hs.nodup (hs.stored ▸ hnodup)).2 hmem
  have hsorted : (protectedNames c.details.fields.stored).mergeSort (· ≤ ·) =
      (protectedNames c.stored).mergeSort (· ≤ ·) :=
    List.Perm.eq_of_sortedLE List.sortedLE_mergeSort List.sortedLE_mergeSort
      ((List.mergeSort_perm _ _).trans (hperm.trans (List.mergeSort_perm _ _).symm))
  simp [Checked.changesSecrets, hseal, hsorted] at hnames

/-- **A new version** is made exactly when a secret is set or removed. -/
theorem changed_iff_touches (hw : Whole db id row) (hs : Sound c row) :
    c.changed = true ↔ ∃ item, c.Touches db id item := by
  constructor
  · intro hc
    unfold CredentialChange.changed at hc
    rw [Bool.or_eq_true, Bool.or_eq_true] at hc
    rcases hc with (hsecrets | hfields) | htotp
    · obtain ⟨s, hsome⟩ := Option.isSome_iff_exists.1 hsecrets
      obtain ⟨p, rfl⟩ := hs.secrets s hsome
      exact ⟨.password, .inl ⟨p, by simp [CredentialChange.sets, hsome, Secrets.fields]⟩⟩
    · cases hseal : c.details.fields.toSeal with
      | cons x xs =>
        have hlookup : (x :: xs).lookup x.1 = some x.2 := List.lookup_cons_self
        exact ⟨.field x.1, .inl ⟨x.2, by simp [CredentialChange.sets, hseal, hlookup]⟩⟩
      | nil =>
        obtain ⟨n, hn, hkept⟩ := exists_removed hw.nodup hs hseal hfields
        refine ⟨.field n, .inr ⟨by simp [CredentialChange.sets, hseal, hkept], ?_⟩⟩
        rw [hw.current, ← Option.isSome_iff_ne_none, hw.fields]
        exact secretName_mem_secretNames.2 hn
    · unfold CredentialChange.totpChanged at htotp
      cases hgiven : c.totp with
      | none => simp [hgiven] at htotp
      | some given =>
        cases given with
        | some v => exact ⟨.totp, .inl ⟨v, hgiven⟩⟩
        | none =>
          refine ⟨.totp, .inr ⟨hgiven, ?_⟩⟩
          rw [hw.current, ← Option.isSome_iff_ne_none, hw.fields]
          refine totp_mem_secretNames.2 (hs.totp ▸ ?_)
          simpa [hgiven] using htotp
  · intro h
    obtain ⟨item, hitem⟩ := h
    by_contra hc
    rw [Bool.not_eq_true] at hc
    obtain ⟨hsecrets, hseal, hnames, htotp⟩ := CredentialChange.of_not_changed hc
    have hsame := sets_of_not_changed hw.intact hs.toAgrees hc item
    rcases hitem with ⟨v, hset⟩ | ⟨hset, hthere⟩
    · cases item with
      | password => simp [CredentialChange.sets, hsecrets] at hset
      | totp =>
        rcases htotp with htotp | ⟨htotp, -⟩ <;> simp [CredentialChange.sets, htotp] at hset
      | field n => by_cases hn : n ∈ c.details.fields.kept <;>
          simp [CredentialChange.sets, hseal, hn] at hset
    · rw [hset] at hsame
      exact hthere hsame.symm

/-! ## What a request leaves -/

theorem mem_kept {f : String} : f ∈ c.kept ↔ (∃ n ∈ c.details.fields.kept, f = secretName n) ∨
    (f = passwordField ∧ c.secrets = none) ∨
      (f = totpField ∧ c.totp = none ∧ c.hadTotp = true) := by
  unfold CredentialChange.kept
  rw [List.mem_append, List.mem_append, List.mem_map, or_assoc]
  refine or_congr (by simp [eq_comm]) (or_congr ?_ ?_)
  · cases c.secrets <;> simp
  · cases c.totp <;> cases c.hadTotp <;> simp

/-- What a change that makes a new version writes has a name in it. -/
theorem mem_of_written {f v : String} (hs : Sound c row)
    (h : (f ∈ c.kept ∨ ∃ x ∈ c.details.fields.toSeal, f = secretName x.1 ∧ v = x.2) ∨
      (∃ s, c.secrets = some s ∧ (f, v) ∈ s.fields) ∨ (f = totpField ∧ c.totp = some (some v))) :
    f ∈ (c.apply row).secretNames := by
  have hfield : ∀ n, n ∈ c.details.fields.toSeal.map (·.1) ++ c.details.fields.kept →
      secretName n ∈ (c.apply row).secretNames := by
    intro n hn
    exact secretName_mem_secretNames.2 ((c.details.fields.mem_protected n).2 hn)
  have htotp : c.hasTotp = true → totpField ∈ (c.apply row).secretNames :=
    fun hhas => totp_mem_secretNames.2 hhas
  rcases h with (hkept | ⟨x, hx, rfl, -⟩) | ⟨s, hsome, hf⟩ | ⟨rfl, hgiven⟩
  · rcases mem_kept.1 hkept with ⟨n, hn, rfl⟩ | ⟨rfl, -⟩ | ⟨rfl, hnone, hhad⟩
    · exact hfield n (List.mem_append.2 (.inr hn))
    · exact password_mem_secretNames
    · exact htotp (by simp [CredentialChange.hasTotp, hnone, hhad])
  · exact hfield x.1 (List.mem_append.2 (.inl (List.mem_map.2 ⟨x, hx, rfl⟩)))
  · obtain ⟨p, rfl⟩ := hs.secrets s hsome
    simp only [Secrets.fields, List.mem_singleton, Prod.mk.injEq] at hf
    rw [hf.1]
    exact password_mem_secretNames
  · exact htotp (by simp [CredentialChange.hasTotp, hgiven])

/-- What a row tells of is there after the update. -/
theorem current_of_mem (hw : Whole db id row) (hs : Sound c row)
    (h : db.writeCredential id c = .ok db') {item : Item}
    (hitem : item.sealedAs ∈ (c.apply row).secretNames) : db'.current id item ≠ none := by
  rw [current_writeCredential hw.intact hs.toAgrees h]
  have hold : item.sealedAs ∈ row.secretNames → db.current id item ≠ none := by
    intro hmem
    rw [hw.current, ← Option.isSome_iff_ne_none, hw.fields]
    exact hmem
  cases item with
  | password =>
    cases hsome : c.secrets with
    | none =>
      simp only [CredentialChange.sets, hsome, Option.map_none, Option.getD_none]
      exact hold password_mem_secretNames
    | some s =>
      obtain ⟨p, rfl⟩ := hs.secrets s hsome
      simp [CredentialChange.sets, hsome, Secrets.fields]
  | totp =>
    have hhas : c.hasTotp = true := totp_mem_secretNames.1 hitem
    unfold CredentialChange.hasTotp at hhas
    cases hgiven : c.totp with
    | none =>
      simp only [CredentialChange.sets, hgiven, Option.getD_none]
      refine hold (totp_mem_secretNames.2 (hs.totp ▸ ?_))
      simpa [hgiven] using hhas
    | some given =>
      simp only [hgiven, Option.elim_some] at hhas
      simp only [CredentialChange.sets, hgiven, Option.getD_some]
      exact Option.isSome_iff_ne_none.1 hhas
  | field n =>
    have hn : n ∈ protectedNames c.details.fields.stored := secretName_mem_secretNames.1 hitem
    rw [c.details.fields.mem_protected, List.mem_append] at hn
    cases hlookup : c.details.fields.toSeal.lookup n with
    | some v => simp [CredentialChange.sets, hlookup]
    | none =>
      have hkept : n ∈ c.details.fields.kept := by
        refine hn.resolve_left fun hseal => ?_
        obtain ⟨x, hx, rfl⟩ := List.mem_map.1 hseal
        have hsome := (HashMap.lookup_rows (List.nodup_append.1 c.details.fields.nodup).1).2 hx
        rw [hlookup] at hsome
        cases hsome
      simp only [CredentialChange.sets, hlookup, hkept, if_true, Option.getD_none]
      exact hold (secretName_mem_secretNames.2 (hs.kept n hkept))

theorem exists_item {f : String} (h : f ∈ row.secretNames) : ∃ item : Item, item.sealedAs = f := by
  rcases mem_secretNames.1 h with rfl | ⟨n, -, rfl⟩ | ⟨rfl, -⟩
  · exact ⟨.password, rfl⟩
  · exact ⟨.field n, rfl⟩
  · exact ⟨.totp, rfl⟩

/-- A change that makes no new version leaves the names of the secrets. -/
theorem mem_of_not_changed {f : String} (hs : Sound c row) (hc : c.changed = false)
    (h : f ∈ row.secretNames) : f ∈ (c.apply row).secretNames := by
  have ha : Agrees c (c.apply row) := hs.toAgrees.of_not_changed hs.toAgrees hc
  rcases mem_secretNames.1 h with rfl | ⟨n, hn, rfl⟩ | ⟨rfl, htotp⟩
  · exact password_mem_secretNames
  · exact secretName_mem_secretNames.2 ((ha.fields n).1 ((hs.fields n).2 hn))
  · exact totp_mem_secretNames.2 (by rw [← ha.totp, hs.totp, htotp])

/-- **An update** leaves the credential whole. -/
theorem whole_writeCredential (hw : Whole db id row) (hs : Sound c row)
    (h : db.writeCredential id c = .ok db') : Whole db' id (c.apply row) := by
  have hi := intact_writeCredential hw.intact hs.toAgrees h
  refine ⟨hi.found, fun f => ⟨fun hf => ?_, fun hf => ?_⟩, hs.nodup, hi.above⟩
  · obtain ⟨v, hv⟩ := Option.isSome_iff_exists.1 hf
    obtain ⟨-, hstored⟩ := writeCredential_ok hw.found hs.version.le h
    rw [hstored.lookup] at hv
    rcases hv with hnew | hold
    · exact mem_of_written hs (hnew.imp_left fun hcopies => hcopies.2.imp_left And.left)
    · have hold : db.secretFields.lookup (id, (c.apply row).version, f) = some v := hold
      cases hc : c.changed with
      | true =>
        have hversion : (c.apply row).version = row.version + 1 := by simp [CredentialChange.apply, hc]
        have hnone := hw.above (c.apply row).version f (by omega)
        rw [hnone] at hold
        cases hold
      | false =>
        have hversion : (c.apply row).version = row.version := by simp [CredentialChange.apply, hc]
        rw [hversion] at hold
        exact mem_of_not_changed hs hc ((hw.fields f).1 (Option.isSome_of_mem hold))
  · obtain ⟨item, rfl⟩ := exists_item hf
    rw [Option.isSome_iff_ne_none, ← hi.current]
    exact current_of_mem hw hs h hf

/-- **A new credential** is whole. -/
theorem whole_createCredential {caller : Caller} {input : CredentialInput}
    (hnew : ∀ version f, db.secretFields.lookup (id, version, f) = none)
    (h : db.createCredential crates caller id input = .ok db') : ∃ row, Whole db' id row := by
  obtain ⟨row, details, totp, password, hdetails, hkept, hversion, hfields, htotp, hcredentials,
    hstored⟩ := createCredential_ok h
  have hlookup : ∀ f v, db'.secretFields.lookup (id, row.version, f) = some v ↔
      ((f = passwordField ∧ v = password) ∨
        ∃ x ∈ details.fields.toSeal, f = secretName x.1 ∧ v = x.2) ∨
      (f = totpField ∧ totp = some v) := by
    intro f v
    rw [hversion, hstored.lookup]
    show _ ∨ db.secretFields.lookup _ = some v ↔ _
    rw [hnew]
    simp [Secrets.fields]
  have hnames : ∀ n, n ∈ protectedNames row.fields ↔ n ∈ details.fields.toSeal.map (·.1) := by
    intro n
    rw [hfields, details.fields.mem_protected, hkept, List.append_nil]
  refine ⟨row, ?_, fun f => ?_, hfields ▸ details_nodup hdetails, fun version f hlt => ?_⟩
  · rw [hcredentials]
    exact AList.lookup_insert _
  · rw [Option.isSome_iff_exists, mem_secretNames]
    constructor
    · intro hf
      obtain ⟨v, hv⟩ := hf
      rcases (hlookup f v).1 hv with (⟨rfl, -⟩ | ⟨x, hx, rfl, -⟩) | ⟨rfl, hgiven⟩
      · exact .inl rfl
      · exact .inr (.inl ⟨x.1, (hnames x.1).2 (List.mem_map.2 ⟨x, hx, rfl⟩), rfl⟩)
      · exact .inr (.inr ⟨rfl, by rw [htotp, hgiven]; rfl⟩)
    · intro hf
      rcases hf with rfl | ⟨n, hn, rfl⟩ | ⟨rfl, hhas⟩
      · exact ⟨password, (hlookup _ _).2 (.inl (.inl ⟨rfl, rfl⟩))⟩
      · obtain ⟨x, hx, rfl⟩ := List.mem_map.1 ((hnames n).1 hn)
        exact ⟨x.2, (hlookup _ _).2 (.inl (.inr ⟨x, hx, rfl, rfl⟩))⟩
      · rw [htotp] at hhas
        obtain ⟨v, hv⟩ := Option.isSome_iff_exists.1 hhas
        exact ⟨v, (hlookup _ _).2 (.inr ⟨rfl, hv⟩)⟩
  · rw [hstored.other (id, version, f) (.inr (by show version ≠ 1; omega))]
    exact hnew version f

/-! ## Runs -/

/-- Every credential is whole. -/
def Inv (db : Db) : Prop := ∀ id row, db.credentials.lookup id = some row → Whole db id row

/-- What was sealed for a credential up to its current version stays as it is. -/
structure Keeps (db db' : Db) : Prop where
  rows : ∀ id row, db.credentials.lookup id = some row →
    ∃ row', db'.credentials.lookup id = some row' ∧ row.version ≤ row'.version
  fields : ∀ id row, db.credentials.lookup id = some row → ∀ version f, version ≤ row.version →
    db'.secretFields.lookup (id, version, f) = db.secretFields.lookup (id, version, f)

theorem Keeps.refl (db : Db) : Keeps db db where
  rows _ row hrow := ⟨row, hrow, le_refl _⟩
  fields _ _ _ _ _ _ := rfl

theorem Keeps.trans {db₁ db₂ db₃ : Db} (h : Keeps db₁ db₂) (h' : Keeps db₂ db₃) : Keeps db₁ db₃ where
  rows id row hrow := by
    obtain ⟨row₂, hrow₂, hle⟩ := h.rows id row hrow
    obtain ⟨row₃, hrow₃, hle'⟩ := h'.rows id row₂ hrow₂
    exact ⟨row₃, hrow₃, hle.trans hle'⟩
  fields id row hrow version f hversion := by
    obtain ⟨row₂, hrow₂, hle⟩ := h.rows id row hrow
    rw [h'.fields id row₂ hrow₂ version f (hversion.trans hle),
      h.fields id row hrow version f hversion]

theorem Whole.congr (h : Whole db id row)
    (hrow : db'.credentials.lookup id = db.credentials.lookup id)
    (hfields : ∀ version f, db'.secretFields.lookup (id, version, f) =
      db.secretFields.lookup (id, version, f)) : Whole db' id row where
  found := hrow.trans h.found
  fields f := by rw [hfields, h.fields]
  nodup := h.nodup
  above version f hlt := by rw [hfields, h.above version f hlt]

/-- A request that writes one credential, whole before and after. -/
theorem step_of_one (hinv : Inv db) {new : CredentialRow} (hnew : Whole db' id new)
    (hother : ∀ other, other ≠ id → db'.credentials.lookup other = db.credentials.lookup other ∧
      ∀ version f, db'.secretFields.lookup (other, version, f) =
        db.secretFields.lookup (other, version, f))
    (hown : ∀ row, db.credentials.lookup id = some row → row.version ≤ new.version ∧
      ∀ version f, version ≤ row.version → db'.secretFields.lookup (id, version, f) =
        db.secretFields.lookup (id, version, f)) : Inv db' ∧ Keeps db db' := by
  refine ⟨fun other row hrow => ?_, fun other row hrow => ?_, fun other row hrow version f hle => ?_⟩
  · by_cases hid : other = id
    · subst hid
      rw [hnew.found] at hrow
      cases hrow
      exact hnew
    · obtain ⟨hsame, hfields⟩ := hother other hid
      exact (hinv other row (hsame ▸ hrow)).congr hsame hfields
  · by_cases hid : other = id
    · subst hid
      exact ⟨new, hnew.found, (hown row hrow).1⟩
    · exact ⟨row, (hother other hid).1 ▸ hrow, le_refl _⟩
  · by_cases hid : other = id
    · subst hid
      exact (hown row hrow).2 version f hle
    · exact (hother other hid).2 version f

theorem create_keeps {caller : Caller} {input : CredentialInput} (hinv : Inv db)
    (hfresh : ¬∃ e ∈ db.secretFields.entries, e.1.1 = id)
    (h : db.createCredential crates caller id input = .ok db') : Inv db' ∧ Keeps db db' := by
  have hnone : ∀ version f, db.secretFields.lookup (id, version, f) = none := by
    intro version f
    refine Option.eq_none_iff_forall_ne_some.2 fun v hv => hfresh ?_
    exact ⟨_, HashMap.lookup_eq_some.1 hv, rfl⟩
  obtain ⟨new, hnew⟩ := whole_createCredential hnone h
  obtain ⟨row, details, totp, password, -, -, -, -, -, hcredentials, hstored⟩ :=
    createCredential_ok h
  refine step_of_one hinv hnew (fun other hid => ⟨?_, fun version f => ?_⟩) fun row hrow => ?_
  · rw [hcredentials, HashMap.lookup_insert_eq, if_neg hid]
  · exact hstored.other (other, version, f) (.inl hid)
  · -- a credential there is has its password sealed
    have hpassword := ((hinv id row hrow).fields passwordField).2 password_mem_secretNames
    rw [hnone] at hpassword
    cases hpassword

/-- An update leaves the versions there are. -/
theorem older_writeCredential (hw : Whole db id row) (hs : Sound c row)
    (h : db.writeCredential id c = .ok db') {version : Int} {f : String}
    (hle : version ≤ row.version) :
    db'.secretFields.lookup (id, version, f) = db.secretFields.lookup (id, version, f) := by
  obtain ⟨-, hstored⟩ := writeCredential_ok hw.found hs.version.le h
  by_cases hversion : version = (c.apply row).version
  · have hc : c.changed = false := by
      by_contra hc
      rw [Bool.not_eq_false] at hc
      have hnext : (c.apply row).version = row.version + 1 := by simp [CredentialChange.apply, hc]
      omega
    obtain ⟨hsecrets, -, -, htotp⟩ := CredentialChange.of_not_changed hc
    refine Option.ext fun v => ?_
    have hno : c.totp ≠ some (some v) := by
      rcases htotp with htotp | ⟨htotp, -⟩ <;> simp [htotp]
    rw [hversion, hstored.lookup]
    simp [hc, hsecrets, hno]
  · exact hstored.other (id, version, f) (.inr hversion)

theorem version_apply_le : row.version ≤ (c.apply row).version := by
  show row.version ≤ row.version + if c.changed then 1 else 0
  split <;> omega

theorem update_keeps {caller : Caller} {input : CredentialInput} (hinv : Inv db)
    (h : db.updateCredential crates caller id input = .ok db') : Inv db' ∧ Keeps db db' := by
  obtain ⟨c, hread, hwrite⟩ := bind_eq_ok.1 h
  obtain ⟨row, hrow, hs⟩ := readCredential_sound hread
  have hw := hinv id row hrow
  refine step_of_one hinv (whole_writeCredential hw hs hwrite)
    (fun other hid => other_writeCredential hid hrow hs.version.le hwrite) fun row' hrow' => ?_
  rw [hrow] at hrow'
  cases hrow'
  exact ⟨version_apply_le, fun version f hle => older_writeCredential hw hs hwrite hle⟩

theorem step_keeps {e : Event} (hinv : Inv db) (h : step crates db e = some db') :
    Inv db' ∧ Keeps db db' := by
  cases e with
  | create caller id input =>
    simp only [step] at h
    split at h
    · cases h
    · rename_i hfresh
      cases h
      cases hcreate : db.createCredential crates caller id input with
      | ok db'' => exact create_keeps hinv hfresh hcreate
      | error _ => exact ⟨hinv, Keeps.refl db⟩
  | update caller id input =>
    cases h
    cases hupdate : db.updateCredential crates caller id input with
    | ok db'' => exact update_keeps hinv hupdate
    | error _ => exact ⟨hinv, Keeps.refl db⟩
  | elsewhere folders collections devices profiles grants connectors =>
    cases h
    exact ⟨fun id row hrow => (hinv id row hrow).congr rfl fun _ _ => rfl,
      fun _ row hrow => ⟨row, hrow, le_refl _⟩, fun _ _ _ _ _ _ => rfl⟩

theorem run_keeps {es : List Event} (hinv : Inv db) (h : Run.run (step crates) db es = some db') :
    Inv db' ∧ Keeps db db' := by
  refine Run.inv_of_run (I := fun _ now => Inv now ∧ Keeps db now) ⟨hinv, Keeps.refl db⟩ ?_ h
  intro es now e next hrun hstep ⟨hnow, hkeeps⟩
  obtain ⟨hnext, hkeeps'⟩ := step_keeps hnow hstep
  exact ⟨hnext, hkeeps.trans hkeeps'⟩

/-- What an update makes of the credential it finds. -/
theorem update_spec {caller : Caller} {input : CredentialInput} (hinv : Inv db)
    (hrow : db.credentials.lookup id = some row)
    (h : db.updateCredential crates caller id input = .ok db') :
    ∃ c row', db.readCredential crates (db.catalog caller.now) caller.subject id input = .ok c ∧
      db'.credentials.lookup id = some row' ∧
      (row'.version = row.version ∧ (¬∃ item, c.Touches db id item) ∨
        row'.version = row.version + 1 ∧ ∃ item, c.Touches db id item) ∧
      ∀ item, c.sets item = none → db'.current id item = db.current id item := by
  obtain ⟨c, hread, hwrite⟩ := bind_eq_ok.1 h
  obtain ⟨row', hrow', hs⟩ := readCredential_sound hread
  rw [hrow] at hrow'
  cases hrow'
  have hw := hinv id row hrow
  refine ⟨c, c.apply row, hread, (whole_writeCredential hw hs hwrite).found, ?_, fun item hitem => ?_⟩
  · rw [← changed_iff_touches hw hs]
    cases hc : c.changed with
    | true => exact .inr ⟨by simp [CredentialChange.apply, hc], rfl⟩
    | false => exact .inl ⟨by simp [CredentialChange.apply, hc], Bool.false_ne_true⟩
  · rw [current_writeCredential hw.intact hs.toAgrees hwrite, hitem]
    rfl

/-- **The versions of a credential**, for any requests one after another from a state without
credentials: a version that is current after some of them has exactly the sealed fields its row
tells of, each once, and after any further requests it still has them, with the same values. An
update makes the next version exactly when it sets or removes a secret, and the secrets it does not
set are those of the version before; one that is refused leaves the state. -/
theorem versions_stay_whole (crates : Crates) (start : Db) (hstart : start.credentials = ∅)
    (es es' : List Event) (db db' : Db) (hrun : Run.run (step crates) start es = some db)
    (hrun' : Run.run (step crates) db es' = some db') :
    (∀ id row, db.credentials.lookup id = some row → row.secretNames.Nodup ∧
      ∀ f, ((db'.secretFields.lookup (id, row.version, f)).isSome ↔ f ∈ row.secretNames) ∧
        db'.secretFields.lookup (id, row.version, f) =
          db.secretFields.lookup (id, row.version, f)) ∧
    (∀ caller id input row next, db.credentials.lookup id = some row →
      db.updateCredential crates caller id input = .ok next →
      ∃ c row', db.readCredential crates (db.catalog caller.now) caller.subject id input = .ok c ∧
        next.credentials.lookup id = some row' ∧
        (row'.version = row.version ∧ (¬∃ item, c.Touches db id item) ∨
          row'.version = row.version + 1 ∧ ∃ item, c.Touches db id item) ∧
        ∀ item, c.sets item = none → next.current id item = db.current id item) ∧
    (∀ caller id input problem, db.updateCredential crates caller id input = .error problem →
      step crates db (.update caller id input) = some db) := by
  have hempty : Inv start := by
    intro id row hrow
    rw [hstart] at hrow
    cases hrow
  obtain ⟨hinv, -⟩ := run_keeps hempty hrun
  obtain ⟨-, hkeeps⟩ := run_keeps hinv hrun'
  refine ⟨fun id row hrow => ⟨secretNames_nodup (hinv id row hrow).nodup, fun f => ?_⟩,
    fun caller id input row next hrow h => update_spec hinv hrow h, ?_⟩
  · have hsame := hkeeps.fields id row hrow row.version f (le_refl _)
    exact ⟨by rw [hsame, (hinv id row hrow).fields], hsame⟩
  · intro caller id input problem h
    simp only [step, h, Db.settle]

/-- A collection without credentials. -/
def emptyVault : Db where
  collections := .collect [(1, { parentId := none, name := "Network" })]

def admin : Caller := ⟨⟨∅, true⟩, 0⟩

def created : CredentialInput :=
  { collectionId := 1, name := "router", secrets := { password := some "old" } }

/-- A protected field makes version 2; version 1 stays as it was. -/
theorem versions_stay_whole_new_field :
    ∃ db db', Run.run (step Updates.noCrates) emptyVault [.create admin 7 created] = some db ∧
      Run.run (step Updates.noCrates) db [.update admin 7 Updates.newPin] = some db' ∧
      db'.current 7 (.field "PIN") = some "1234" ∧ db'.current 7 .password = some "old" ∧
      ∀ f, (db'.secretFields.lookup (7, 1, f)).isSome ↔ f ∈ [passwordField] := by
  have hrun : ((Run.run (step Updates.noCrates) emptyVault [.create admin 7 created]).bind fun db =>
      (Run.run (step Updates.noCrates) db [.update admin 7 Updates.newPin]).map fun db' =>
        ((db.credentials.lookup 7).map fun row => (row.version, row.secretNames),
          db'.current 7 (.field "PIN"), db'.current 7 .password)) =
      some (some (1, [passwordField]), some "1234", some "old") := by decide
  obtain ⟨db, hdb, hrun⟩ := Option.bind_eq_some_iff.1 hrun
  obtain ⟨db', hdb', hrun⟩ := Option.map_eq_some_iff.1 hrun
  rw [Prod.mk.injEq, Prod.mk.injEq] at hrun
  obtain ⟨hrow, hpin, hpassword⟩ := hrun
  obtain ⟨row, hrow, hrow'⟩ := Option.map_eq_some_iff.1 hrow
  rw [Prod.mk.injEq] at hrow'
  refine ⟨db, db', hdb, hdb', hpin, hpassword, fun f => ?_⟩
  have hwhole := (versions_stay_whole Updates.noCrates emptyVault rfl _ _ db db' hdb hdb').1 7 row hrow
  rw [← hrow'.1, ← hrow'.2]
  exact (hwhole.2 f).1

end Versions

end Server
