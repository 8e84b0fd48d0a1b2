import RemoteHub.Vault.Keyring
import RemoteHub.Vault.Proof.Binding

/-!
# Key rotation keeps every secret

`parse_ok_iff`: the key file is accepted exactly if its lines with keys hold valid ones with distinct
versions, and there is one; the keys are those of the lines, in whatever order they stand.

A value sealed under a version of the ring stays so while keys are added, and its plaintext with it
(`Sound`, kept by every step); rewrapping moves it to the highest version
(`rotation_keeps_secrets`).
-/

namespace Vault

open Except Text

namespace FileKeyring

variable {decode : Decode}

/-! ## The file -/

/-- The line says that `key` has the version. -/
def HoldsKey (decode : Decode) (line : String) (version : Int) (key : Key) : Prop :=
  ∃ number encoded, splitOnce ':' (trim line) = some (number, encoded) ∧
    parseSigned (-2 ^ 31) (2 ^ 31 - 1) (trim number) = some version ∧ 1 ≤ version ∧
    decode (trim encoded) = some key.toList

theorem keyOf_eq_ok {n : Nat} {line : String} {version : Int} {key : Key} :
    keyOf decode n (trim line) = .ok (version, key) ↔ HoldsKey decode line version key := by
  constructor
  · intro h
    obtain ⟨⟨number, encoded⟩, hsplit, h⟩ := bind_eq_ok.1 h
    obtain ⟨v, hversion, h⟩ := bind_eq_ok.1 h
    obtain ⟨_, hpositive, h⟩ := bind_eq_ok.1 h
    obtain ⟨bytes, hbytes, h⟩ := bind_eq_ok.1 h
    have hpositive := refuse_eq_ok.1 hpositive
    split at h
    · rename_i key' hkey
      cases h
      refine ⟨number, encoded, elim_eq_ok.1 hsplit, elim_eq_ok.1 hversion, by omega, ?_⟩
      rw [elim_eq_ok.1 hbytes, toKey_eq_ok.1 hkey]
    · cases h
  · intro h
    obtain ⟨number, encoded, hsplit, hversion, hpositive, hbytes⟩ := h
    refine bind_eq_ok.2 ⟨(number, encoded), elim_eq_ok.2 hsplit, ?_⟩
    refine bind_eq_ok.2 ⟨version, elim_eq_ok.2 hversion, ?_⟩
    refine bind_eq_ok.2 ⟨(), refuse_eq_ok.2 (by omega), ?_⟩
    refine bind_eq_ok.2 ⟨key.toList, elim_eq_ok.2 hbytes, ?_⟩
    rw [toKey_toList]
    rfl

/-- The lines hold the keys of the entries, one each. -/
def Hold (decode : Decode) (lines : List String) (entries : List (Int × Key)) : Prop :=
  List.Forall₂ (fun line entry => HoldsKey decode line entry.1 entry.2) lines entries

/-- The keys of the entries, one after another. -/
def insertAll (keys : HashMap Int Key) (entries : List (Int × Key)) : HashMap Int Key :=
  entries.foldl (fun keys entry => keys.insert entry.1 entry.2) keys

theorem addLine_ignored {keys : HashMap Int Key} {line : String × Nat} (h : ignored line.1 = true) :
    addLine decode keys line = .ok keys := by
  unfold addLine
  rw [if_pos h]
  rfl

theorem addLine_eq_ok {keys keys' : HashMap Int Key} {line : String × Nat}
    (h : ignored line.1 = false) :
    addLine decode keys line = .ok keys' ↔ ∃ version key, HoldsKey decode line.1 version key ∧
      version ∉ keys ∧ keys' = keys.insert version key := by
  unfold addLine
  rw [h]
  constructor
  · intro h
    obtain ⟨⟨version, key⟩, hkey, h⟩ := bind_eq_ok.1 h
    obtain ⟨_, hnew, h⟩ := bind_eq_ok.1 h
    cases h
    exact ⟨version, key, keyOf_eq_ok.1 hkey, refuse_eq_ok.1 hnew, rfl⟩
  · intro h
    obtain ⟨version, key, hkey, hnew, rfl⟩ := h
    refine bind_eq_ok.2 ⟨(version, key), keyOf_eq_ok.2 hkey, ?_⟩
    exact bind_eq_ok.2 ⟨(), refuse_eq_ok.2 hnew, rfl⟩

/-- What the loop over the lines accepts, and the keys it ends with. -/
theorem foldlM_addLine {rows : List (String × Nat)} {keys keys' : HashMap Int Key} :
    rows.foldlM (addLine decode) keys = .ok keys' ↔
      ∃ entries, Hold decode ((rows.map (·.1)).filter fun line => !ignored line) entries ∧
        (entries.map (·.1)).Nodup ∧ (∀ entry ∈ entries, entry.1 ∉ keys) ∧
        keys' = insertAll keys entries := by
  induction rows generalizing keys with
  | nil =>
    constructor
    · intro h
      cases h
      exact ⟨[], .nil, List.nodup_nil, nofun, rfl⟩
    · intro h
      obtain ⟨entries, hhold, -, -, rfl⟩ := h
      cases hhold
      rfl
  | cons row rows ih =>
    rw [List.foldlM_cons]
    by_cases hrow : ignored row.1 = true
    · rw [addLine_ignored hrow, List.map_cons, List.filter_cons_of_neg (by simp [hrow])]
      exact ih
    · have hrow : ignored row.1 = false := by simpa using hrow
      rw [List.map_cons, List.filter_cons_of_pos (by simp [hrow])]
      constructor
      · intro h
        obtain ⟨mid, hmid, h⟩ := bind_eq_ok.1 h
        obtain ⟨version, key, hkey, hnew, rfl⟩ := (addLine_eq_ok hrow).1 hmid
        obtain ⟨entries, hhold, hnodup, hfresh, rfl⟩ := ih.1 h
        refine ⟨(version, key) :: entries, .cons hkey hhold, ?_, ?_, rfl⟩
        · refine List.nodup_cons.2 ⟨fun hmem => ?_, hnodup⟩
          obtain ⟨entry, hentry, hsame⟩ := List.mem_map.1 hmem
          exact hfresh entry hentry ((AList.mem_insert _).2 (.inl hsame))
        · intro entry hentry
          rcases List.mem_cons.1 hentry with rfl | hentry
          · exact hnew
          · exact fun hmem => hfresh entry hentry ((AList.mem_insert _).2 (.inr hmem))
      · intro h
        obtain ⟨entries, hhold, hnodup, hfresh, rfl⟩ := h
        cases hhold with
        | @cons _ entry _ entries hkey hhold =>
          obtain ⟨hnot, hnodup⟩ := List.nodup_cons.1 hnodup
          refine bind_eq_ok.2 ⟨keys.insert entry.1 entry.2, (addLine_eq_ok hrow).2
            ⟨entry.1, entry.2, hkey, hfresh entry List.mem_cons_self, rfl⟩, ?_⟩
          refine ih.2 ⟨entries, hhold, hnodup, fun other hother hmem => ?_, rfl⟩
          rcases (AList.mem_insert _).1 hmem with hsame | hmem
          · exact hnot (List.mem_map.2 ⟨other, hother, hsame⟩)
          · exact hfresh other (List.mem_cons_of_mem _ hother) hmem

theorem lookup_insertAll {entries : List (Int × Key)} (h : (entries.map (·.1)).Nodup) {version : Int}
    {key : Key} : (insertAll ∅ entries).lookup version = some key ↔ (version, key) ∈ entries := by
  have hreverse : (entries.reverse.map (·.1)).Nodup := by
    rw [List.map_reverse]
    exact List.nodup_reverse.2 h
  show (HashMap.collect entries).lookup version = some key ↔ _
  rw [HashMap.lookup_collect, HashMap.lookup_rows hreverse, List.mem_reverse]

theorem map_fst_lines (content : String) :
    ((lines content).zipIdx.map (·.1)).filter (fun line => !ignored line) =
      Rotation.keyLines content := by
  rw [List.zipIdx_map_fst]
  rfl

/-- **What the key file accepts.** -/
theorem parse_ok_iff {content : String} {ring : FileKeyring} :
    parse decode content = .ok ring ↔ ∃ entries, Hold decode (Rotation.keyLines content) entries ∧
      (entries.map (·.1)).Nodup ∧ ring.keys = insertAll ∅ entries := by
  unfold parse
  constructor
  · intro h
    obtain ⟨keys, hkeys, h⟩ := bind_eq_ok.1 h
    obtain ⟨entries, hhold, hnodup, -, rfl⟩ := foldlM_addLine.1 hkeys
    rw [map_fst_lines] at hhold
    split at h
    · cases h
    · cases h
      exact ⟨entries, hhold, hnodup, rfl⟩
  · intro h
    obtain ⟨entries, hhold, hnodup, hkeys⟩ := h
    have hfold : (lines content).zipIdx.foldlM (addLine decode) ∅ = .ok (insertAll ∅ entries) := by
      refine foldlM_addLine.2 ⟨entries, ?_, hnodup, fun entry _ => ?_, rfl⟩
      · rw [map_fst_lines]
        exact hhold
      · simp
    refine bind_eq_ok.2 ⟨_, hfold, ?_⟩
    rw [← hkeys]
    split
    · rename_i hnone
      rw [ring.isMax] at hnone
      cases hnone
    · rename_i current hsome
      rw [ring.isMax] at hsome
      cases hsome
      rfl

theorem HoldsKey.unique {line : String} {v v' : Int} {key key' : Key}
    (h : HoldsKey decode line v key) (h' : HoldsKey decode line v' key') : v = v' ∧ key = key' := by
  have hone := keyOf_eq_ok (n := 0).2 h
  rw [keyOf_eq_ok (n := 0).2 h'] at hone
  cases hone
  exact ⟨rfl, rfl⟩

theorem Hold.mem_iff {lines : List String} {entries : List (Int × Key)}
    (h : Hold decode lines entries) {version : Int} {key : Key} :
    (version, key) ∈ entries ↔ ∃ line ∈ lines, HoldsKey decode line version key := by
  induction h with
  | nil => simp
  | @cons line entry lines entries hkey _ ih =>
    rw [List.mem_cons, ih, List.exists_mem_cons_iff]
    refine or_congr_left ⟨fun hentry => ?_, fun hline => ?_⟩
    · rw [← hentry] at hkey
      exact hkey
    · obtain ⟨hversion, hsame⟩ := hline.unique hkey
      rw [hversion, hsame]

/-- The keys are those of the lines, whatever their order. -/
theorem lookup_parse {content : String} {ring : FileKeyring} (h : parse decode content = .ok ring)
    {version : Int} {key : Key} :
    ring.keys.lookup version = some key ↔
      ∃ line ∈ Rotation.keyLines content, HoldsKey decode line version key := by
  obtain ⟨entries, hhold, hnodup, hkeys⟩ := parse_ok_iff.1 h
  rw [hkeys, lookup_insertAll hnodup]
  exact hhold.mem_iff

theorem mem_insertAll {entries : List (Int × Key)} {version : Int} :
    version ∈ insertAll ∅ entries ↔ version ∈ entries.map (·.1) :=
  HashMap.mem_collect entries version

theorem exists_parse_iff {content : String} :
    (∃ ring, parse decode content = .ok ring) ↔
      ∃ entries, entries ≠ [] ∧ Hold decode (Rotation.keyLines content) entries ∧
        (entries.map (·.1)).Nodup := by
  constructor
  · intro h
    obtain ⟨ring, hring⟩ := h
    obtain ⟨entries, hhold, hnodup, hkeys⟩ := parse_ok_iff.1 hring
    refine ⟨entries, fun hnil => ?_, hhold, hnodup⟩
    have hmax := ring.isMax
    rw [hkeys, hnil] at hmax
    cases hmax
  · intro h
    obtain ⟨entries, hne, hhold, hnodup⟩ := h
    cases hmax : (insertAll ∅ entries).keys.max? with
    | none =>
      obtain ⟨entry, hentry⟩ := List.exists_mem_of_ne_nil entries hne
      have hmem : entry.1 ∈ (insertAll ∅ entries).keys :=
        AList.mem_keys.1 (mem_insertAll.2 (List.mem_map_of_mem hentry))
      rw [List.max?_eq_none_iff.1 hmax] at hmem
      cases hmem
    | some current =>
      exact ⟨⟨insertAll ∅ entries, current, hmax⟩, parse_ok_iff.2 ⟨entries, hhold, hnodup, rfl⟩⟩

theorem current_mem (ring : FileKeyring) : ring.current ∈ ring.keys :=
  AList.mem_keys.2 (List.max?_mem ring.isMax)

theorem le_current (ring : FileKeyring) {version : Int} (h : version ∈ ring.keys) :
    version ≤ ring.current :=
  (List.max?_eq_some_iff.1 ring.isMax).2 version (AList.mem_keys.1 h)

/-- Files with the same lines in another order are accepted alike, and with the same keys. -/
theorem parse_perm {content content' : String} {ring : FileKeyring}
    (hperm : (Rotation.keyLines content').Perm (Rotation.keyLines content))
    (h : parse decode content = .ok ring) :
    ∃ ring', parse decode content' = .ok ring' ∧ ring'.current = ring.current ∧
      ∀ version, ring'.keys.lookup version = ring.keys.lookup version := by
  obtain ⟨entries, hne, hhold, hnodup⟩ := exists_parse_iff.1 ⟨ring, h⟩
  obtain ⟨entries', hhold', hentries⟩ := List.perm_comp_forall₂ hperm hhold
  obtain ⟨ring', hring'⟩ := exists_parse_iff.2 ⟨entries',
    fun hnil => hne (List.Perm.eq_nil (hnil ▸ hentries.symm)), hhold',
    (hentries.map _).nodup_iff.2 hnodup⟩
  have hlookup : ∀ version, ring'.keys.lookup version = ring.keys.lookup version := by
    intro version
    refine Option.ext fun key => ?_
    rw [lookup_parse hring', lookup_parse h]
    simp only [hperm.mem_iff]
  have hmem : ∀ version, version ∈ ring'.keys ↔ version ∈ ring.keys := by
    intro version
    rw [← AList.lookup_isSome, ← AList.lookup_isSome, hlookup]
  refine ⟨ring', hring', le_antisymm ?_ ?_, hlookup⟩
  · exact le_current ring ((hmem _).1 ring'.current_mem)
  · exact le_current ring' ((hmem _).2 ring.current_mem)

/-- The keys of one ring are in the other. -/
def Extends (ring ring' : FileKeyring) : Prop :=
  ∀ version key, ring.keys.lookup version = some key → ring'.keys.lookup version = some key

theorem Extends.of_subset {content content' : String} {ring ring' : FileKeyring}
    (h : parse decode content = .ok ring) (h' : parse decode content' = .ok ring')
    (hlines : Rotation.keyLines content ⊆ Rotation.keyLines content') : ring.Extends ring' := by
  intro version key hkey
  obtain ⟨line, hline, hholds⟩ := (lookup_parse h).1 hkey
  exact (lookup_parse h').2 ⟨line, hlines hline, hholds⟩

theorem Extends.trans {r r' r'' : FileKeyring} (h : r.Extends r') (h' : r'.Extends r'') :
    r.Extends r'' :=
  fun version key hkey => h' version key (h version key hkey)

theorem masterKey_eq_ok {ring : FileKeyring} {version : Int} {key : Key} :
    ring.provider.masterKey fileKeyringId version = .ok key ↔
      ring.keys.lookup version = some key := by
  simp only [provider, elim_eq_ok, Option.filter_eq_some_iff, decide_true, and_true]

/-- The ring while the version was the highest one. -/
def under (ring : FileKeyring) (version : Int) : KeyProvider :=
  { ring.provider with current := (fileKeyringId, version) }

end FileKeyring

namespace Rotation

open FileKeyring

/-! ## Values -/

variable {aead : Aead} {decode : Decode} {ring ring' : FileKeyring} {value : Value}

/-- The value was sealed, where it belongs, under a version of the ring. -/
def Made (aead : Aead) (ring : FileKeyring) (value : Value) : Prop :=
  ∃ version random,
    sealValue aead (ring.under version) random value.context value.plaintext = .ok value.sealed

theorem Made.extends (h : Made aead ring value) (hext : ring.Extends ring') :
    Made aead ring' value := by
  obtain ⟨version, random, hsealed⟩ := h
  obtain ⟨master, hmaster, h⟩ := bind_eq_ok.1 hsealed
  refine ⟨version, random, bind_eq_ok.2 ⟨master, ?_, h⟩⟩
  exact masterKey_eq_ok.2 (hext version master (masterKey_eq_ok.1 hmaster))

/-- What a sealed value is made of. -/
theorem Made.parts (h : Made aead ring value) :
    ∃ (master : Key) (random : Entropy),
      ring.keys.lookup value.sealed.kekVersion = some master ∧
      value.sealed = {
        scheme, kekId := fileKeyringId, kekVersion := value.sealed.kekVersion,
        wrappedKey := encrypt aead random.keyNonce master
          (associatedData value.context fileKeyringId value.sealed.kekVersion)
          random.dataKey.toList,
        ciphertext := encrypt aead random.nonce random.dataKey
          (associatedData value.context fileKeyringId value.sealed.kekVersion)
          value.plaintext } := by
  obtain ⟨version, random, hsealed⟩ := h
  obtain ⟨master, hmaster, hsealed⟩ := sealValue_ok hsealed
  have hversion : value.sealed.kekVersion = version := by rw [hsealed]; rfl
  rw [hversion]
  exact ⟨master, random, masterKey_eq_ok.1 hmaster, hsealed⟩

theorem decrypt_encrypt (hcorrect : aead.Correct) (nonce : Nonce) (key : Key) (aad msg : Bytes) :
    decrypt aead key aad (encrypt aead nonce key aad msg) = .ok msg := by
  rw [decrypt_encrypt_eq, hcorrect]
  rfl

/-- **A value opens with any ring that has its version's key.** -/
theorem Made.opens (hcorrect : aead.Correct) (h : Made aead ring value)
    (hkey : ring'.keys.lookup value.sealed.kekVersion = ring.keys.lookup value.sealed.kekVersion) :
    openValue aead ring'.provider value.context value.sealed = .ok value.plaintext := by
  obtain ⟨master, random, hmaster, hsealed⟩ := h.parts
  rw [hmaster] at hkey
  have hscheme : value.sealed.scheme = scheme := by rw [hsealed]
  have hid : value.sealed.kekId = fileKeyringId := by rw [hsealed]
  refine bind_eq_ok.2 ⟨(), refuse_eq_ok.2 (not_not.2 hscheme), ?_⟩
  rw [hid]
  refine bind_eq_ok.2 ⟨master, masterKey_eq_ok.2 hkey, ?_⟩
  refine bind_eq_ok.2 ⟨random.dataKey.toList, ?_, ?_⟩
  · rw [show value.sealed.wrappedKey = _ from congrArg Sealed.wrappedKey hsealed]
    exact decrypt_encrypt hcorrect _ _ _ _
  · refine bind_eq_ok.2 ⟨random.dataKey, toKey_toList _, ?_⟩
    rw [show value.sealed.ciphertext = _ from congrArg Sealed.ciphertext hsealed]
    exact decrypt_encrypt hcorrect _ _ _ _

theorem Made.kekId (h : Made aead ring value) : value.sealed.kekId = fileKeyringId := by
  obtain ⟨master, random, -, hsealed⟩ := h.parts
  rw [hsealed]

variable (aead) in
/-- The ring can always seal, under its highest version. -/
theorem exists_sealValue (ring : FileKeyring) (random : Entropy) (context : Context)
    (plaintext : Bytes) :
    ∃ sealed, sealValue aead ring.provider random context plaintext = .ok sealed ∧
      sealed.kekId = fileKeyringId ∧ sealed.kekVersion = ring.current := by
  obtain ⟨master, hmaster⟩ :=
    Option.isSome_iff_exists.1 (AList.lookup_isSome.2 ring.current_mem)
  exact ⟨_, bind_eq_ok.2 ⟨master, masterKey_eq_ok.2 hmaster, rfl⟩, rfl, rfl⟩

theorem rewrap_current (h : Made aead ring value) (hversion : value.sealed.kekVersion = ring.current)
    (random : Entropy) :
    rewrap aead ring.provider random value.context value.sealed = .ok none := by
  unfold rewrap
  rw [if_pos]
  · rfl
  · rw [h.kekId, hversion]
    rfl

theorem rewrap_older (hcorrect : aead.Correct) (h : Made aead ring value)
    (hversion : value.sealed.kekVersion ≠ ring.current) (random : Entropy) :
    ∃ sealed, rewrap aead ring.provider random value.context value.sealed = .ok (some sealed) ∧
      sealed.kekId = fileKeyringId ∧ sealed.kekVersion = ring.current ∧
      Made aead ring { value with sealed } := by
  obtain ⟨sealed, hsealed, hid, hcurrent⟩ :=
    exists_sealValue aead ring random value.context value.plaintext
  refine ⟨sealed, ?_, hid, hcurrent, ring.current, random, hsealed⟩
  unfold rewrap
  rw [if_neg]
  · refine bind_eq_ok.2 ⟨value.plaintext, h.opens hcorrect rfl, ?_⟩
    exact bind_eq_ok.2 ⟨sealed, hsealed, rfl⟩
  · intro heq
    exact hversion (congrArg Prod.snd heq)

theorem Made.rewrapped (hcorrect : aead.Correct) (h : Made aead ring value) (random : Entropy) :
    Made aead ring (rewrapped aead ring random value) ∧
      (rewrapped aead ring random value).sealed.kekVersion = ring.current := by
  unfold Rotation.rewrapped
  by_cases hversion : value.sealed.kekVersion = ring.current
  · rw [rewrap_current h hversion]
    exact ⟨h, hversion⟩
  · obtain ⟨sealed, hrewrap, -, hcurrent, hmade⟩ := rewrap_older hcorrect h hversion random
    rw [hrewrap]
    exact ⟨hmade, hcurrent⟩

/-- What a value is, whatever it is sealed with. -/
def content (value : Value) : Context × Bytes := (value.context, value.plaintext)

theorem content_rewrapped (random : Entropy) :
    content (rewrapped aead ring random value) = content value := by
  unfold Rotation.rewrapped
  split <;> rfl

/-! ## Runs -/

/-- The file has the loaded keys, and every value was sealed under one of them. -/
structure Sound (aead : Aead) (decode : Decode) (s : State) : Prop where
  file : ∃ ring, parse decode s.file = .ok ring ∧ s.ring.Extends ring
  made : ∀ value ∈ s.values, Made aead s.ring value

variable {s s' : State}

theorem of_mem_modify {α : Type} {f : α → α} {l : List α} {i : Nat} {a : α} (h : a ∈ l.modify i f) :
    a ∈ l ∨ ∃ b ∈ l, a = f b := by
  induction l generalizing i with
  | nil => simp at h
  | cons b l ih =>
    cases i with
    | zero =>
      simp only [List.modify_zero_cons, List.mem_cons] at h
      rcases h with h | h
      · exact .inr ⟨b, List.mem_cons_self, h⟩
      · exact .inl (List.mem_cons_of_mem _ h)
    | succ i =>
      simp only [List.modify_succ_cons, List.mem_cons] at h
      rcases h with h | h
      · exact .inl (h ▸ List.mem_cons_self)
      · rcases ih h with h | ⟨b', hb', h⟩
        · exact .inl (List.mem_cons_of_mem _ h)
        · exact .inr ⟨b', List.mem_cons_of_mem _ hb', h⟩

theorem map_modify {α β : Type} {f : α → α} {g : α → β} (hfg : ∀ a, g (f a) = g a) (l : List α)
    (i : Nat) : (l.modify i f).map g = l.map g := by
  induction l generalizing i with
  | nil => simp
  | cons b l ih =>
    cases i with
    | zero => simp [hfg]
    | succ i => simp [ih]

/-- A step of the rotation. -/
theorem Sound.step (hcorrect : aead.Correct) {e : Event} (hs : Sound aead decode s)
    (h : step aead decode s e = some s') :
    Sound aead decode s' ∧ s.values.map content <+: s'.values.map content := by
  obtain ⟨⟨ring, hparse, hext⟩, hmade⟩ := hs
  cases e with
  | append file added =>
    simp only [Rotation.step] at h
    split at h
    · rename_i hguard
      cases h
      simp only [Bool.and_eq_true, List.isPerm_iff] at hguard
      obtain ⟨hperm, hok⟩ := hguard
      cases hfile : parse decode file with
      | error e =>
        rw [hfile] at hok
        cases hok
      | ok ring' =>
        have hsub : keyLines s.file ⊆ keyLines file := fun line hline =>
          hperm.mem_iff.2 (List.mem_append_left _ hline)
        exact ⟨⟨⟨ring', hfile, hext.trans (.of_subset hparse hfile hsub)⟩, hmade⟩,
          List.prefix_refl _⟩
    · cases h
  | reload =>
    simp only [Rotation.step, hparse] at h
    cases h
    exact ⟨⟨⟨ring, hparse, fun _ _ hkey => hkey⟩, fun value hvalue => (hmade value hvalue).extends hext⟩,
      List.prefix_refl _⟩
  | add random context plaintext =>
    obtain ⟨sealed, hsealed, -, -⟩ := exists_sealValue aead s.ring random context plaintext
    simp only [Rotation.step, hsealed] at h
    cases h
    refine ⟨⟨⟨ring, hparse, hext⟩, fun value hvalue => ?_⟩, ?_⟩
    · rcases List.mem_append.1 hvalue with hvalue | hvalue
      · exact hmade value hvalue
      · rw [List.mem_singleton.1 hvalue]
        exact ⟨s.ring.current, random, hsealed⟩
    · rw [List.map_append]
      exact List.prefix_append _ _
  | rewrap i random =>
    cases h
    refine ⟨⟨⟨ring, hparse, hext⟩, fun value hvalue => ?_⟩, ?_⟩
    · rcases of_mem_modify hvalue with hvalue | ⟨old, hold, rfl⟩
      · exact hmade value hvalue
      · exact ((hmade old hold).rewrapped hcorrect random).1
    · rw [map_modify fun _ => content_rewrapped random]

theorem Sound.run (hcorrect : aead.Correct) (hs : Sound aead decode s) {es : List Event}
    (h : Run.run (Rotation.step aead decode) s es = some s') :
    Sound aead decode s' ∧ s.values.map content <+: s'.values.map content := by
  refine Run.inv_of_run (I := fun _ t => Sound aead decode t ∧
    s.values.map content <+: t.values.map content) ⟨hs, List.prefix_refl _⟩ ?_ h
  intro es t e t' _ hstep ht
  obtain ⟨hsound, hprefix⟩ := ht.1.step hcorrect hstep
  exact ⟨hsound, ht.2.trans hprefix⟩

/-- Every value rewrapped. -/
def rewrapAll (aead : Aead) (ring : FileKeyring) (random : Nat → Entropy) (values : List Value) :
    List Value :=
  values.mapIdx fun i value => rewrapped aead ring (random i) value

/-- What holds of the secrets throughout: they open to what they were, and rewrapping moves them to
the highest version, all at once and for good. -/
structure Lasting (aead : Aead) (s : State) : Prop where
  opens : ∀ value ∈ s.values,
    openValue aead s.ring.provider value.context value.sealed = .ok value.plaintext
  rewraps : ∀ value ∈ s.values, ∀ random,
    (value.sealed.kekVersion = s.ring.current ∧
      rewrap aead s.ring.provider random value.context value.sealed = .ok none) ∨
    (value.sealed.kekVersion ≠ s.ring.current ∧ ∃ sealed,
      rewrap aead s.ring.provider random value.context value.sealed = .ok (some sealed) ∧
      sealed.kekVersion = s.ring.current ∧
      openValue aead s.ring.provider value.context sealed = .ok value.plaintext)
  /-- Rewrapping everything once and again changes nothing. -/
  settles : ∀ random random', rewrapAll aead s.ring random' (rewrapAll aead s.ring random s.values) =
    rewrapAll aead s.ring random s.values
  /-- Then the highest version's key is enough. -/
  alone : ∀ random (only : FileKeyring),
    only.keys.lookup s.ring.current = s.ring.keys.lookup s.ring.current →
    ∀ value ∈ rewrapAll aead s.ring random s.values,
      openValue aead only.provider value.context value.sealed = .ok value.plaintext

theorem Sound.mem_rewrapAll (hcorrect : aead.Correct) (hs : Sound aead decode s)
    {random : Nat → Entropy} (h : value ∈ rewrapAll aead s.ring random s.values) :
    Made aead s.ring value ∧ value.sealed.kekVersion = s.ring.current := by
  obtain ⟨i, hi, rfl⟩ := List.mem_mapIdx.1 h
  exact (hs.made _ (List.getElem_mem hi)).rewrapped hcorrect (random i)

theorem Sound.lasting (hcorrect : aead.Correct) (hs : Sound aead decode s) : Lasting aead s where
  opens value hvalue := (hs.made value hvalue).opens hcorrect rfl
  rewraps value hvalue random := by
    have hmade := hs.made value hvalue
    by_cases hversion : value.sealed.kekVersion = s.ring.current
    · exact .inl ⟨hversion, rewrap_current hmade hversion random⟩
    · obtain ⟨sealed, hrewrap, -, hcurrent, hnew⟩ := rewrap_older hcorrect hmade hversion random
      exact .inr ⟨hversion, sealed, hrewrap, hcurrent, hnew.opens hcorrect rfl⟩
  settles random random' := by
    refine List.mapIdx_eq_iff.2 fun i => ?_
    cases hvalue : (rewrapAll aead s.ring random s.values)[i]? with
    | none => rfl
    | some value =>
      obtain ⟨hmade, hcurrent⟩ := hs.mem_rewrapAll hcorrect (List.mem_of_getElem? hvalue)
      simp only [Option.map_some, Option.some.injEq]
      unfold Rotation.rewrapped
      rw [rewrap_current hmade hcurrent]
  alone random only hkey value hvalue := by
    obtain ⟨hmade, hcurrent⟩ := hs.mem_rewrapAll hcorrect hvalue
    refine hmade.opens hcorrect ?_
    rw [hcurrent]
    exact hkey

/-- **Key rotation keeps every secret**: the key file is accepted exactly if it has lines with keys
and these hold valid ones with distinct versions; its keys are those of the lines, the highest
version current, in whatever order they stand. From any state whose values were sealed under
versions of the ring, while lines are added, the file is loaded again and values are sealed and
rewrapped in any order, every value stays what it was, opens, and can be moved to the highest
version. A value under a version that a ring lacks is refused. -/
theorem rotation_keeps_secrets (aead : Aead) (decode : Decode) (hcorrect : aead.Correct) :
    (∀ content, (∃ ring, parse decode content = .ok ring) ↔
      ∃ entries, entries ≠ [] ∧ Hold decode (keyLines content) entries ∧
        (entries.map (·.1)).Nodup) ∧
      (∀ content ring, parse decode content = .ok ring →
        (∀ version key, ring.keys.lookup version = some key ↔
          ∃ line ∈ keyLines content, HoldsKey decode line version key) ∧
        ring.current ∈ ring.keys ∧ ∀ version ∈ ring.keys, version ≤ ring.current) ∧
      (∀ content content' ring, (keyLines content').Perm (keyLines content) →
        parse decode content = .ok ring → ∃ ring', parse decode content' = .ok ring' ∧
          ring'.current = ring.current ∧
          ∀ version, ring'.keys.lookup version = ring.keys.lookup version) ∧
      (∀ start es s, parse decode start.file = .ok start.ring →
        (∀ value ∈ start.values, Made aead start.ring value) →
        Run.run (step aead decode) start es = some s →
        Lasting aead s ∧ start.values.map content <+: s.values.map content) ∧
      ∀ ring context sealed, sealed.scheme = scheme → sealed.kekVersion ∉ FileKeyring.keys ring →
        openValue aead ring.provider context sealed =
          .error (.unknownKey sealed.kekId sealed.kekVersion) := by
  refine ⟨fun _ => exists_parse_iff, ?_, ?_, ?_, ?_⟩
  · intro content ring h
    exact ⟨fun _ _ => lookup_parse h, ring.current_mem, fun _ hv => le_current ring hv⟩
  · intro content content' ring hperm h
    exact parse_perm hperm h
  · intro start es s hfile hmade hrun
    have hsound : Sound aead decode start := ⟨⟨start.ring, hfile, fun _ _ h => h⟩, hmade⟩
    obtain ⟨hs, hprefix⟩ := hsound.run hcorrect hrun
    exact ⟨hs.lasting hcorrect, hprefix⟩
  · intro ring context sealed hscheme hmissing
    have hkey : ring.provider.masterKey sealed.kekId sealed.kekVersion =
        .error (.unknownKey sealed.kekId sealed.kekVersion) := by
      simp only [provider, AList.lookup_eq_none.2 hmissing]
      rfl
    unfold openValue
    rw [hscheme, hkey]
    rfl

/-- A decoder that knows two keys. -/
def twoKeys (text : String) : Option Bytes :=
  if text = "a" then some (List.replicate 32 1)
  else if text = "b" then some (List.replicate 32 2) else none

def noRandom : Entropy := ⟨zeroes 32, zeroes 24, zeroes 24⟩

/-- A value is sealed under version 1; version 2 comes before it in the file; the value is
rewrapped. -/
def rotate : List Event :=
  [.add noRandom piped [7], .append "2:b\n# old\n1:a\n" ["2:b"], .reload, .rewrap 0 noRandom]

theorem rotation_keeps_secrets_rotate :
    ∃ ring s, parse twoKeys "1:a" = .ok ring ∧
      Run.run (step labelled twoKeys) ⟨"1:a", ring, []⟩ rotate = some s ∧
      (s.values.map fun value => (value.plaintext, value.sealed.kekVersion)) = [([7], 2)] ∧
      ∀ value ∈ s.values,
        openValue labelled s.ring.provider value.context value.sealed = .ok value.plaintext := by
  obtain ⟨-, -, -, hruns, -⟩ := rotation_keeps_secrets labelled twoKeys labelled_correct
  cases hparse : parse twoKeys "1:a" with
  | error e =>
    have hok : (parse twoKeys "1:a").isOk = true := by decide
    rw [hparse] at hok
    cases hok
  | ok ring =>
    have hrun : ((parse twoKeys "1:a").toOption.bind fun ring =>
        (Run.run (step labelled twoKeys) ⟨"1:a", ring, []⟩ rotate).map fun s =>
          s.values.map fun value => (value.plaintext, value.sealed.kekVersion)) =
        some [([7], 2)] := by decide +kernel
    rw [hparse] at hrun
    obtain ⟨s, hs, hvalues⟩ := Option.map_eq_some_iff.1 hrun
    refine ⟨ring, s, rfl, hs, hvalues, ?_⟩
    exact (hruns ⟨"1:a", ring, []⟩ rotate s hparse nofun hs).1.opens

/-- No line of an empty file is at fault, and it is refused. -/
theorem empty_file_refused :
    Hold twoKeys (keyLines "") [] ∧ (([] : List (Int × Key)).map (·.1)).Nodup ∧
      ¬∃ ring, parse twoKeys "" = .ok ring := by
  refine ⟨?_, List.nodup_nil, fun hsome => ?_⟩
  · rw [show keyLines "" = [] by decide]
    exact .nil
  · obtain ⟨ring, hring⟩ := hsome
    have hnot : (parse twoKeys "").isOk = false := by decide
    rw [hring] at hnot
    cases hnot

end Rotation

end Vault
