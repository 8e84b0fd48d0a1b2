import RemoteHub.Vault.Seal

/-!
# Sealed values stay where they are

The associated data of the three ways to seal determine the way and everything it names
(`aad_inj`): the UUID has a fixed length, the numbers have no separator and the key id has none,
so that the field's name, which may be any text, stands between parts that can be read off from both
ends. With an AEAD that opens a ciphertext only with the key and the associated data it was made
with, nothing that was sealed opens anywhere else (`sealed_values_stay`).
-/

namespace Vault

open Model Except Digits Text

/-! ## Associated data -/

/-- What a ciphertext was made for, and everything it is bound to. -/
inductive Purpose
  | value (context : Context) (kekId : String) (kekVersion : Int)
  | detached (context : Bytes)
  | escrow (kekId : String) (version : Int)
  deriving DecidableEq

def Purpose.aad : Purpose → Bytes
  | .value context kekId kekVersion => associatedData context kekId kekVersion
  | .detached context => Detached.aad context
  | .escrow kekId version => Escrow.aad kekId version

/-- The key id has no separator. -/
def Purpose.Named : Purpose → Prop
  | .value _ kekId _ => '|' ∉ kekId.toList
  | _ => True

theorem not_mem_number (n : Int) : '|' ∉ n.repr.toList := not_mem_repr (by decide) (by decide)

theorem associatedData_inj {c c' : Context} {kekId kekId' : String} {v v' : Int}
    (hid : '|' ∉ kekId.toList) (hid' : '|' ∉ kekId'.toList)
    (h : associatedData c kekId v = associatedData c' kekId' v') :
    c = c' ∧ kekId = kekId' ∧ v = v' := by
  have h := congrArg String.toList (utf8_inj.1 h)
  simp only [String.toList_append, List.append_assoc] at h
  have h := List.append_cancel_left (List.append_cancel_left (List.append_cancel_left h))
  obtain ⟨howner, h⟩ := List.append_inj h (by rw [length_uuidText, length_uuidText])
  have h := List.append_cancel_left h
  obtain ⟨hversion, h⟩ := cut_first (c := '|') (not_mem_number _) (not_mem_number _) h
  have h : c.field.toList ++ '|' :: (kekId.toList ++ '|' :: v.repr.toList) =
      c'.field.toList ++ '|' :: (kekId'.toList ++ '|' :: v'.repr.toList) := h
  rw [← List.cons_append, ← List.append_assoc, ← List.cons_append, ← List.append_assoc] at h
  obtain ⟨h, hkey⟩ := cut_last (c := '|') (not_mem_number v) (not_mem_number v') h
  obtain ⟨hfield, hkekId⟩ := cut_last (c := '|') hid hid' h
  have howner := uuidText_inj howner
  have hversion := Int.repr_injective (String.toList_inj.1 hversion)
  have hfield := String.toList_inj.1 hfield
  refine ⟨?_, String.toList_inj.1 hkekId, Int.repr_injective (String.toList_inj.1 hkey)⟩
  obtain ⟨owner, version, field⟩ := c
  obtain ⟨owner', version', field'⟩ := c'
  rw [Context.mk.injEq]
  exact ⟨howner, hversion, hfield⟩

/-- The text that tells the purposes apart. -/
def Purpose.mark : Purpose → String
  | .value .. => "remotehub|x"
  | .detached _ => "remotehub|d"
  | .escrow .. => "remotehub|e"

theorem aad_mark (p : Purpose) : ∃ rest, p.aad = utf8 p.mark ++ rest := by
  cases p with
  | value context kekId kekVersion =>
    refine ⟨utf8 ("chacha20poly1305-v1|" ++ uuidText context.owner ++ "|" ++ context.version.repr ++
      "|" ++ context.field ++ "|" ++ kekId ++ "|" ++ kekVersion.repr), ?_⟩
    rw [← utf8_append]
    simp only [Purpose.aad, associatedData, Purpose.mark, ← String.append_assoc]
    rfl
  | detached context =>
    refine ⟨utf8 "etached|" ++ context, ?_⟩
    rw [← List.append_assoc, ← utf8_append]
    rfl
  | escrow kekId version =>
    refine ⟨utf8 ("scrow|" ++ kekId ++ "|" ++ version.repr), ?_⟩
    rw [← utf8_append]
    simp only [Purpose.aad, Escrow.aad, Purpose.mark, ← String.append_assoc]
    rfl

theorem mark_eq_of_aad {p q : Purpose} (h : p.aad = q.aad) : p.mark = q.mark := by
  obtain ⟨rest, hp⟩ := aad_mark p
  obtain ⟨rest', hq⟩ := aad_mark q
  have hlength : ∀ p : Purpose, (utf8 p.mark).length = 11 := by
    intro p
    cases p <;> rfl
  rw [hp, hq] at h
  exact utf8_inj.1 (List.append_inj h (by rw [hlength, hlength])).1

/-- **The associated data determine what they are for.** -/
theorem aad_inj {p q : Purpose} (hp : p.Named) (hq : q.Named) (h : p.aad = q.aad) : p = q := by
  have hmark := mark_eq_of_aad h
  cases p with
  | value context kekId kekVersion =>
    cases q with
    | value context' kekId' kekVersion' =>
      obtain ⟨rfl, rfl, rfl⟩ := associatedData_inj hp hq h
      rfl
    | detached _ => simp [Purpose.mark] at hmark
    | escrow _ _ => simp [Purpose.mark] at hmark
  | detached context =>
    cases q with
    | value _ _ _ => simp [Purpose.mark] at hmark
    | detached context' =>
      have h : utf8 "remotehub|detached|" ++ context = utf8 "remotehub|detached|" ++ context' := h
      rw [List.append_cancel_left h]
    | escrow _ _ => simp [Purpose.mark] at hmark
  | escrow kekId version =>
    cases q with
    | value _ _ _ => simp [Purpose.mark] at hmark
    | detached _ => simp [Purpose.mark] at hmark
    | escrow kekId' version' =>
      have h := congrArg String.toList (utf8_inj.1 h)
      simp only [String.toList_append, List.append_assoc] at h
      have h := List.append_cancel_left h
      obtain ⟨hid, hversion⟩ := cut_last (c := '|') (not_mem_number version)
        (not_mem_number version') h
      rw [String.toList_inj.1 hid, Int.repr_injective (String.toList_inj.1 hversion)]

/-! ## Ciphertexts -/

/-- A ciphertext opens with the key and the associated data it was made with. -/
def Aead.Correct (aead : Aead) : Prop :=
  ∀ key nonce aad msg, aead.decrypt key nonce aad (aead.encrypt key nonce aad msg) = some msg

/-- It opens with no others. -/
def Aead.Binding (aead : Aead) : Prop :=
  ∀ key key' nonce aad aad' msg msg',
    aead.decrypt key' nonce aad' (aead.encrypt key nonce aad msg) = some msg' →
    key' = key ∧ aad' = aad

variable {aead : Aead}

theorem toKey_toList (key : Key) : toKey key.toList = .ok key := by
  unfold toKey
  rw [dif_pos key.toList_length]
  rfl

theorem toKey_eq_ok {bytes : Bytes} {key : Key} : toKey bytes = .ok key ↔ bytes = key.toList := by
  constructor
  · intro h
    unfold toKey at h
    split at h
    · cases h
      rfl
    · cases h
  · rintro rfl
    exact toKey_toList key

theorem decrypt_encrypt_eq {nonce : Nonce} {key key' : Key} {aad aad' msg : Bytes} :
    decrypt aead key' aad' (encrypt aead nonce key aad msg) =
      (aead.decrypt key' nonce aad' (aead.encrypt key nonce aad msg)).elim (.error .opens) .ok := by
  have hlength := nonce.toList_length
  have htake : (encrypt aead nonce key aad msg).take nonceLen = nonce.toList :=
    List.take_left' hlength
  have hdrop : (encrypt aead nonce key aad msg).drop nonceLen = aead.encrypt key nonce aad msg :=
    List.drop_left' hlength
  have hle : nonceLen ≤ (encrypt aead nonce key aad msg).length := by
    simp [encrypt]
  unfold decrypt
  rw [dif_pos hle, hdrop]
  congr

/-- **A ciphertext opens only for what it was made for.** -/
theorem decrypt_encrypt_iff (hcorrect : aead.Correct) (hbinding : aead.Binding) {nonce : Nonce}
    {key key' : Key} {p q : Purpose} (hp : p.Named) (hq : q.Named) {msg msg' : Bytes} :
    decrypt aead key' q.aad (encrypt aead nonce key p.aad msg) = .ok msg' ↔
      key' = key ∧ q = p ∧ msg' = msg := by
  rw [decrypt_encrypt_eq]
  constructor
  · intro h
    cases hopen : aead.decrypt key' nonce q.aad (aead.encrypt key nonce p.aad msg) with
    | none =>
      rw [hopen] at h
      cases h
    | some plain =>
      obtain ⟨rfl, haad⟩ := hbinding _ _ _ _ _ _ _ hopen
      obtain rfl := aad_inj hq hp haad
      rw [hcorrect] at h
      cases h
      exact ⟨rfl, rfl, rfl⟩
  · rintro ⟨rfl, rfl, rfl⟩
    rw [hcorrect]
    rfl

/-! ## Rows -/

theorem sealValue_ok {keys : KeyProvider} {random : Entropy} {context : Context} {plaintext : Bytes}
    {sealed : Sealed} (h : sealValue aead keys random context plaintext = .ok sealed) :
    ∃ master, keys.masterKey keys.current.1 keys.current.2 = .ok master ∧
      sealed = {
        scheme, kekId := keys.current.1, kekVersion := keys.current.2,
        wrappedKey := encrypt aead random.keyNonce master
          (associatedData context keys.current.1 keys.current.2) random.dataKey.toList,
        ciphertext := encrypt aead random.nonce random.dataKey
          (associatedData context keys.current.1 keys.current.2) plaintext } := by
  obtain ⟨master, hmaster, h⟩ := bind_eq_ok.1 h
  cases h
  exact ⟨master, hmaster, rfl⟩

/-- **What opens in a row**: of ciphertexts made for anything, those made for the value of this
context under the row's master key, the data key in one and the value in the other. -/
theorem openValue_iff (hcorrect : aead.Correct) (hbinding : aead.Binding) {keys : KeyProvider}
    {context : Context} {row : Sealed} {p q : Purpose} {nonce nonce' : Nonce} {key key' : Key}
    {msg msg' opened : Bytes} (hp : p.Named) (hq : q.Named) (hid : '|' ∉ row.kekId.toList)
    (hwrapped : row.wrappedKey = encrypt aead nonce key p.aad msg)
    (hvalue : row.ciphertext = encrypt aead nonce' key' q.aad msg') :
    openValue aead keys context row = .ok opened ↔
      row.scheme = scheme ∧ keys.masterKey row.kekId row.kekVersion = .ok key ∧
        p = .value context row.kekId row.kekVersion ∧
        q = .value context row.kekId row.kekVersion ∧ msg = key'.toList ∧ opened = msg' := by
  have hnamed : (Purpose.value context row.kekId row.kekVersion).Named := hid
  constructor
  · intro h
    obtain ⟨_, hscheme, h⟩ := bind_eq_ok.1 h
    obtain ⟨master, hmaster, h⟩ := bind_eq_ok.1 h
    obtain ⟨plain, hplain, h⟩ := bind_eq_ok.1 h
    obtain ⟨dataKey, hdataKey, h⟩ := bind_eq_ok.1 h
    rw [hwrapped] at hplain
    rw [hvalue] at h
    obtain ⟨rfl, hfor, rfl⟩ := (decrypt_encrypt_iff hcorrect hbinding hp hnamed).1 hplain
    obtain ⟨rfl, hfor', rfl⟩ := (decrypt_encrypt_iff hcorrect hbinding hq hnamed).1 h
    exact ⟨not_not.1 (refuse_eq_ok.1 hscheme), hmaster, hfor.symm, hfor'.symm,
      toKey_eq_ok.1 hdataKey, rfl⟩
  · rintro ⟨hscheme, hmaster, hfor, hfor', rfl, rfl⟩
    have hplain : decrypt aead key (associatedData context row.kekId row.kekVersion)
        row.wrappedKey = .ok key'.toList := by
      rw [hwrapped]
      exact (decrypt_encrypt_iff hcorrect hbinding hp hnamed).2 ⟨rfl, hfor.symm, rfl⟩
    have hopened : decrypt aead key' (associatedData context row.kekId row.kekVersion)
        row.ciphertext = .ok opened := by
      rw [hvalue]
      exact (decrypt_encrypt_iff hcorrect hbinding hq hnamed).2 ⟨rfl, hfor'.symm, rfl⟩
    refine bind_eq_ok.2 ⟨(), refuse_eq_ok.2 (not_not.2 hscheme), ?_⟩
    refine bind_eq_ok.2 ⟨key, hmaster, ?_⟩
    refine bind_eq_ok.2 ⟨_, hplain, ?_⟩
    exact bind_eq_ok.2 ⟨key', toKey_toList key', hopened⟩

/-- A sealed value, its master key relabelled or not, opens exactly in its own context. -/
theorem openValue_sealed_iff (hcorrect : aead.Correct) (hbinding : aead.Binding)
    {keys : KeyProvider} {random : Entropy} {context context' : Context} {plaintext opened : Bytes}
    {sealed : Sealed} {kekId : String} {kekVersion : Int}
    (hsealed : sealValue aead keys random context plaintext = .ok sealed)
    (hid : '|' ∉ sealed.kekId.toList) (hid' : '|' ∉ kekId.toList) :
    openValue aead keys context' { sealed with kekId, kekVersion } = .ok opened ↔
      context' = context ∧ kekId = sealed.kekId ∧ kekVersion = sealed.kekVersion ∧
        opened = plaintext := by
  obtain ⟨master, hmaster, rfl⟩ := sealValue_ok hsealed
  have hnamed : (Purpose.value context keys.current.1 keys.current.2).Named := hid
  rw [openValue_iff hcorrect hbinding hnamed hnamed hid' rfl rfl]
  simp only [Purpose.value.injEq]
  constructor
  · rintro ⟨-, -, ⟨rfl, rfl, rfl⟩, -, -, rfl⟩
    exact ⟨rfl, rfl, rfl, rfl⟩
  · rintro ⟨rfl, rfl, rfl, rfl⟩
    exact ⟨trivial, hmaster, ⟨rfl, rfl, rfl⟩, ⟨rfl, rfl, rfl⟩, trivial, rfl⟩

/-- **Sealed values stay**: the associated data of everything that is sealed determine what it was
sealed for; a value opens in a context and under a master key exactly if it was sealed there; a row
put together of any ciphertexts opens only where both were made for; and what was not sealed as
detached or for the escrow does not open as such. -/
theorem sealed_values_stay (aead : Aead) (hcorrect : aead.Correct) (hbinding : aead.Binding) :
    (∀ p q : Purpose, p.Named → q.Named → (p.aad = q.aad ↔ p = q)) ∧
      (∀ keys random context plaintext sealed,
        sealValue aead keys random context plaintext = .ok sealed → '|' ∉ sealed.kekId.toList →
        ∀ context' kekId kekVersion opened, '|' ∉ kekId.toList →
          (openValue aead keys context' { sealed with kekId, kekVersion } = .ok opened ↔
            context' = context ∧ kekId = sealed.kekId ∧ kekVersion = sealed.kekVersion ∧
              opened = plaintext)) ∧
      (∀ keys context row opened p q nonce nonce' key key' msg msg', Purpose.Named p →
        Purpose.Named q → '|' ∉ row.kekId.toList →
        row.wrappedKey = encrypt aead nonce key p.aad msg →
        row.ciphertext = encrypt aead nonce' key' q.aad msg' →
        openValue aead keys context row = .ok opened →
        p = .value context row.kekId row.kekVersion ∧ q = p) ∧
      (∀ key context opened p nonce key' msg, Purpose.Named p →
        Detached.openValue aead key context (encrypt aead nonce key' p.aad msg) = .ok opened →
        p = .detached context) ∧
      ∀ curve privateKey ephemeral kekId version opened p nonce key msg, Purpose.Named p →
        Escrow.openWith aead curve privateKey ⟨ephemeral, encrypt aead nonce key p.aad msg⟩ kekId
          version = .ok opened → p = .escrow kekId version := by
  refine ⟨?_, ?_, ?_, ?_, ?_⟩
  · intro p q hp hq
    exact ⟨aad_inj hp hq, fun h => by rw [h]⟩
  · intro keys random context plaintext sealed hsealed hid context' kekId kekVersion opened hid'
    exact openValue_sealed_iff hcorrect hbinding hsealed hid hid'
  · intro keys context row opened p q nonce nonce' key key' msg msg' hp hq hid hwrapped hvalue h
    obtain ⟨-, -, rfl, rfl, -, -⟩ :=
      (openValue_iff hcorrect hbinding hp hq hid hwrapped hvalue).1 h
    exact ⟨rfl, rfl⟩
  · intro key context opened p nonce key' msg hp h
    have hfor := (decrypt_encrypt_iff (q := .detached context) hcorrect hbinding hp trivial).1 h
    exact hfor.2.1.symm
  · intro curve privateKey ephemeral kekId version opened p nonce key msg hp h
    obtain ⟨secret, -, h⟩ := bind_eq_ok.1 h
    obtain ⟨point, -, h⟩ := bind_eq_ok.1 h
    obtain ⟨plain, hplain, -⟩ := bind_eq_ok.1 h
    have hfor :=
      (decrypt_encrypt_iff (q := .escrow kekId version) hcorrect hbinding hp trivial).1 hplain
    exact hfor.2.1.symm

/-! ## An AEAD -/

/-- The key and the associated data before a message, each byte of the data marked. -/
def header (key : Key) (aad : Bytes) : Bytes := key.toList ++ (aad.flatMap fun b => [1, b]) ++ [0]

/-- An AEAD that writes its key and associated data out and compares them. -/
def labelled : Aead where
  encrypt key _ aad msg := header key aad ++ msg
  decrypt key _ aad ciphertext :=
    if header key aad <+: ciphertext then some (ciphertext.drop (header key aad).length) else none

theorem labelled_correct : labelled.Correct := by
  intro key nonce aad msg
  simp [labelled]

theorem marked_inj {aad aad' rest rest' : Bytes}
    (h : (aad.flatMap fun b => [1, b]) ++ 0 :: rest = (aad'.flatMap fun b => [1, b]) ++ 0 :: rest') :
    aad = aad' := by
  induction aad generalizing aad' with
  | nil =>
    cases aad' with
    | nil => rfl
    | cons b aad' => simp at h
  | cons b aad ih =>
    cases aad' with
    | nil => simp at h
    | cons b' aad' =>
      simp only [List.flatMap_cons, List.cons_append, List.nil_append, List.cons.injEq,
        true_and] at h
      rw [h.1, ih h.2]

theorem labelled_binding : labelled.Binding := by
  intro key key' nonce aad aad' msg msg' h
  simp only [labelled] at h
  split at h
  · rename_i hprefix
    obtain ⟨rest, hrest⟩ := hprefix
    simp only [header, List.append_assoc, List.cons_append, List.nil_append] at hrest
    obtain ⟨hkey, hmarked⟩ := List.append_inj hrest (by simp)
    exact ⟨Subtype.ext hkey, marked_inj hmarked⟩
  · cases h

def zeroes (n : Nat) : List.Vector UInt8 n := List.Vector.replicate n 0

/-- One master key. -/
def oneKey : KeyProvider where
  current := ("file", 1)
  masterKey id version :=
    if (id, version) = ("file", 1) then .ok (zeroes 32) else .error (.unknownKey id version)

/-- A field whose name has separators. -/
def piped : Context := { owner := 42, version := 1, field := "a|file|1" }

theorem sealed_values_stay_piped :
    labelled.Correct ∧ labelled.Binding ∧
      ∃ sealed, sealValue labelled oneKey ⟨zeroes 32, zeroes 24, zeroes 24⟩ piped [7] =
          .ok sealed ∧
        openValue labelled oneKey piped sealed = .ok [7] ∧
        ∀ opened, openValue labelled oneKey { piped with field := "a" } sealed ≠ .ok opened := by
  obtain ⟨-, hopens, -⟩ := sealed_values_stay labelled labelled_correct labelled_binding
  have hsealed : sealValue labelled oneKey ⟨zeroes 32, zeroes 24, zeroes 24⟩ piped [7] =
      .ok {
        scheme, kekId := "file", kekVersion := 1,
        wrappedKey := encrypt labelled (zeroes 24) (zeroes 32) (associatedData piped "file" 1)
          (zeroes 32).toList,
        ciphertext := encrypt labelled (zeroes 24) (zeroes 32) (associatedData piped "file" 1)
          [7] } := rfl
  have hiff := hopens _ _ _ _ _ hsealed (by decide)
  refine ⟨labelled_correct, labelled_binding, _, hsealed, ?_, fun opened h => ?_⟩
  · exact (hiff piped "file" 1 [7] (by decide)).2 ⟨rfl, rfl, rfl, rfl⟩
  · have hsame := ((hiff { piped with field := "a" } "file" 1 opened (by decide)).1 h).1
    exact absurd hsame (by decide)

end Vault
