import RemoteHub.Lib.Symbolic
import RemoteHub.Web.PersonalVault

/-!
# What a vault gives back

Every unlock that the server can answer wraps a key that was made for the user's vault (`Way`), and whatever
it can answer as sealed was saved by a page of this user at this place. `Fine` says so of one request, `Sound`
of all, and that the keys that pages hold are such keys.
-/

namespace Web.PersonalVault

open Model Text

variable {β : Type} {c : WebCrypto β}

/-! ## Places -/

theorem Place.aad_inj {p q : Place} (h : p.aad = q.aad) : p = q := by
  have hchars := congrArg String.toList h
  have hlen := congrArg List.length hchars
  cases p with
  | entry id =>
    cases q with
    | entry id' =>
      simp only [Place.aad, String.toList_append] at hchars
      rw [uuidText_inj (List.append_cancel_left hchars)]
    | file id' => simp [Place.aad, scheme, length_uuidText] at hlen
    | search => simp [Place.aad, scheme, searchId, length_uuidText] at hlen
  | file id =>
    cases q with
    | entry id' => simp [Place.aad, scheme, length_uuidText] at hlen
    | file id' =>
      simp only [Place.aad, String.toList_append] at hchars
      rw [uuidText_inj (List.append_cancel_left hchars)]
    | search => simp [Place.aad, scheme, searchId, length_uuidText] at hlen
  | search =>
    cases q with
    | entry id' => simp [Place.aad, scheme, searchId, length_uuidText] at hlen
    | file id' => simp [Place.aad, scheme, searchId, length_uuidText] at hlen
    | search => rfl

/-! ## Wrapping and sealing -/

namespace WebCrypto.Lawful

/-- Unwrapping gives the key, or nothing. -/
theorem of_unwrap (hc : c.Lawful) {key key' wrapping wrapping' : β}
    (h : c.unwrapKey (c.wrapKey key wrapping) wrapping' = some key') : key' = key := by
  by_cases hw : wrapping' = wrapping
  · subst hw
    rw [hc.unwrap_wrap] at h
    exact (Option.some.inj h).symm
  · rw [hc.unwrap_other _ _ _ hw] at h
    cases h

/-- What is sealed opens with its key at its place only. -/
theorem openAt_sealAt [DecidableEq β] (hc : c.Lawful) (key key' : β) (place place' : Place) (nonce content : β) :
    openAt c key' place' (sealAt c key place nonce content) =
      if key' = key ∧ place' = place then some content else none := by
  rw [openAt, sealAt]
  split
  · rename_i h
    rw [h.1, h.2]
    exact hc.decrypt_encrypt ..
  · rename_i h
    refine hc.decrypt_other _ _ _ _ _ _ _ fun heq => h ?_
    simp only [Prod.mk.injEq] at heq
    exact ⟨heq.1, Place.aad_inj heq.2.2⟩

theorem openKeyFile_sealKeyFile (hc : c.Lawful) (id : Uuid) (publicKey privateKey passphrase salt nonce : β) :
    openKeyFile c (sealKeyFile c id publicKey privateKey passphrase salt nonce) passphrase =
      some privateKey :=
  hc.decrypt_encrypt ..

end WebCrypto.Lawful

/-! ## Ways to a key -/

/-- An unlock that a page has made of `key`. -/
inductive Way (c : WebCrypto β) (requests : List (Request β)) (key : β) : Unlock β → Prop
  | passphrase (passphrase salt : β) : Way c requests key (savePassphrase c key passphrase salt)
  | recovery (bytes : β) : Way c requests key (saveRecovery c key bytes)
  | oneTime (bytes : β) : Way c requests key (oneTimeKey c key bytes)
  | passkey (credential : String) (salt : β) : Way c requests key (addPasskey c key credential salt)
  | organisation {id : Uuid} {publicKey ephemeral : β} {wrap : β × β} : .key id publicKey ∈ requests →
      wrapForOrganisation c key publicKey ephemeral = some wrap →
      Way c requests key { params := .organisation id wrap.1, wrappedKey := wrap.2 }

theorem wrapForOrganisation_eq_some {key publicKey ephemeral : β} {wrap : β × β}
    (h : wrapForOrganisation c key publicKey ephemeral = some wrap) :
    ∃ shared, sharedKey c ephemeral publicKey = some shared ∧ wrap = (c.point ephemeral, c.wrapKey key shared) := by
  obtain ⟨shared, hshared, rfl⟩ := Option.map_eq_some_iff.1 h
  exact ⟨shared, hshared, rfl⟩

variable {requests requests' : List (Request β)} {key key' : β} {unlock : Unlock β}

theorem Way.mono (hr : requests ⊆ requests') (h : Way c requests key unlock) : Way c requests' key unlock := by
  cases h with
  | passphrase p salt => exact .passphrase p salt
  | recovery bytes => exact .recovery bytes
  | oneTime bytes => exact .oneTime bytes
  | passkey credential salt => exact .passkey credential salt
  | organisation hkey hwrap => exact .organisation (hr hkey) hwrap

/-- It wraps the key. -/
theorem Way.wraps (h : Way c requests key unlock) : ∃ wrapping, unlock.wrappedKey = c.wrapKey key wrapping := by
  cases h with
  | passphrase | recovery | oneTime | passkey => exact ⟨_, rfl⟩
  | organisation hkey hwrap =>
    obtain ⟨shared, -, rfl⟩ := wrapForOrganisation_eq_some hwrap
    exact ⟨shared, rfl⟩

/-- Whatever unwraps it gives this key. -/
theorem Way.of_unwrap {wrapping : β} (hc : c.Lawful) (h : Way c requests key unlock)
    (hu : c.unwrapKey unlock.wrappedKey wrapping = some key') : key' = key := by
  obtain ⟨wrapping', heq⟩ := h.wraps
  rw [heq] at hu
  exact hc.of_unwrap hu

/-- An unlock wraps one key only. -/
theorem Way.key_eq {wrapping : β} (hc : c.Lawful) (h : Way c requests key unlock)
    (heq : unlock.wrappedKey = c.wrapKey key' wrapping) : key' = key :=
  h.of_unwrap hc ((congrArg (c.unwrapKey · wrapping) heq).trans (hc.unwrap_wrap _ _))

/-- The passphrase opens every vault that has this unlock for passphrases. -/
def OpensWithPassphrase (c : WebCrypto β) (key : β) (unlock : Unlock β) (passphrase : β) : Prop :=
  unlock.params.kind = .passphrase ∧ ∀ vault, find vault .passphrase = some unlock →
    unlockWithPassphrase c vault passphrase = some key

def OpensWithRecovery (c : WebCrypto β) (key : β) (unlock : Unlock β) (bytes : β) : Prop :=
  unlock.params.kind = .recovery ∧ ∀ vault, find vault .recovery = some unlock →
    unlockWithRecovery c vault bytes = some key

/-- The passkey opens every vault with no other unlock of this credential. -/
def OpensWithPasskey (c : WebCrypto β) (key : β) (unlock : Unlock β) (credential : String) : Prop :=
  unlock.params.kind = .passkey ∧ ∀ vault : StoredVault β,
    (vault.unlocks.filter fun u => u.salt.any (·.1 = credential)) = [unlock] →
      unlockWithPasskey c vault credential = some key

/-- The private key that was made for the unlock's recovery key opens it. -/
def OpensWithKey (c : WebCrypto β) (es : List (Event β)) (key : β) (unlock : Unlock β) : Prop :=
  ∃ id ephemeral privateKey passphrase salt nonce, unlock.params = .organisation id ephemeral ∧
    .createKey id privateKey passphrase salt nonce ∈ es ∧
    openVault c privateKey unlock (c.point privateKey) = some key

/-- The secret that this event of `es` was given opens the vault. -/
def Event.Opens (c : WebCrypto β) (es : List (Event β)) (key : β) (unlock : Unlock β) : Event β → Prop
  | .setUp _ _ passphrase _ recovery _ =>
    OpensWithPassphrase c key unlock passphrase ∨ OpensWithRecovery c key unlock recovery
  | .savePassphrase _ passphrase _ => OpensWithPassphrase c key unlock passphrase
  | .renewRecovery _ bytes | .complete _ _ _ _ bytes => OpensWithRecovery c key unlock bytes
  | .addPasskey _ credential _ => OpensWithPasskey c key unlock credential
  | .coverForOrganisation .. => OpensWithKey c es key unlock
  | _ => False

/-- One passkey with this credential: its salt is the one that is asked for. -/
theorem lookup_salts {unlocks : List (Unlock β)} {credential : String} {salt : β}
    (h : (unlocks.filter fun u => u.salt.any (·.1 = credential)) = [unlock])
    (hsalt : unlock.salt = some (credential, salt)) :
    (HashMap.collect (unlocks.filterMap Unlock.salt)).lookup credential = some salt := by
  obtain ⟨before, after, rfl, -, -, hafter⟩ := List.filter_eq_cons_iff.1 h
  have hnone : (after.filterMap Unlock.salt).reverse.lookup credential = none := by
    rw [List.lookup_eq_none_iff]
    rintro ⟨credential', salt'⟩ hmem
    obtain ⟨u, hu, heq⟩ := List.mem_filterMap.1 (List.mem_reverse.1 hmem)
    have hother := List.filter_eq_nil_iff.1 hafter u hu
    rw [heq] at hother
    rw [bne_iff_ne]
    intro heq'
    exact hother (decide_eq_true heq'.symm)
  rw [HashMap.lookup_collect, List.filterMap_append, List.filterMap_cons_some hsalt, List.reverse_append,
    List.reverse_cons, List.append_assoc, List.lookup_append, hnone, Option.none_or, List.singleton_append,
    List.lookup_cons_self]

theorem savePassphrase_opens (hc : c.Lawful) (key passphrase salt : β) :
    OpensWithPassphrase c key (savePassphrase c key passphrase salt) passphrase := by
  refine ⟨rfl, fun vault hfind => ?_⟩
  rw [unlockWithPassphrase, hfind]
  exact hc.unwrap_wrap ..

theorem saveRecovery_opens (hc : c.Lawful) (key bytes : β) :
    OpensWithRecovery c key (saveRecovery c key bytes) bytes := by
  refine ⟨rfl, fun vault hfind => ?_⟩
  rw [unlockWithRecovery, hfind]
  exact hc.unwrap_wrap ..

theorem oneTimeKey_opens (hc : c.Lawful) (key bytes : β) :
    OpensWithRecovery c key (oneTimeKey c key bytes) bytes := by
  refine ⟨rfl, fun vault hfind => ?_⟩
  rw [unlockWithRecovery, hfind]
  exact hc.unwrap_wrap ..

theorem addPasskey_opens (hc : c.Lawful) (key : β) (credential : String) (salt : β) :
    OpensWithPasskey c key (addPasskey c key credential salt) credential := by
  refine ⟨rfl, fun vault hfilter => ?_⟩
  have hfind : vault.unlocks.find? (fun u => u.salt.any (·.1 = credential)) =
      some (addPasskey c key credential salt) := by
    rw [← List.head?_filter, hfilter]
    rfl
  have hsalt : (HashMap.collect (vault.unlocks.filterMap Unlock.salt)).lookup credential = some salt :=
    lookup_salts hfilter rfl
  rw [unlockWithPasskey, hsalt, Option.bind_some, hfind]
  exact hc.unwrap_wrap ..

theorem wrapForOrganisation_opens (hc : c.Lawful) {id : Uuid} {privateKey ephemeral : β} {wrap : β × β}
    (h : wrapForOrganisation c key (c.point privateKey) ephemeral = some wrap) :
    openVault c privateKey { params := .organisation id wrap.1, wrappedKey := wrap.2 }
      (c.point privateKey) = some key := by
  obtain ⟨shared, hshared, rfl⟩ := wrapForOrganisation_eq_some h
  have hshared' : sharedKey c privateKey (c.point ephemeral) = some shared := by
    rw [← hshared, sharedKey, sharedKey, hc.agree]
  change (c.importKey privateKey (c.point privateKey)).bind
    (unwrapForOrganisation c (c.wrapKey key shared) (c.point ephemeral)) = some key
  rw [hc.import_point, Option.bind_some, unwrapForOrganisation, hshared']
  exact hc.unwrap_wrap ..

/-! ## What is sent -/

/-- What pages send. -/
def Fine (c : WebCrypto β) (s : State β) : Request β → Prop
  | .unlock user unlock => ∃ key, (user, key) ∈ s.made ∧ Way c s.requests key unlock
  | .sealed user place sealed => ∃ key nonce content, (user, key) ∈ s.made ∧ ⟨user, place, content⟩ ∈ s.saved ∧
      sealed = sealAt c key place nonce content
  | .key _ publicKey => ∃ privateKey, publicKey = c.point privateKey
  | .shared _ => True

/-- What holds of every state that is reached. -/
structure Sound (c : WebCrypto β) (s : State β) : Prop where
  fine : ∀ request ∈ s.requests, Fine c s request
  vaults : ∀ k page, s.pages.lookup k = some page → Answers s.requests page.user page.vault
  keys : ∀ k page key, s.pages.lookup k = some page → page.key = some key → (page.user, key) ∈ s.made

/-- Nothing is taken back. -/
structure Grows (s s' : State β) : Prop where
  requests : s.requests ⊆ s'.requests
  made : s.made ⊆ s'.made
  saved : s.saved ⊆ s'.saved

variable {s s' : State β} {request : Request β}

theorem Fine.mono (hg : Grows s s') (h : Fine c s request) : Fine c s' request := by
  cases request with
  | unlock user unlock =>
    obtain ⟨key, hmade, hway⟩ := h
    exact ⟨key, hg.made hmade, hway.mono hg.requests⟩
  | sealed user place sealed =>
    obtain ⟨key, nonce, content, hmade, hsaved, heq⟩ := h
    exact ⟨key, nonce, content, hg.made hmade, hg.saved hsaved, heq⟩
  | key id publicKey => exact h
  | shared content => trivial

theorem Answers.mono {user : Uuid} {vault : StoredVault β} (hr : requests ⊆ requests')
    (h : Answers requests user vault) : Answers requests' user vault where
  unlocks unlock hu := hr (h.unlocks unlock hu)
  entries e he := hr (h.entries e he)
  search sealed hs := hr (h.search sealed hs)
  organisationKey key hk := hr (h.organisationKey key hk)

/-! ## Unlocking -/

/-- The unlocks that the server can answer wrap keys that were made for this user. -/
theorem Sound.way {user : Uuid} (h : Sound c s) (hu : .unlock user unlock ∈ s.requests) :
    ∃ key, (user, key) ∈ s.made ∧ Way c s.requests key unlock :=
  h.fine _ hu

theorem Sound.of_unwrap {user : Uuid} {wrapping : β} (hc : c.Lawful) (h : Sound c s)
    (hu : .unlock user unlock ∈ s.requests) (hkey : c.unwrapKey unlock.wrappedKey wrapping = some key) :
    (user, key) ∈ s.made := by
  obtain ⟨key', hmade, hway⟩ := h.way hu
  rw [hway.of_unwrap hc hkey]
  exact hmade

theorem find_mem {vault : StoredVault β} {kind : Server.Vaults.UnlockKind} (h : find vault kind = some unlock) :
    unlock ∈ vault.unlocks :=
  List.mem_of_find?_eq_some h

variable {user : Uuid} {vault : StoredVault β}

theorem Sound.passphrase {passphrase : β} (hc : c.Lawful) (h : Sound c s) (ha : Answers s.requests user vault)
    (hu : unlockWithPassphrase c vault passphrase = some key) : (user, key) ∈ s.made := by
  obtain ⟨unlock, hfind, hu⟩ := Option.bind_eq_some_iff.1 hu
  split at hu
  · exact h.of_unwrap hc (ha.unlocks _ (find_mem hfind)) hu
  · cases hu

theorem Sound.recovery {bytes : β} (hc : c.Lawful) (h : Sound c s) (ha : Answers s.requests user vault)
    (hu : unlockWithRecovery c vault bytes = some key) : (user, key) ∈ s.made := by
  obtain ⟨unlock, hfind, hu⟩ := Option.bind_eq_some_iff.1 hu
  exact h.of_unwrap hc (ha.unlocks _ (find_mem hfind)) hu

theorem Sound.passkey {credential : String} (hc : c.Lawful) (h : Sound c s)
    (ha : Answers s.requests user vault) (hu : unlockWithPasskey c vault credential = some key) :
    (user, key) ∈ s.made := by
  obtain ⟨salt, -, hu⟩ := Option.bind_eq_some_iff.1 hu
  obtain ⟨unlock, hfind, hu⟩ := Option.bind_eq_some_iff.1 hu
  exact h.of_unwrap hc (ha.unlocks _ (List.mem_of_find?_eq_some hfind)) hu

theorem Sound.organisation {privateKey publicKey : β} (hc : c.Lawful) (h : Sound c s)
    (ha : AnswersRecovery s.requests user unlock publicKey)
    (hu : openVault c privateKey unlock publicKey = some key) : (user, key) ∈ s.made := by
  unfold openVault at hu
  split at hu
  · obtain ⟨own, -, hu⟩ := Option.bind_eq_some_iff.1 hu
    obtain ⟨shared, -, hu⟩ := Option.bind_eq_some_iff.1 hu
    exact h.of_unwrap hc ha.1 hu
  · cases hu

/-! ## Steps -/

variable {k : Nat} {page : Page β}

/-- What a step must show: of the requests it adds, and of the page it changes. -/
theorem Sound.grow (h : Sound c s) (hg : Grows s s')
    (hfine : ∀ request ∈ s'.requests, request ∈ s.requests ∨ Fine c s' request)
    (hpages : ∀ k page, s'.pages.lookup k = some page → s.pages.lookup k = some page ∨
      Answers s'.requests page.user page.vault ∧ ∀ key, page.key = some key → (page.user, key) ∈ s'.made) :
    Sound c s' where
  fine request hr := (hfine request hr).elim (fun hold => (h.fine request hold).mono hg) id
  vaults k page hp := (hpages k page hp).elim (fun hold => (h.vaults k page hold).mono hg.requests) And.left
  keys k page key hp hk :=
    (hpages k page hp).elim (fun hold => hg.made (h.keys k page key hold hk)) fun hnew => hnew.2 key hk

theorem Sound.setPage (h : Sound c s) (page : Page β) (ha : Answers s.requests page.user page.vault)
    (hk : ∀ key, page.key = some key → (page.user, key) ∈ s.made) :
    Sound c { s with pages := s.pages.insert k page } := by
  have hg : Grows s { s with pages := s.pages.insert k page } :=
    ⟨List.Subset.refl _, List.Subset.refl _, List.Subset.refl _⟩
  refine h.grow hg (fun request hr => .inl hr) fun k' page' hp => ?_
  rw [HashMap.lookup_insert_eq] at hp
  split at hp
  · cases hp
    exact .inr ⟨ha, hk⟩
  · exact .inl hp

theorem Sound.addUnlock (h : Sound c s) (hmade : (user, key) ∈ s.made) (hway : Way c s.requests key unlock) :
    Sound c (s.addUnlock user unlock) := by
  have hg : Grows s (s.addUnlock user unlock) :=
    ⟨List.subset_cons_self _ _, List.Subset.refl _, List.Subset.refl _⟩
  refine h.grow hg (fun request hr => ?_) fun k page hp => .inl hp
  rcases List.mem_cons.1 hr with rfl | hr
  · exact .inr ⟨key, hmade, hway.mono hg.requests⟩
  · exact .inl hr

theorem Sound.opened {unlocked : Page β × β} (h : Sound c s) (ho : s.opened k = some unlocked) :
    (unlocked.1.user, unlocked.2) ∈ s.made ∧ Answers s.requests unlocked.1.user unlocked.1.vault := by
  obtain ⟨page, hp, ho⟩ := Option.bind_eq_some_iff.1 ho
  obtain ⟨key, hk, rfl⟩ := Option.map_eq_some_iff.1 ho
  exact ⟨h.keys k page key hp hk, h.vaults k page hp⟩

theorem Sound.attempt {attempt : StoredVault β → Option β} (h : Sound c s)
    (hattempt : ∀ user vault key, Answers s.requests user vault → attempt vault = some key →
      (user, key) ∈ s.made) (hs : s.unlock k attempt = some s') : Sound c s' := by
  obtain ⟨page, hp, rfl⟩ := Option.map_eq_some_iff.1 hs
  have ha := h.vaults k page hp
  split
  · rename_i key hkey
    refine h.setPage { page with key := some key } ha fun key' hk => ?_
    cases hk
    exact hattempt _ _ _ ha hkey
  · exact h

theorem Sound.setUp {key passphrase salt recovery : β} {stored : Bool} (h : Sound c s)
    (hp : s.pages.lookup k = some page) :
    Sound c { s.send [.unlock page.user (savePassphrase c key passphrase salt),
        .unlock page.user (saveRecovery c key recovery)] with
      made := (page.user, key) :: s.made
      pages := if stored then s.pages.insert k { page with key := some key } else s.pages } := by
  have hsub (rs : List (Request β)) : s.requests ⊆ rs ++ s.requests := List.subset_append_right _ _
  refine h.grow ⟨hsub _, List.subset_cons_self _ _, List.Subset.refl _⟩ ?_ ?_
  · intro request hr
    rcases List.mem_append.1 hr with hr | hr
    · simp only [List.mem_cons, List.not_mem_nil, or_false] at hr
      rcases hr with rfl | rfl
      · exact .inr ⟨key, List.mem_cons_self, .passphrase passphrase salt⟩
      · exact .inr ⟨key, List.mem_cons_self, .recovery recovery⟩
    · exact .inl hr
  · intro k' page' hp'
    simp only at hp'
    split at hp'
    · rw [HashMap.lookup_insert_eq] at hp'
      split at hp'
      · cases hp'
        refine .inr ⟨(h.vaults k page hp).mono (hsub _), fun key' hk => ?_⟩
        cases hk
        exact List.mem_cons_self
      · exact .inl hp'
    · exact .inl hp'

theorem coverForOrganisation_way {ephemeral : β} (ha : Answers s.requests user vault)
    (h : coverForOrganisation c key vault ephemeral = some unlock) : Way c s.requests key unlock := by
  obtain ⟨target, htarget, h⟩ := Option.bind_eq_some_iff.1 h
  split at h
  · cases h
  · obtain ⟨wrap, hwrap, rfl⟩ := Option.map_eq_some_iff.1 h
    exact .organisation (ha.organisationKey target htarget) hwrap

variable [DecidableEq β]

theorem Sound.step {e : Event β} (hc : c.Lawful) (h : Sound c s) (hs : step c s e = some s') : Sound c s' := by
  cases e with
  | visit k user vault =>
    simp only [PersonalVault.step] at hs
    split at hs
    · cases hs
      exact h.setPage { user, vault } ‹_› fun key hk => by cases hk
    · cases hs
  | load k vault =>
    obtain ⟨page, hp, hs⟩ := Option.bind_eq_some_iff.1 hs
    split at hs
    · cases hs
      exact h.setPage { page with vault } ‹_› fun key hk => h.keys k page key hp hk
    · cases hs
  | setUp k key passphrase salt recovery stored =>
    obtain ⟨page, hp, hs⟩ := Option.bind_eq_some_iff.1 hs
    split at hs
    · cases hs
    · cases hs
      exact h.setUp hp
  | unlockWithPassphrase k passphrase => exact h.attempt (fun _ _ _ ha hu => h.passphrase hc ha hu) hs
  | unlockWithRecovery k bytes => exact h.attempt (fun _ _ _ ha hu => h.recovery hc ha hu) hs
  | unlockWithPasskey k credential => exact h.attempt (fun _ _ _ ha hu => h.passkey hc ha hu) hs
  | lock k =>
    obtain ⟨page, hp, rfl⟩ := Option.map_eq_some_iff.1 hs
    exact h.setPage { page with key := none } (h.vaults k page hp) fun key hk => by cases hk
  | savePassphrase k passphrase salt =>
    obtain ⟨unlocked, ho, rfl⟩ := Option.map_eq_some_iff.1 hs
    exact h.addUnlock (h.opened ho).1 (.passphrase passphrase salt)
  | renewRecovery k bytes =>
    obtain ⟨unlocked, ho, rfl⟩ := Option.map_eq_some_iff.1 hs
    exact h.addUnlock (h.opened ho).1 (.recovery bytes)
  | addPasskey k credential salt =>
    obtain ⟨unlocked, ho, rfl⟩ := Option.map_eq_some_iff.1 hs
    exact h.addUnlock (h.opened ho).1 (.passkey credential salt)
  | coverForOrganisation k ephemeral =>
    obtain ⟨unlocked, ho, rfl⟩ := Option.map_eq_some_iff.1 hs
    obtain ⟨hmade, ha⟩ := h.opened ho
    split
    · exact h.addUnlock hmade (coverForOrganisation_way ha ‹_›)
    · exact h
  | save k place nonce content =>
    obtain ⟨unlocked, ho, rfl⟩ := Option.map_eq_some_iff.1 hs
    refine h.grow ⟨List.subset_cons_self _ _, List.Subset.refl _, List.subset_cons_self _ _⟩ ?_
      fun k page hp => .inl hp
    intro request hr
    rcases List.mem_cons.1 hr with rfl | hr
    · exact .inr ⟨unlocked.2, nonce, content, (h.opened ho).1, List.mem_cons_self, rfl⟩
    · exact .inl hr
  | share content =>
    cases hs
    refine h.grow ⟨List.subset_cons_self _ _, List.Subset.refl _, List.Subset.refl _⟩ ?_
      fun k page hp => .inl hp
    intro request hr
    rcases List.mem_cons.1 hr with rfl | hr
    · exact .inr trivial
    · exact .inl hr
  | createKey id privateKey passphrase salt nonce =>
    cases hs
    refine h.grow ⟨List.subset_cons_self _ _, List.Subset.refl _, List.Subset.refl _⟩ ?_
      fun k page hp => .inl hp
    intro request hr
    rcases List.mem_cons.1 hr with rfl | hr
    · exact .inr ⟨privateKey, rfl⟩
    · exact .inl hr
  | complete user unlock publicKey privateKey bytes =>
    simp only [PersonalVault.step] at hs
    split at hs
    · obtain ⟨vaultKey, hkey, rfl⟩ := Option.map_eq_some_iff.1 hs
      exact h.addUnlock (h.organisation hc ‹_› hkey) (.oneTime bytes)
    · cases hs

theorem Sound.run {es : List (Event β)} (hc : c.Lawful)
    (h : Run.run (PersonalVault.step c) {} es = some s) : Sound c s := by
  refine Run.inv_of_run (I := fun _ s => Sound c s) ?_ (fun _ _ _ _ _ hs h => h.step hc hs) h
  exact {
    fine := fun r hr => absurd hr List.not_mem_nil
    vaults := fun k page hp => by cases hp
    keys := fun k page key hp => by cases hp }

/-! ## Who sent it -/

/-- What an event sends. -/
inductive Sends (c : WebCrypto β) (s : State β) : Event β → Request β → Prop
  | setUpPassphrase {k : Nat} {page : Page β} {key passphrase salt recovery : β} {stored : Bool} :
      s.pages.lookup k = some page → Sends c s (.setUp k key passphrase salt recovery stored)
        (.unlock page.user (savePassphrase c key passphrase salt))
  | setUpRecovery {k : Nat} {page : Page β} {key passphrase salt recovery : β} {stored : Bool} :
      s.pages.lookup k = some page → Sends c s (.setUp k key passphrase salt recovery stored)
        (.unlock page.user (saveRecovery c key recovery))
  | passphrase {k : Nat} {page : Page β} {key passphrase salt : β} : s.opened k = some (page, key) →
      Sends c s (.savePassphrase k passphrase salt)
        (.unlock page.user (savePassphrase c key passphrase salt))
  | recovery {k : Nat} {page : Page β} {key bytes : β} : s.opened k = some (page, key) →
      Sends c s (.renewRecovery k bytes) (.unlock page.user (saveRecovery c key bytes))
  | passkey {k : Nat} {page : Page β} {key salt : β} {credential : String} :
      s.opened k = some (page, key) → Sends c s (.addPasskey k credential salt)
        (.unlock page.user (addPasskey c key credential salt))
  | cover {k : Nat} {page : Page β} {key ephemeral : β} {unlock : Unlock β} :
      s.opened k = some (page, key) → coverForOrganisation c key page.vault ephemeral = some unlock →
      Sends c s (.coverForOrganisation k ephemeral) (.unlock page.user unlock)
  | save {k : Nat} {page : Page β} {key nonce content : β} {place : Place} :
      s.opened k = some (page, key) →
      Sends c s (.save k place nonce content) (.sealed page.user place (sealAt c key place nonce content))
  | share {content : β} : Sends c s (.share content) (.shared content)
  | key {id : Uuid} {privateKey passphrase salt nonce : β} :
      Sends c s (.createKey id privateKey passphrase salt nonce) (.key id (c.point privateKey))
  | complete {user : Uuid} {unlock : Unlock β} {publicKey privateKey bytes vaultKey : β} :
      Sends c s (.complete user unlock publicKey privateKey bytes)
        (.unlock user (oneTimeKey c vaultKey bytes))

omit [DecidableEq β] in
theorem State.unlock_requests {attempt : StoredVault β → Option β} (h : s.unlock k attempt = some s') :
    s'.requests = s.requests := by
  obtain ⟨page, -, rfl⟩ := Option.map_eq_some_iff.1 h
  split <;> rfl

theorem step_sends {e : Event β} (hs : PersonalVault.step c s e = some s') :
    ∃ sent, s'.requests = sent ++ s.requests ∧ ∀ request ∈ sent, Sends c s e request := by
  have hnone (heq : s'.requests = s.requests) :
      ∃ sent, s'.requests = sent ++ s.requests ∧ ∀ request ∈ sent, Sends c s e request :=
    ⟨[], heq, fun request hr => absurd hr List.not_mem_nil⟩
  have hone {request : Request β} (heq : s'.requests = request :: s.requests)
      (hsends : Sends c s e request) :
      ∃ sent, s'.requests = sent ++ s.requests ∧ ∀ request ∈ sent, Sends c s e request :=
    ⟨[request], heq, fun _ hr => List.mem_singleton.1 hr ▸ hsends⟩
  cases e with
  | visit k user vault =>
    simp only [PersonalVault.step] at hs
    split at hs <;> cases hs
    exact hnone rfl
  | load k vault =>
    obtain ⟨page, hp, hs⟩ := Option.bind_eq_some_iff.1 hs
    split at hs <;> cases hs
    exact hnone rfl
  | setUp k key passphrase salt recovery stored =>
    obtain ⟨page, hp, hs⟩ := Option.bind_eq_some_iff.1 hs
    split at hs <;> cases hs
    refine ⟨_, rfl, fun request hr => ?_⟩
    simp only [List.mem_cons, List.not_mem_nil, or_false] at hr
    rcases hr with rfl | rfl
    · exact .setUpPassphrase hp
    · exact .setUpRecovery hp
  | unlockWithPassphrase | unlockWithRecovery | unlockWithPasskey =>
    simp only [PersonalVault.step] at hs
    exact hnone (State.unlock_requests hs)
  | lock k =>
    obtain ⟨page, hp, rfl⟩ := Option.map_eq_some_iff.1 hs
    exact hnone rfl
  | savePassphrase k passphrase salt =>
    obtain ⟨unlocked, ho, rfl⟩ := Option.map_eq_some_iff.1 hs
    exact hone rfl (.passphrase ho)
  | renewRecovery k bytes =>
    obtain ⟨unlocked, ho, rfl⟩ := Option.map_eq_some_iff.1 hs
    exact hone rfl (.recovery ho)
  | addPasskey k credential salt =>
    obtain ⟨unlocked, ho, rfl⟩ := Option.map_eq_some_iff.1 hs
    exact hone rfl (.passkey ho)
  | coverForOrganisation k ephemeral =>
    obtain ⟨unlocked, ho, hs⟩ := Option.map_eq_some_iff.1 hs
    split at hs <;> subst hs
    · exact hone rfl (.cover ho ‹_›)
    · exact hnone rfl
  | save k place nonce content =>
    obtain ⟨unlocked, ho, rfl⟩ := Option.map_eq_some_iff.1 hs
    exact hone rfl (.save ho)
  | share content =>
    cases hs
    exact hone rfl .share
  | createKey id privateKey passphrase salt nonce =>
    cases hs
    exact hone rfl .key
  | complete user unlock publicKey privateKey bytes =>
    simp only [PersonalVault.step] at hs
    split at hs
    · obtain ⟨vaultKey, hkey, rfl⟩ := Option.map_eq_some_iff.1 hs
      exact hone rfl .complete
    · cases hs

/-- The request is among those that event `e` of the run sent. -/
def SentAt (c : WebCrypto β) (es : List (Event β)) (e : Event β) (request : Request β) : Prop :=
  ∃ es₁ es₂ t t' sent, es = es₁ ++ e :: es₂ ∧ Run.run (PersonalVault.step c) {} es₁ = some t ∧
    PersonalVault.step c t e = some t' ∧ t'.requests = sent ++ t.requests ∧ request ∈ sent

variable {es : List (Event β)}

theorem SentAt.sends {e : Event β} (h : SentAt c es e request) : ∃ es₁ es₂ t, es = es₁ ++ e :: es₂ ∧
    Run.run (PersonalVault.step c) {} es₁ = some t ∧ Sends c t e request := by
  obtain ⟨es₁, es₂, t, t', sent, hes, ht, hs, hsent, hmem⟩ := h
  obtain ⟨sent', hsent', hsends⟩ := step_sends hs
  rw [hsent'] at hsent
  exact ⟨es₁, es₂, t, hes, ht, hsends request (List.append_cancel_right hsent ▸ hmem)⟩

/-- Whatever was sent, some event has sent. -/
theorem exists_sentAt (h : Run.run (PersonalVault.step c) {} es = some s)
    (hr : request ∈ s.requests) : ∃ e, SentAt c es e request := by
  refine Run.inv_of_run (I := fun es s => ∀ request ∈ s.requests, ∃ e, SentAt c es e request)
    (fun request hr => absurd hr List.not_mem_nil) ?_ h request hr
  intro es t e t' ht hs ih request hr
  obtain ⟨sent, hsent, -⟩ := step_sends hs
  rw [hsent] at hr
  rcases List.mem_append.1 hr with hnew | hold
  · exact ⟨e, es, [], t, t', sent, rfl, ht, hs, hsent, hnew⟩
  · obtain ⟨e₀, es₁, es₂, u, u', sent₀, rfl, hu⟩ := ih request hold
    exact ⟨e₀, es₁, es₂ ++ [e], u, u', sent₀, by simp, hu⟩

/-- A recovery key was made with its private key. -/
theorem exists_createKey {id : Uuid} {publicKey : β}
    (h : Run.run (PersonalVault.step c) {} es = some s) (hr : .key id publicKey ∈ s.requests) :
    ∃ privateKey passphrase salt nonce, .createKey id privateKey passphrase salt nonce ∈ es ∧
      publicKey = c.point privateKey := by
  obtain ⟨e, hsent⟩ := exists_sentAt h hr
  obtain ⟨es₁, es₂, t, rfl, -, hsends⟩ := hsent.sends
  cases hsends
  exact ⟨_, _, _, _, List.mem_append_right _ List.mem_cons_self, rfl⟩

/-- The secret of the event that sent an unlock opens it. -/
theorem SentAt.opens {e : Event β} (hc : c.Lawful) (h : SentAt c es e (.unlock user unlock))
    (hway : Way c requests key unlock) : e.Opens c es key unlock := by
  obtain ⟨es₁, es₂, t, rfl, ht, hsends⟩ := h.sends
  cases hsends with
  | setUpPassphrase =>
    obtain rfl := hway.key_eq hc rfl
    exact .inl (savePassphrase_opens hc _ _ _)
  | setUpRecovery =>
    obtain rfl := hway.key_eq hc rfl
    exact .inr (saveRecovery_opens hc _ _)
  | passphrase =>
    obtain rfl := hway.key_eq hc rfl
    exact savePassphrase_opens hc _ _ _
  | recovery =>
    obtain rfl := hway.key_eq hc rfl
    exact saveRecovery_opens hc _ _
  | passkey =>
    obtain rfl := hway.key_eq hc rfl
    exact addPasskey_opens hc _ _ _
  | complete =>
    obtain rfl := hway.key_eq hc rfl
    exact oneTimeKey_opens hc _ _
  | cover ho hcover =>
    obtain ⟨target, htarget, hcover⟩ := Option.bind_eq_some_iff.1 hcover
    split at hcover
    · cases hcover
    obtain ⟨wrap, hwrap, rfl⟩ := Option.map_eq_some_iff.1 hcover
    obtain ⟨shared, -, hwrapped⟩ := wrapForOrganisation_eq_some hwrap
    obtain rfl := hway.key_eq hc (congrArg Prod.snd hwrapped)
    have hkey := ((Sound.run hc ht).opened ho).2.organisationKey target htarget
    obtain ⟨privateKey, passphrase, salt, nonce, hmade, hpoint⟩ := exists_createKey ht hkey
    rw [hpoint] at hwrap
    exact ⟨_, _, privateKey, passphrase, salt, nonce, rfl, List.mem_append_left _ hmade,
      wrapForOrganisation_opens hc hwrap⟩

/-! ## Vaults are intact -/

/-- What holds of the personal vaults after a run, whatever the server answers of what it was sent. -/
structure Intact (c : WebCrypto β) (es : List (Event β)) (s : State β) : Prop where
  /-- However a vault is unlocked: with a key that was made for it. -/
  passphrase : ∀ user vault passphrase key, Answers s.requests user vault →
    unlockWithPassphrase c vault passphrase = some key → (user, key) ∈ s.made
  recovery : ∀ user vault bytes key, Answers s.requests user vault →
    unlockWithRecovery c vault bytes = some key → (user, key) ∈ s.made
  passkey : ∀ user vault credential key, Answers s.requests user vault →
    unlockWithPasskey c vault credential = some key → (user, key) ∈ s.made
  organisation : ∀ user unlock publicKey privateKey key, AnswersRecovery s.requests user unlock publicKey →
    openVault c privateKey unlock publicKey = some key → (user, key) ∈ s.made
  pages : ∀ k page key, s.pages.lookup k = some page → page.key = some key → (page.user, key) ∈ s.made
  /-- And the secret that every event which sent an unlock was given opens the vault. -/
  opens : ∀ user unlock, .unlock user unlock ∈ s.requests → ∃ key, (user, key) ∈ s.made ∧
    (∃ e, SentAt c es e (.unlock user unlock)) ∧
    ∀ e, SentAt c es e (.unlock user unlock) → e.Opens c es key unlock
  /-- What is sealed was saved by a page of its user, and is nothing else with any other key or in any other
  place. -/
  sealed : ∀ user place sealed, .sealed user place sealed ∈ s.requests →
    ∃ key content, (user, key) ∈ s.made ∧ ⟨user, place, content⟩ ∈ s.saved ∧
      ∀ key' place', openAt c key' place' sealed =
        if key' = key ∧ place' = place then some content else none
  /-- Where a user's vault was set up once, every entry is read as it was saved. -/
  reads : ∀ user key, (∀ key', (user, key') ∈ s.made → key' = key) →
    ∀ vault, Answers s.requests user vault → ∀ e ∈ readEntries c key vault.entries,
      ∃ content, e.2 = some content ∧ ⟨user, .entry e.1, content⟩ ∈ s.saved

theorem Sound.sealed {place : Place} {sealed : Sealed β} (hc : c.Lawful) (h : Sound c s)
    (hr : .sealed user place sealed ∈ s.requests) :
    ∃ key content, (user, key) ∈ s.made ∧ ⟨user, place, content⟩ ∈ s.saved ∧
      ∀ key' place', openAt c key' place' sealed =
        if key' = key ∧ place' = place then some content else none := by
  obtain ⟨key, nonce, content, hmade, hsaved, rfl⟩ := h.fine _ hr
  exact ⟨key, content, hmade, hsaved, fun key' place' => hc.openAt_sealAt ..⟩

theorem intact_of_run (hc : c.Lawful) (hr : Run.run (PersonalVault.step c) {} es = some s)
    (h : Sound c s) : Intact c es s where
  passphrase user vault passphrase key ha hu := h.passphrase hc ha hu
  recovery user vault bytes key ha hu := h.recovery hc ha hu
  passkey user vault credential key ha hu := h.passkey hc ha hu
  organisation user unlock publicKey privateKey key ha hu := h.organisation hc ha hu
  pages := h.keys
  opens user unlock hu := by
    obtain ⟨key, hmade, hway⟩ := h.way hu
    exact ⟨key, hmade, exists_sentAt hr hu, fun e hsent => hsent.opens hc hway⟩
  sealed user place sealed hr := h.sealed hc hr
  reads user key honce vault ha e he := by
    obtain ⟨stored, hstored, rfl⟩ := List.mem_map.1 he
    obtain ⟨key', content, hmade, hsaved, hopens⟩ := h.sealed hc (ha.entries stored hstored)
    refine ⟨content, ?_, hsaved⟩
    have hkey : key = key' ∧ Place.entry stored.1 = .entry stored.1 := ⟨(honce key' hmade).symm, rfl⟩
    exact (hopens key (.entry stored.1)).trans (if_pos hkey)

/-- **Personal vaults are intact**: in every run of any number of pages, of owners and of those who carry
recoveries out, whatever part of what it was sent the server answers. -/
theorem vaults_intact (c : WebCrypto β) (hc : c.Lawful) (es : List (Event β)) (s : State β)
    (h : Run.run (PersonalVault.step c) {} es = some s) : Intact c es s :=
  intact_of_run hc h (Sound.run hc h)

/-! ## With perfect cryptography -/

open Symbolic in
/-- WebCrypto on terms. -/
def symbolic : WebCrypto Term where
  wrapKey := .wrapped
  unwrapKey := Term.unwrap
  pbkdf2 := .stretched
  hkdf := .expanded
  encrypt := .sealed
  decrypt := Term.decrypt
  point := .point
  importKey scalar point := if point = .point scalar then some scalar else none
  deriveBits := Term.exchange
  prf := .device

theorem symbolic_lawful : symbolic.Lawful where
  unwrap_wrap := Symbolic.Term.unwrap_wrapped
  unwrap_other _ _ _ h := Symbolic.Term.unwrap_other h
  decrypt_encrypt := Symbolic.Term.decrypt_sealed
  decrypt_other _ _ _ _ _ _ _ h := Symbolic.Term.decrypt_other h
  agree := Symbolic.Term.exchange_comm
  import_point _ := if_pos rfl

open Symbolic Term in
/-- A vault is set up, covered and used, opened elsewhere with the recovery key, and recovered. -/
def story : List (Event Term) :=
  [.createKey 1 (name 0) (name 1) (name 100) (name 101),
   .visit 0 7 { unlocks := [], entries := [], organisationKey := some (1, point (name 0)) },
   .setUp 0 (name 2) (name 3) (name 102) (name 4) true,
   .coverForOrganisation 0 (name 5),
   .save 0 (.entry 9) (name 103) (name 6),
   .visit 1 7
     { unlocks := [saveRecovery symbolic (name 2) (name 4)]
       entries := [(9, sealAt symbolic (name 2) (.entry 9) (name 103) (name 6))] },
   .unlockWithRecovery 1 (name 4),
   .savePassphrase 1 (name 7) (name 104),
   .complete 7
     { params := .organisation 1 (point (name 5))
       wrappedKey := wrapped (name 2) (secretKey symbolic (agree 0 5) "organisation") }
     (point (name 0)) (name 0) (name 8)]

theorem vaults_intact_story : ∃ s, Run.run (PersonalVault.step symbolic) {} story = some s ∧
    Intact symbolic story s := by
  have hrun : (Run.run (PersonalVault.step symbolic) {} story).isSome = true := by decide
  obtain ⟨s, hs⟩ := Option.isSome_iff_exists.1 hrun
  exact ⟨s, hs, vaults_intact symbolic symbolic_lawful story s hs⟩

end Web.PersonalVault
