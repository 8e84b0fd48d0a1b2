import RemoteHub.Web.Proof.PersonalVault

/-!
# What the server learns of a personal vault

With perfect cryptography (`symbolic`). `State.seen` is everything that reached the server, which keeps it
all, and the files of private keys, which may be stolen. `S` are the secrets: what the owners and the
administrators choose and what is drawn at random for them (`Careful`).
-/

namespace Web.PersonalVault

open Model Text Symbolic
open Symbolic.Term (name)

variable {S : Set Nat} {s s' : State Term}

def Params.terms : Params Term → List Term
  | passkey _ salt => [salt]
  | passphrase salt _ => [salt]
  | recovery _ => []
  | organisation _ ephemeral => [ephemeral]

/-- What a request tells. -/
def Request.terms : Request Term → List Term
  | .unlock _ u => u.wrappedKey :: u.params.terms
  | .sealed _ _ e => [e.nonce, e.ciphertext]
  | .key _ publicKey => [publicKey]
  | .shared content => [content]

def KeyFile.terms (file : KeyFile Term) : List Term :=
  [file.publicKey, file.salt, file.nonce, file.ciphertext]

def State.seen (s : State Term) : Set Term :=
  {m | (∃ request ∈ s.requests, m ∈ request.terms) ∨ ∃ file ∈ s.files, m ∈ file.terms}

/-- A private key that was drawn. -/
def Drawn (S : Set Nat) (m : Term) : Prop := ∃ n ∈ S, m = name n

/-- Secrets are chosen and drawn from `S`, and what is not secret and what is shared has nothing of them. -/
def Careful (S : Set Nat) : Event Term → Prop
  | .setUp _ key passphrase salt recovery _ =>
    ¬Safe S key ∧ ¬Safe S passphrase ∧ Safe S salt ∧ ¬Safe S recovery
  | .savePassphrase _ passphrase salt => ¬Safe S passphrase ∧ Safe S salt
  | .renewRecovery _ bytes => ¬Safe S bytes
  | .addPasskey _ _ salt => Safe S salt
  | .coverForOrganisation _ ephemeral => Drawn S ephemeral
  | .save _ _ nonce _ => Safe S nonce
  | .share content => Safe S content
  | .createKey _ privateKey passphrase salt nonce =>
    Drawn S privateKey ∧ ¬Safe S passphrase ∧ Safe S salt ∧ Safe S nonce
  | .complete _ _ _ _ bytes => ¬Safe S bytes
  | .visit .. | .load .. | .unlockWithPassphrase .. | .unlockWithRecovery .. | .unlockWithPasskey ..
  | .lock _ => True

/-- What holds of every state that is reached. -/
structure Hidden (S : Set Nat) (s : State Term) : Prop where
  requests : ∀ request ∈ s.requests, ∀ m ∈ request.terms, Safe S m
  files : ∀ file ∈ s.files, ∀ m ∈ file.terms, Safe S m
  made : ∀ user key, (user, key) ∈ s.made → ¬Safe S key
  points : ∀ id publicKey, .key id publicKey ∈ s.requests → ∃ m, Drawn S m ∧ publicKey = .point m

variable {key wrapping nonce content : Term} {aad : String}

/-- What is wrapped with a secret is safe, and so is what is sealed with one. -/
theorem safe_wrapped (h : ¬Safe S wrapping) : Safe S (.wrapped key wrapping) := fun hw => absurd hw h

theorem safe_sealed (h : ¬Safe S key) : Safe S (.sealed key nonce aad content) := fun hk => absurd hk h

theorem Drawn.not_safe {m : Term} (h : Drawn S m) : ¬Safe S m := by
  obtain ⟨n, hn, rfl⟩ := h
  exact fun hsafe => hsafe hn

/-- Two drawn private keys agree on a secret. -/
theorem sharedKey_not_safe {n m shared : Term} (hn : Drawn S n) (hm : Drawn S m)
    (h : sharedKey symbolic n (.point m) = some shared) : ¬Safe S shared := by
  obtain ⟨i, hi, rfl⟩ := hn
  obtain ⟨j, hj, rfl⟩ := hm
  cases h
  exact fun hsafe => (safe_agree.1 hsafe).elim (· hi) (· hj)

theorem Hidden.send {requests : List (Request Term)} (h : Hidden S s)
    (hnew : ∀ request ∈ requests, ∀ m ∈ request.terms, Safe S m)
    (hpoints : ∀ id publicKey, .key id publicKey ∈ requests → ∃ m, Drawn S m ∧ publicKey = .point m) :
    Hidden S (s.send requests) where
  requests request hr := (List.mem_append.1 hr).elim (hnew request) (h.requests request)
  files := h.files
  made := h.made
  points id publicKey hr := (List.mem_append.1 hr).elim (hpoints id publicKey) (h.points id publicKey)

/-- A wrap with a secret tells nothing. -/
theorem Hidden.addUnlock {user : Uuid} {unlock : Unlock Term} (h : Hidden S s)
    (hwrapped : Safe S unlock.wrappedKey) (hparams : ∀ m ∈ unlock.params.terms, Safe S m) :
    Hidden S (s.addUnlock user unlock) := by
  refine h.send (fun request hr m hm => ?_) fun id publicKey hr => ?_
  · rw [List.mem_singleton.1 hr] at hm
    rcases List.mem_cons.1 hm with rfl | hm
    · exact hwrapped
    · exact hparams m hm
  · cases List.mem_singleton.1 hr

theorem Hidden.cover {user : Uuid} {vault : StoredVault Term} {ephemeral : Term} {unlock : Unlock Term}
    (h : Hidden S s) (ha : Answers s.requests user vault) (he : Drawn S ephemeral)
    (hc : coverForOrganisation symbolic key vault ephemeral = some unlock) :
    Hidden S (s.addUnlock user unlock) := by
  obtain ⟨target, htarget, hc⟩ := Option.bind_eq_some_iff.1 hc
  split at hc
  · cases hc
  · obtain ⟨wrap, hwrap, rfl⟩ := Option.map_eq_some_iff.1 hc
    obtain ⟨shared, hshared, rfl⟩ := wrapForOrganisation_eq_some hwrap
    obtain ⟨m, hm, hpoint⟩ := h.points _ _ (ha.organisationKey target htarget)
    rw [hpoint] at hshared
    refine h.addUnlock (safe_wrapped (sharedKey_not_safe he hm hshared)) fun m hm => ?_
    rw [List.mem_singleton.1 hm]
    trivial

theorem forall_mem_pair {α : Type} {P : α → Prop} {a b : α} (ha : P a) (hb : P b) : ∀ m ∈ [a, b], P m := by
  intro m hm
  rcases List.mem_cons.1 hm with rfl | hm
  · exact ha
  · rw [List.mem_singleton.1 hm]
    exact hb

theorem Hidden.step {e : Event Term} (h : Hidden S s) (hsound : Sound symbolic s) (he : Careful S e)
    (hs : PersonalVault.step symbolic s e = some s') : Hidden S s' := by
  cases e with
  | visit k user vault =>
    simp only [PersonalVault.step] at hs
    split at hs
    · cases hs
      exact { h with }
    · cases hs
  | load k vault =>
    obtain ⟨page, hp, hs⟩ := Option.bind_eq_some_iff.1 hs
    split at hs
    · cases hs
      exact { h with }
    · cases hs
  | setUp k key passphrase salt recovery stored =>
    obtain ⟨hkey, hpassphrase, hsalt, hrecovery⟩ := he
    obtain ⟨page, hp, hs⟩ := Option.bind_eq_some_iff.1 hs
    split at hs
    · cases hs
    · cases hs
      have hsent : Hidden S (s.send [.unlock page.user (savePassphrase symbolic key passphrase salt),
          .unlock page.user (saveRecovery symbolic key recovery)]) := by
        refine h.send (forall_mem_pair (forall_mem_pair (safe_wrapped hpassphrase) hsalt) ?_) ?_
        · intro m hm
          rw [List.mem_singleton.1 hm]
          exact safe_wrapped hrecovery
        · intro id publicKey hr
          rcases List.mem_cons.1 hr with hr | hr
          · cases hr
          · cases List.mem_singleton.1 hr
      refine { hsent with made := fun user key' hmade => ?_ }
      rcases List.mem_cons.1 hmade with heq | hmade
      · cases heq
        exact hkey
      · exact h.made user key' hmade
  | unlockWithPassphrase k passphrase | unlockWithRecovery k bytes | unlockWithPasskey k credential =>
    obtain ⟨page, hp, rfl⟩ := Option.map_eq_some_iff.1 hs
    split
    · exact { h with }
    · exact h
  | lock k =>
    obtain ⟨page, hp, rfl⟩ := Option.map_eq_some_iff.1 hs
    exact { h with }
  | savePassphrase k passphrase salt =>
    obtain ⟨unlocked, ho, rfl⟩ := Option.map_eq_some_iff.1 hs
    refine h.addUnlock (safe_wrapped he.1) fun m hm => ?_
    rw [List.mem_singleton.1 hm]
    exact he.2
  | renewRecovery k bytes =>
    obtain ⟨unlocked, ho, rfl⟩ := Option.map_eq_some_iff.1 hs
    exact h.addUnlock (safe_wrapped he) fun m hm => absurd hm List.not_mem_nil
  | addPasskey k credential salt =>
    obtain ⟨unlocked, ho, rfl⟩ := Option.map_eq_some_iff.1 hs
    refine h.addUnlock (safe_wrapped id) fun m hm => ?_
    rw [List.mem_singleton.1 hm]
    exact he
  | coverForOrganisation k ephemeral =>
    obtain ⟨unlocked, ho, rfl⟩ := Option.map_eq_some_iff.1 hs
    split
    · exact h.cover (hsound.opened ho).2 he ‹_›
    · exact h
  | save k place nonce content =>
    obtain ⟨unlocked, ho, rfl⟩ := Option.map_eq_some_iff.1 hs
    have hkey := h.made _ _ (hsound.opened ho).1
    have hsent : Hidden S (s.send [.sealed unlocked.1.user place
        (sealAt symbolic unlocked.2 place nonce content)]) := by
      refine h.send (fun request hr => ?_) fun id publicKey hr => by cases List.mem_singleton.1 hr
      rw [List.mem_singleton.1 hr]
      exact forall_mem_pair he (safe_sealed hkey)
    exact { hsent with }
  | share content =>
    cases hs
    refine h.send (fun request hr m hm => ?_) fun id publicKey hr => by cases List.mem_singleton.1 hr
    rw [List.mem_singleton.1 hr] at hm
    rw [List.mem_singleton.1 hm]
    exact he
  | createKey id privateKey passphrase salt nonce =>
    obtain ⟨hprivate, hpassphrase, hsalt, hnonce⟩ := he
    cases hs
    have hsent : Hidden S (s.send [.key id (.point privateKey)]) := by
      refine h.send (fun request hr m hm => ?_) fun id' publicKey hr => ?_
      · rw [List.mem_singleton.1 hr] at hm
        rw [List.mem_singleton.1 hm]
        trivial
      · cases List.mem_singleton.1 hr
        exact ⟨privateKey, hprivate, rfl⟩
    have hkey : ¬Safe S (.stretched passphrase salt pbkdf2Iterations) := hpassphrase
    refine { hsent with files := fun file hf m hm => ?_ }
    rcases List.mem_cons.1 hf with rfl | hf
    · rcases List.mem_cons.1 hm with rfl | hm
      · trivial
      rcases List.mem_cons.1 hm with rfl | hm
      · exact hsalt
      · exact forall_mem_pair hnonce (safe_sealed hkey) m hm
    · exact h.files file hf m hm
  | complete user unlock publicKey privateKey bytes =>
    simp only [PersonalVault.step] at hs
    split at hs
    · obtain ⟨vaultKey, -, rfl⟩ := Option.map_eq_some_iff.1 hs
      exact h.addUnlock (safe_wrapped he) fun m hm => absurd hm List.not_mem_nil
    · cases hs

theorem Hidden.run {es : List (Event Term)} (he : ∀ e ∈ es, Careful S e)
    (h : Run.run (PersonalVault.step symbolic) {} es = some s) : Hidden S s := by
  have hempty : Hidden S {} := {
    requests := fun r hr => absurd hr List.not_mem_nil
    files := fun f hf => absurd hf List.not_mem_nil
    made := fun user key hm => absurd hm List.not_mem_nil
    points := fun id key hr => absurd hr List.not_mem_nil }
  refine Run.inv_of_run (I := fun es s => (∀ e ∈ es, Careful S e) → Hidden S s) (fun _ => hempty) ?_ h he
  intro es t e t' ht hstep ih hcareful
  exact (ih fun e' he' => hcareful e' (List.mem_append_left _ he')).step (Sound.run symbolic_lawful ht)
    (hcareful e (by simp)) hstep

/-- **The server cannot open a vault**: neither with all it was ever sent, nor with the files of the
organisation's private keys and with what it draws itself, does it work out anything that gives away a
secret; vault keys and what is saved of secrets are such. -/
theorem server_learns_nothing (S : Set Nat) (es : List (Event Term)) (s : State Term)
    (he : ∀ e ∈ es, Careful S e) (h : Run.run (PersonalVault.step symbolic) {} es = some s) (K : Set Term)
    (hK : ∀ m ∈ K, m ∈ s.seen ∨ Safe S m) :
    (∀ m, Derives K m → Safe S m) ∧ (∀ user key, (user, key) ∈ s.made → ¬Derives K key) ∧
      ∀ saved ∈ s.saved, ¬Safe S saved.content → ¬Derives K saved.content := by
  have hhidden := Hidden.run he h
  have hsafe (m : Term) (hm : Derives K m) : Safe S m := by
    refine hm.safe fun m' hm' => ?_
    rcases hK m' hm' with (⟨request, hr, hm'⟩ | ⟨file, hf, hm'⟩) | hm'
    · exact hhidden.requests request hr m' hm'
    · exact hhidden.files file hf m' hm'
    · exact hm'
  exact ⟨hsafe, fun user key hmade hd => hhidden.made user key hmade (hsafe key hd),
    fun saved _ hsecret hd => hsecret (hsafe _ hd)⟩

/-- The names below 100 are secret. -/
def below100 : Set Nat := {n | n < 100}

theorem story_careful : ∀ e ∈ story, Careful below100 e := by
  have hsecret (n : Nat) (hn : n < 100) : ¬Safe below100 (name n) := fun h => h hn
  have hpublic (n : Nat) (hn : 100 ≤ n) : Safe below100 (name n) := fun h => absurd h (Nat.not_lt.2 hn)
  have hdrawn (n : Nat) (hn : n < 100) : Drawn below100 (name n) := ⟨n, hn, rfl⟩
  simp only [story, List.forall_mem_cons, List.not_mem_nil, false_implies, implies_true, and_true, Careful]
  refine ⟨⟨hdrawn 0 ?_, hsecret 1 ?_, hpublic 100 ?_, hpublic 101 ?_⟩, trivial,
    ⟨hsecret 2 ?_, hsecret 3 ?_, hpublic 102 ?_, hsecret 4 ?_⟩, hdrawn 5 ?_, hpublic 103 ?_, trivial, trivial,
    ⟨hsecret 7 ?_, hpublic 104 ?_⟩, hsecret 8 ?_⟩ <;> decide

theorem server_learns_nothing_story : ∃ s, Run.run (PersonalVault.step symbolic) {} story = some s ∧
    (∀ m, Derives s.seen m → Safe below100 m) ∧ (∀ user key, (user, key) ∈ s.made → ¬Derives s.seen key) ∧
      ∀ saved ∈ s.saved, ¬Safe below100 saved.content → ¬Derives s.seen saved.content := by
  have hrun : (Run.run (PersonalVault.step symbolic) {} story).isSome = true := by decide
  obtain ⟨s, hs⟩ := Option.isSome_iff_exists.1 hrun
  exact ⟨s, hs, server_learns_nothing below100 story s story_careful hs s.seen fun m hm => .inl hm⟩

end Web.PersonalVault
