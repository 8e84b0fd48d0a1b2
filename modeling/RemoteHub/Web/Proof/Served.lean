import RemoteHub.Server.Proof.Stored
import RemoteHub.Web.Proof.PersonalVault

/-!
# What the server serves

What the pages' requests look like to the server, and that what it has stored of them at any time, statement
by statement, is an answer in the sense of `Answers`.
-/

namespace Web.PersonalVault

open Model Text
open Server.Vaults (UnlockRow SealedRow)
open Server.Unlocks (Crates Flight NewUnlock Outside)
open Server.Stored (Made WasReady)

/-- `Unlock.params` as JSON, with the bytes as base64. -/
def Params.toJson (base64 : Bytes → String) : Params Bytes → Json
  | passkey credentialId salt =>
    .object [("credential_id", .string credentialId), ("salt", .string (base64 salt))]
  | passphrase salt iterations =>
    .object [("salt", .string (base64 salt)), ("iterations", .number iterations.repr.toList)]
  | recovery oneTime => .object (if oneTime then [("one_time", .bool true)] else [])
  | organisation keyId ephemeral =>
    .object [("key_id", .string (uuidText keyId)), ("ephemeral", .string (base64 ephemeral))]

/-- The body of `addUnlock`. -/
def Unlock.body (base64 : Bytes → String) (label : String) (unlock : Unlock Bytes) : NewUnlock where
  kind := unlock.params.kind.asStr
  params := unlock.params.toJson base64
  wrappedKey := unlock.wrappedKey
  label := label

/-- The row is this unlock, for who reads it. -/
structure Shows (base64 : Bytes → String) (row : UnlockRow) (unlock : Unlock Bytes) : Prop where
  kind : row.kind = unlock.params.kind
  params : row.params = unlock.params.toJson base64
  wrappedKey : row.wrappedKey = unlock.wrappedKey

/-- Everything that reaches the server was sent by a page. -/
structure FromPages (crates : Crates) (base64 : Bytes → String) (clock : Int)
    (es : List (Interleave.Event Flight Outside)) (requests : List (Request Bytes)) : Prop where
  unlocks : ∀ session id input, Made es (.addUnlock session id input) →
    ∃ unlock label, .unlock session.userId unlock ∈ requests ∧ input = Unlock.body base64 label unlock
  recoveries : ∀ session id key unlock found, Made es (.complete session id (some key) unlock) →
    WasReady crates (.quiet { clock }) es session id found →
    .unlock found.userId { params := .recovery true, wrappedKey := key } ∈ requests
  entries : ∀ session id nonce ciphertext, Made es (.saveEntry session id nonce ciphertext) →
    .sealed session.userId (.entry id) ⟨nonce, ciphertext⟩ ∈ requests

variable {base64 : Bytes → String} {crates : Crates} {clock : Int}
  {es : List (Interleave.Event Flight Outside)} {requests : List (Request Bytes)} {row : UnlockRow}
  {unlock unlock' : Unlock Bytes}

theorem Params.toJson_inj (hbase64 : Function.Injective base64) {p q : Params Bytes} (hkind : p.kind = q.kind)
    (h : p.toJson base64 = q.toJson base64) : p = q := by
  cases p <;> cases q <;> cases hkind
  · simp only [Params.toJson, Json.object.injEq, List.cons.injEq, Prod.mk.injEq, Json.string.injEq, true_and,
      and_true] at h
    rw [h.1, hbase64 h.2]
  · simp only [Params.toJson, Json.object.injEq, List.cons.injEq, Prod.mk.injEq, Json.string.injEq,
      Json.number.injEq, true_and, and_true] at h
    rw [hbase64 h.1, Nat.repr_inj.1 (String.toList_inj.1 h.2)]
  · rename_i a b
    cases a <;> cases b <;> simp_all [Params.toJson]
  · simp only [Params.toJson, Json.object.injEq, List.cons.injEq, Prod.mk.injEq, Json.string.injEq, true_and,
      and_true] at h
    rw [uuidText_inj (congrArg String.toList h.1), hbase64 h.2]

/-- A row is one unlock at most. -/
theorem Shows.unique (hbase64 : Function.Injective base64) (h : Shows base64 row unlock)
    (h' : Shows base64 row unlock') : unlock = unlock' := by
  have hparams := Params.toJson_inj hbase64 (h.kind.symm.trans h'.kind) (h.params.symm.trans h'.params)
  have hwrapped := h.wrappedKey.symm.trans h'.wrappedKey
  cases unlock
  cases unlock'
  cases hparams
  cases hwrapped
  rfl

/-- What the server takes shows what was sent. -/
theorem Shows.of_check {label : String} {user : Uuid}
    (h : (Unlock.body base64 label unlock).check user = .ok row) : Shows base64 row unlock ∧ row.userId = user := by
  obtain ⟨kind, hkind, h⟩ := Except.bind_eq_ok.1 h
  obtain ⟨_, -, h⟩ := Except.bind_eq_ok.1 h
  obtain ⟨_, -, h⟩ := Except.bind_eq_ok.1 h
  obtain ⟨_, -, h⟩ := Except.bind_eq_ok.1 h
  cases h
  have hparse : Server.Vaults.UnlockKind.parse unlock.params.kind.asStr = some kind := Except.elim_eq_ok.1 hkind
  have hsame (k : Server.Vaults.UnlockKind) : Server.Vaults.UnlockKind.parse k.asStr = some k := by
    cases k <;> decide
  rw [hsame, Option.some.injEq] at hparse
  exact ⟨⟨hparse.symm, rfl, rfl⟩, rfl⟩

/-- A row of an unlock was sent for its user. -/
theorem brought_sent (hp : FromPages crates base64 clock es requests)
    (h : Server.Stored.Brought crates (.quiet { clock }) es row) :
    ∃ unlock, .unlock row.userId unlock ∈ requests ∧ Shows base64 row unlock := by
  cases h with
  | owner hmade hcheck =>
    obtain ⟨unlock, label, hsent, rfl⟩ := hp.unlocks _ _ _ hmade
    obtain ⟨hshows, huser⟩ := Shows.of_check hcheck
    exact ⟨unlock, huser ▸ hsent, hshows⟩
  | recovery hmade hready hkind hrow =>
    subst hrow
    exact ⟨_, hp.recoveries _ _ _ _ _ hmade hready, ⟨rfl, rfl, rfl⟩⟩

/-- What the owner's page reads of the stored rows. -/
structure Reads (base64 : Bytes → String) (t : Server.Vaults.Tables) (user : Uuid) (vault : StoredVault Bytes) :
    Prop where
  unlocks : ∀ unlock ∈ vault.unlocks, ∃ id row,
    t.unlocks.lookup id = some row ∧ row.userId = user ∧ Shows base64 row unlock
  entries : ∀ e ∈ vault.entries, ∃ row : SealedRow,
    t.entries.lookup e.1 = some row ∧ row.userId = user ∧ e.2 = ⟨row.nonce, row.ciphertext⟩

/-- What the server has stored at any time is an answer. -/
theorem answers_of_stored {w : Interleave.World Server.Unlocks.Shared Flight} {user : Uuid}
    {vault : StoredVault Bytes} (hbase64 : Function.Injective base64)
    (h : Run.run (Interleave.step (Server.Unlocks.system crates)) (.quiet { clock }) es = some w)
    (hp : FromPages crates base64 clock es requests) (hv : Reads base64 w.shared.tables user vault) :
    Answers requests user { vault with search := none, organisationKey := none } := by
  have hstored := Server.Stored.stored_unlocks h
  refine ⟨fun unlock hu => ?_, fun e he => ?_, fun sealed hs => ?_, fun key hk => ?_⟩
  · obtain ⟨id, row, hrow, rfl, hshows⟩ := hv.unlocks unlock hu
    obtain ⟨sent, hsent, hshows'⟩ := brought_sent hp (hstored.unlocks id row hrow)
    rw [hshows.unique hbase64 hshows']
    exact hsent
  · obtain ⟨row, hrow, rfl, heq⟩ := hv.entries e he
    obtain ⟨session, huser, hmade⟩ := hstored.entries e.1 row hrow
    have hsent := hp.entries _ _ _ _ hmade
    rw [huser, ← heq] at hsent
    exact hsent
  · cases hs
  · cases hk

end Web.PersonalVault
