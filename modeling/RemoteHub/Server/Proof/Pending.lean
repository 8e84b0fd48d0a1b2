import RemoteHub.Connector.Proof.Requests
import RemoteHub.Lib.IpText
import RemoteHub.Lib.JsonSize
import RemoteHub.Server.ConnectorRequests

/-!
# What waits for a customer reaches the connector

What a statement can do is said once (`Flight.next_cases`). What `create` checks of a request is what the
connector checks again (`NewRequest.check_sound`), so every row of `connector_requests` makes a request
that it takes, and one request is never too long (`length_toVec_le`).
-/

namespace Connector

open Model Net JsonText

section
variable {text : String} {target : RequestTarget} {request : CustomerRequest}

/-! ## Texts -/

theorem plain_ofList {chars : List Char} {longest : Nat} (hne : chars ≠ []) (hlength : chars.length ≤ longest)
    (hchars : ∀ c ∈ chars, (Text.isControl c || hidden c) = false) :
    plain (.ofList chars) longest = true := by
  have hany : (chars.any fun c => Text.isControl c || hidden c) = false := by
    rw [List.any_eq_false]
    intro c hc
    rw [hchars c hc]
    decide
  rw [plain, String.length_ofList, String.toList_ofList, hany, Bool.and_eq_true, Bool.and_eq_true]
  exact ⟨⟨decide_eq_true (List.length_pos_of_ne_nil hne), decide_eq_true hlength⟩, rfl⟩

/-- **A text made readable is plain.** -/
theorem plain_readable (text : String) (longest : Nat) (h : 1 ≤ longest) :
    plain (readable text longest) longest = true := by
  have hmark : (Text.isControl '\uFFFD' || hidden '\uFFFD') = false := by decide
  let shown (c : Char) : Char := if Text.isControl c || hidden c then '\uFFFD' else c
  have hshown : ∀ c, (Text.isControl (shown c) || hidden (shown c)) = false := by
    intro c
    unfold shown
    split
    · exact hmark
    · exact Bool.eq_false_iff.2 ‹_›
  have hread : readable text longest = if ((Text.trim text).toList.map shown).take longest = [] then
      .ofList ['\uFFFD'] else .ofList (((Text.trim text).toList.map shown).take longest) := rfl
  rw [hread]
  split
  · refine plain_ofList (List.cons_ne_nil _ _) h fun c hc => ?_
    rw [List.mem_singleton.1 hc]
    exact hmark
  · refine plain_ofList ‹_› (List.length_take_le _ _) fun c hc => ?_
    obtain ⟨d, -, rfl⟩ := List.mem_map.1 (List.mem_of_mem_take hc)
    exact hshown d

theorem length_of_plain {longest : Nat} (h : plain text longest = true) : text.toList.length ≤ longest := by
  rw [plain, Bool.and_eq_true, Bool.and_eq_true] at h
  rw [String.length_toList]
  exact of_decide_eq_true h.1.2

theorem length_of_host (h : host text = true) : text.toList.length ≤ 253 := by
  rw [host, Bool.or_eq_true] at h
  rcases h with h | h
  · obtain ⟨ip, hip⟩ := Option.isSome_iff_exists.1 h
    have hlength := (IpAddr.of_parse hip).1
    rw [String.length_toList]
    omega
  · rw [Address.hostName, Bool.and_eq_true, Bool.and_eq_true] at h
    have hsize : text.utf8ByteSize ≤ 253 := of_decide_eq_true h.1.2
    have hbytes : text.utf8ByteSize = size text.toList := by
      rw [← length_utf8, String.ofList_toList]
      rfl
    have hlength := length_le_size text.toList
    omega

/-! ## Lengths -/

theorem size_repr_le {n : Nat} (h : n < 65536) : size n.repr.toList ≤ 20 := by
  have hlength : n.repr.length ≤ 5 := (Nat.length_repr_le_iff (by decide)).2 (by omega)
  have hsize := size_le n.repr.toList
  rw [String.length_toList] at hsize
  omega

theorem RequestTarget.size_le (h : target.Valid) (hport : target.port < 65536) :
    size target.toJson.write ≤ 2767 := by
  have hname := size_quote_le target.name.toList
  have hhost := size_quote_le target.host.toList
  have hname' := length_of_plain h.name
  have hhost' := length_of_host h.host
  have hnumber := size_repr_le hport
  have hfields : size target.toJson.write = 25 + size (quote target.name.toList) +
      size (quote target.host.toList) + size target.port.repr.toList := by
    have hkeys : size (quote "name".toList) = 6 ∧ size (quote "host".toList) = 6 ∧
        size (quote "port".toList) = 6 := by decide
    have hmarks : Char.utf8Size '\x7b' = 1 ∧ Char.utf8Size '\x7d' = 1 ∧ Char.utf8Size ':' = 1 ∧
        Char.utf8Size ',' = 1 := by decide
    simp only [RequestTarget.toJson, Json.write, Json.writeFields, size_cons, size_append, size_nil, hkeys,
      hmarks, List.cons_append]
    omega
  unfold maxName at hname'
  omega

theorem CustomerRequest.size_le (h : request.Valid) (hports : ∀ target ∈ request.targets, target.port < 65536) :
    size request.toJson.write ≤ 60000 := by
  have hid := size_quote_le (Text.uuidText request.id).toList
  have hrequester := size_quote_le request.requester.toList
  have hreason := size_quote_le request.reason.toList
  have hrequester' := length_of_plain h.requester
  have hreason' := length_of_plain h.reason
  have hminutes := size_repr_le (n := request.minutes) (by
    have := h.minutes.2
    omega)
  have htargets : size (Json.writeItems (request.targets.map RequestTarget.toJson)) ≤
      (request.targets.map RequestTarget.toJson).length * (2767 + 1) := Json.size_writeItems_le (by
    intro item hitem
    obtain ⟨target, htarget, rfl⟩ := List.mem_map.1 hitem
    exact RequestTarget.size_le (h.target target htarget) (hports target htarget))
  have hcount : request.targets.length ≤ 20 := h.targets.2
  rw [List.length_map] at htargets
  rw [Text.length_uuidText] at hid
  have hfields : size request.toJson.write = 54 + size (quote (Text.uuidText request.id).toList) +
      size (quote request.requester.toList) + size (quote request.reason.toList) +
      size request.minutes.repr.toList +
      size (Json.writeItems (request.targets.map RequestTarget.toJson)) := by
    have hkeys : size (quote "id".toList) = 4 ∧ size (quote "requester".toList) = 11 ∧
        size (quote "reason".toList) = 8 ∧ size (quote "minutes".toList) = 9 ∧
        size (quote "targets".toList) = 9 := by decide
    have hmarks : Char.utf8Size '\x7b' = 1 ∧ Char.utf8Size '\x7d' = 1 ∧ Char.utf8Size ':' = 1 ∧
        Char.utf8Size ',' = 1 ∧ Char.utf8Size '[' = 1 ∧ Char.utf8Size ']' = 1 := by decide
    simp only [CustomerRequest.toJson, Json.write, Json.writeFields, size_cons, size_append, size_nil, hkeys,
      hmarks, List.cons_append]
    omega
  unfold maxName at hrequester'
  unfold maxReason at hreason'
  omega

/-- One request is short enough. -/
theorem length_toVec_le (h : request.Valid) (hports : ∀ target ∈ request.targets, target.port < 65536) :
    (toVec ⟨[request]⟩).length ≤ maxPendingBytes := by
  have hrequest := CustomerRequest.size_le h hports
  have hfields : size (Pending.toJson ⟨[request]⟩).write = 15 + size request.toJson.write := by
    have hkey : size (quote "requests".toList) = 10 := by decide
    have hmarks : Char.utf8Size '\x7b' = 1 ∧ Char.utf8Size '\x7d' = 1 ∧ Char.utf8Size ':' = 1 ∧
        Char.utf8Size '[' = 1 ∧ Char.utf8Size ']' = 1 := by decide
    simp only [Pending.toJson, Json.write, Json.writeFields, Json.writeItems, List.map_cons, List.map_nil,
      size_cons, size_append, size_nil, hkey, hmarks, List.cons_append]
    omega
  rw [toVec, length_utf8]
  unfold maxPendingBytes
  omega

end

end Connector

namespace Server.ConnectorRequests

open Model Except Interleave
open AccessRequests (Session object)
open Connector (RequestTarget CustomerRequest Pending maxPendingBytes maxRequests maxTargets maxReason
  Minutes readable plain_readable toVec parse_eq_ok)

/-! ## What a statement can do -/

/-- What the next statement of call `k` can do. -/
inductive Flight.Steps (k : Nat) (s : Shared) : Flight → Shared → Option Flight → Prop
  /-- The call is over, and wrote nothing. -/
  | ended (f : Flight) {s' : Shared} (tables : s'.tables = s.tables) (locks : s'.locks = s.locks.release k) :
    Steps k s f s' none
  | checked {session : Session} {catalog : Catalog} {db db' : Db} {id : Uuid} {input : NewRequest} {a : Asked}
    (check : input.check session catalog db db' id = .ok a) :
    Steps k s (.create session catalog db db' id input) s (some (.asked a))
  | began (a : Asked) : Steps k s (.asked a) s (some (.checking a s.clock))
  | alone (a : Asked) (now : Int) : Steps k s (.checking a now) s (some (.inserting a now))
  | inserted {a : Asked} {now : Int} {s' : Shared} (tables : s.tables.create a now = some s'.tables)
    (locks : s'.locks = s.locks.release k) : Steps k s (.inserting a now) s' none
  | locked {session : Session} {id : Uuid} {row : RequestRow} {locks : Locks Uuid}
    (row_eq : s.tables.requests.lookup id = some row) (pending : row.status = .pending)
    (acquired : s.locks.acquire k id = some locks) :
    Steps k s (.withdraw session id) { s with locks } (some (.withdrawing id))
  | withdrawn {id : Uuid} {s' : Shared} (tables : s'.tables = s.tables.withdraw id)
    (locks : s'.locks = s.locks.release k) : Steps k s (.withdrawing id) s' none
  | first (connector : Uuid) (answer : Connector.Answer) (rest : List Connector.Answer) :
    Steps k s (.report connector (answer :: rest)) s (some (.answering connector s.clock answer rest))
  | answered {connector : Uuid} {now : Int} {answer : Connector.Answer} {rest : List Connector.Answer}
    (ends : Option Int) (free : Locks.Free s.locks k answer.id) :
    Steps k s (.answering connector now answer rest)
      { s with tables := s.tables.answer connector answer ends now } (some (.report connector rest))

section
variable {pg : Postgres} {k : Nat} {s s' : Shared} {f : Flight} {o : Option Flight} {t t' : Tables}
  {row row' : RequestRow} {a : Asked} {id id' connector : Uuid} {now : Int}

theorem Flight.Steps.of_close {reply : Answer Reply} (s₁ : Shared) (tables : s₁.tables = s.tables)
    (locks : s₁.locks.release k = s.locks.release k) (h : s₁.close k reply = some (s', o)) :
    f.Steps k s s' o := by
  cases h
  exact .ended f tables locks

theorem Flight.next_steps (h : f.next pg k s = some (s', o)) : f.Steps k s s' o := by
  unfold Flight.next at h
  split at h
  · cases h
    exact .ended f rfl rfl
  cases f with
  | create session catalog db db' id input =>
    simp only [Flight.statement] at h
    split at h
    · exact .of_close s rfl rfl h
    · cases h
      exact .checked ‹_›
  | asked a =>
    cases h
    exact .began a
  | checking a now =>
    simp only [Flight.statement] at h
    split at h
    · exact .of_close s rfl rfl h
    · cases h
      exact .alone a now
  | inserting a now =>
    simp only [Flight.statement] at h
    split at h
    · rename_i tables htables
      cases h
      exact .inserted htables rfl
    · exact .of_close s rfl rfl h
  | withdraw session id =>
    simp only [Flight.statement] at h
    split at h
    · rename_i row hrow
      split at h
      · exact .of_close s rfl rfl h
      · obtain ⟨locks, hlocks, h⟩ := Option.bind_eq_some_iff.1 h
        split at h
        · exact .of_close { s with locks } rfl (Locks.release_acquire hlocks) h
        · rename_i hpending
          cases h
          exact .locked hrow (not_not.1 hpending) hlocks
    · exact .of_close s rfl rfl h
  | withdrawing id =>
    cases h
    exact .withdrawn rfl rfl
  | report connector answers =>
    cases answers with
    | nil => exact .of_close s rfl rfl h
    | cons answer rest =>
      cases h
      exact .first connector answer rest
  | answering connector now answer rest =>
    simp only [Flight.statement] at h
    obtain ⟨locks, hlocks, h⟩ := Option.bind_eq_some_iff.1 h
    split at h
    · exact .of_close s rfl rfl h
    · cases h
      exact .answered _ (Locks.acquire_eq_some hlocks).1

/-! ## What is written -/

theorem create_eq_some (h : t.create a now = some t') : a.id ∉ t.drawn ∧ ∃ row, a.row now = some row ∧
    t' = { t with requests := t.requests.insert a.id row, drawn := a.id :: t.drawn } := by
  unfold Tables.create at h
  split at h
  · cases h
  · rename_i hnot
    obtain ⟨row, hrow, rfl⟩ := Option.map_eq_some_iff.1 h
    exact ⟨fun hid => hnot (.inr (.inr (.inr hid))), row, hrow, rfl⟩

theorem row_eq_some (h : a.row now = some row) :
    row.connectorId = a.connector ∧ row.reason = a.reason ∧ row.targets = a.targets ∧ row.status = .pending := by
  unfold Asked.row at h
  split at h
  · cases h
    exact ⟨rfl, rfl, rfl, rfl⟩
  · cases h

theorem lookup_withdraw : (t.withdraw id).requests.lookup id' =
    if id' = id then (t.requests.lookup id').map ({ · with status := .cancelled })
    else t.requests.lookup id' := HashMap.lookup_modify _ _ _ _

theorem answer_cases (t : Tables) (connector : Uuid) (answer : Connector.Answer) (ends : Option Int) (now : Int) :
    (t.answer connector answer ends now = t) ∨
      ∃ row, t.requests.lookup answer.id = some row ∧ row.connectorId = connector ∧ row.status = .pending ∧
        t.answer connector answer ends now = { t with
          requests := t.requests.insert answer.id (row.answer answer ends now)
          records := t.records ++ [(connector, answer)] } := by
  unfold Tables.answer
  cases hrow : t.requests.lookup answer.id with
  | none => exact .inl rfl
  | some row =>
    by_cases h : row.connectorId = connector ∧ row.status = .pending
    · exact .inr ⟨row, rfl, h.1, h.2, if_pos h⟩
    · exact .inl (if_neg h)

theorem lookup_deleteConnector : (t.deleteConnector connector).requests.lookup id =
    (t.requests.lookup id).filter fun row => row.connectorId ≠ connector :=
  HashMap.lookup_collect_filter _ (fun row : RequestRow => row.connectorId = connector) _

theorem lookup_deleteObject {object : ObjectId} : (t.deleteObject object).requests.lookup id =
    (t.requests.lookup id).map (Tables.forget object) := HashMap.lookup_collect_entries _ _ _

/-- What a request asks for, as the connector takes it. -/
structure Sound (reason : String) (targets : List RequestTarget) : Prop where
  reason : Connector.plain reason maxReason = true
  count : targets ≠ [] ∧ targets.length ≤ maxTargets
  target : ∀ target ∈ targets, target.Valid ∧ target.port < 65536

theorem target_valid {device : Behind} {opened : RequestTarget} (h : target device = some opened) :
    opened.Valid ∧ opened.port < 65536 := by
  unfold target at h
  split at h
  · rename_i hdevice
    obtain ⟨hpos, hport, hhost⟩ := hdevice
    obtain rfl := Option.some.inj h
    refine ⟨⟨?_, ?_, ?_⟩, ?_⟩ <;> dsimp only
    · exact plain_readable device.name Connector.maxName (by decide)
    · exact hhost
    · omega
    · omega
  · exact absurd h (Option.some_ne_none _).symm

/-- **What `create` checks is what the connector checks.** -/
theorem NewRequest.check_sound {session : Session} {catalog : Catalog} {db db' : Db} {input : NewRequest}
    (h : input.check session catalog db db' id = .ok a) : Sound a.reason a.targets := by
  unfold NewRequest.check at h
  obtain ⟨asked, -, h⟩ := bind_eq_ok.1 h
  obtain ⟨_, -, h⟩ := bind_eq_ok.1 h
  obtain ⟨_, -, h⟩ := bind_eq_ok.1 h
  obtain ⟨_, -, h⟩ := bind_eq_ok.1 h
  obtain ⟨_, hreason, h⟩ := bind_eq_ok.1 h
  obtain ⟨⟨connector, objectName, devices⟩, -, h⟩ := bind_eq_ok.1 h
  obtain ⟨connector, -, h⟩ := bind_eq_ok.1 h
  obtain ⟨_, htargets, h⟩ := bind_eq_ok.1 h
  rw [refuse_eq_ok, Bool.not_eq_false] at hreason
  rw [refuse_eq_ok, not_or, Nat.not_lt] at htargets
  rw [← pure_eq_ok.1 h]
  refine ⟨hreason, htargets, fun opened hopened => ?_⟩
  obtain ⟨device, -, hdevice⟩ := List.mem_filterMap.1 hopened
  exact target_valid hdevice

/-- What a call asks for. -/
def Flight.Sound : Flight → Prop
  | .asked a | .checking a _ | .inserting a _ => ConnectorRequests.Sound a.reason a.targets
  | _ => True

/-- Every row is sound. -/
def Rows (t : Tables) : Prop := ∀ id row, t.requests.lookup id = some row → Sound row.reason row.targets

/-- Rows that ask for what rows before them asked for. -/
theorem Rows.of_lookup (h : Rows t) (hrows : ∀ id row', t'.requests.lookup id = some row' →
    ∃ row, t.requests.lookup id = some row ∧ row'.reason = row.reason ∧ row'.targets = row.targets) :
    Rows t' := by
  intro id row' hrow'
  obtain ⟨row, hrow, hreason, htargets⟩ := hrows id row' hrow'
  rw [hreason, htargets]
  exact h id row hrow

theorem Rows.insert (h : Rows t) (hrow : Sound row.reason row.targets)
    (ht : t'.requests = t.requests.insert id row) : Rows t' := by
  intro id' row' hrow'
  rw [ht, HashMap.lookup_insert_eq] at hrow'
  split at hrow'
  · cases hrow'
    exact hrow
  · exact h id' row' hrow'

theorem Flight.Steps.rows (h : f.Steps k s s' o) (hs : Rows s.tables) (hf : f.Sound) :
    Rows s'.tables ∧ ∀ g, o = some g → g.Sound := by
  cases h with
  | ended f tables locks =>
    rw [tables]
    exact ⟨hs, ready_of_none⟩
  | checked check =>
    refine ⟨hs, fun g hg => ?_⟩
    cases hg
    exact NewRequest.check_sound check
  | began a | alone a now =>
    refine ⟨hs, fun g hg => ?_⟩
    cases hg
    exact hf
  | inserted tables locks =>
    obtain ⟨-, row, hrow, heq⟩ := create_eq_some tables
    obtain ⟨-, hreason, htargets, -⟩ := row_eq_some hrow
    refine ⟨hs.insert ?_ (congrArg Tables.requests heq), ready_of_none⟩
    rw [hreason, htargets]
    exact hf
  | locked row_eq pending acquired | first connector answer rest =>
    refine ⟨hs, fun g hg => ?_⟩
    cases hg
    trivial
  | withdrawn tables locks =>
    refine ⟨?_, ready_of_none⟩
    rw [tables]
    refine hs.of_lookup fun id' row' hrow' => ?_
    rw [lookup_withdraw] at hrow'
    split at hrow'
    · obtain ⟨row, hrow, rfl⟩ := Option.map_eq_some_iff.1 hrow'
      exact ⟨row, hrow, rfl, rfl⟩
    · exact ⟨row', hrow', rfl, rfl⟩
  | @answered connector now answer rest ends free =>
    refine ⟨?_, fun g hg => ?_⟩
    · rcases answer_cases s.tables connector answer ends now with heq | ⟨row, hrow, -, -, heq⟩
      · rw [heq]
        exact hs
      · rw [heq]
        have hsound : ConnectorRequests.Sound (row.answer answer ends now).reason
            (row.answer answer ends now).targets := hs _ row hrow
        exact hs.insert hsound rfl
    · cases hg
      trivial

theorem Shared.outside_rows {e : Outside} (h : s.outside e = some s') (hs : Rows s.tables) : Rows s'.tables := by
  cases e with
  | tick clock =>
    simp only [Shared.outside] at h
    split at h
    · cases h
      exact hs
    · cases h
  | deleteConnector connector =>
    simp only [Shared.outside] at h
    split at h
    · cases h
      refine hs.of_lookup fun id' row' hrow' => ?_
      rw [lookup_deleteConnector] at hrow'
      exact ⟨row', (Option.filter_eq_some_iff.1 hrow').1, rfl, rfl⟩
    · cases h
  | deleteObject object =>
    simp only [Shared.outside] at h
    split at h
    · cases h
      refine hs.of_lookup fun id' row' hrow' => ?_
      rw [lookup_deleteObject] at hrow'
      obtain ⟨row, hrow, rfl⟩ := Option.map_eq_some_iff.1 hrow'
      exact ⟨row, hrow, rfl, rfl⟩
    · cases h
  | giveUp k | createConnector connector | createObject object =>
    cases h
    exact hs

theorem rows_invariant : Invariant (system pg) (fun _ _ => True) (fun s => Rows s.tables)
    (fun _ _ f => f.Sound) where
  start k s f _ hf := by
    cases f <;> trivial
  next w k f s o hw _ hf hn := by
    obtain ⟨hrows, hown⟩ := (Flight.next_steps hn).rows hw.shared (hw.flights k f hf)
    exact ⟨hrows, hown, fun _ _ _ _ hg => hg⟩
  outside w e s hw _ h := ⟨Shared.outside_rows h hw.shared, fun _ _ hg => hg⟩

/-! ## What is sent -/

theorem popNewest_sent (n : Nat) (requests : List CustomerRequest) : popNewest n requests <+: requests := by
  induction n generalizing requests with
  | zero => exact List.prefix_refl _
  | succ n ih =>
    unfold popNewest
    split
    · exact (ih _).trans (List.dropLast_prefix _)
    · exact List.prefix_refl _

/-- Enough rounds leave one request, or what is short enough. -/
theorem popNewest_short {n : Nat} {requests : List CustomerRequest} (h : requests.length ≤ n) :
    (popNewest n requests).length ≤ 1 ∨ (toVec ⟨popNewest n requests⟩).length ≤ maxPendingBytes := by
  induction n generalizing requests with
  | zero =>
    refine .inl ?_
    rw [popNewest]
    omega
  | succ n ih =>
    unfold popNewest
    split
    · refine ih ?_
      rw [List.length_dropLast]
      omega
    · rename_i hlast
      rw [not_and_or, Nat.not_lt, Nat.not_lt] at hlast
      exact hlast

theorem RequestRow.valid (h : Sound row.reason row.targets) : (row.request id).Valid where
  requester := by
    dsimp only [RequestRow.request]
    exact plain_readable row.requesterName Connector.maxName (by decide)
  reason := h.reason
  minutes := by
    have hminutes := row.minutesCheck
    have hnat : 15 ≤ row.minutes.toNat ∧ row.minutes.toNat ≤ 1440 := by omega
    exact hnat
  targets := h.count
  target target htarget := (h.target target htarget).1

theorem mem_waitingRows {rows : List (Uuid × RequestRow)} {e : Uuid × RequestRow} :
    e ∈ waitingRows rows connector now ↔ e ∈ rows ∧ e.2.connectorId = connector ∧ e.2.waits now = true := by
  rw [waitingRows, List.mem_insertionSort, List.mem_filter, Bool.and_eq_true, decide_eq_true_eq]

/-- The oldest of the rows that wait are sent: as many as allowed, one, or what is short enough. -/
theorem pending_eq (rows : List (Uuid × RequestRow)) (connector : Uuid) (now : Int) :
    ∃ sent left, waitingRows rows connector now = sent ++ left ∧
      pending rows connector now = ⟨sent.map fun e => e.2.request e.1⟩ ∧ sent.length ≤ maxRequests ∧
      (sent.length ≤ 1 ∨ (toVec ⟨sent.map fun e => e.2.request e.1⟩).length ≤ maxPendingBytes) := by
  let requests := ((waitingRows rows connector now).take maxRequests).map fun e => e.2.request e.1
  obtain ⟨sent, hsent, heq⟩ := List.prefix_map_iff.1 (popNewest_sent requests.length requests)
  obtain ⟨left, hleft⟩ := hsent.trans (List.take_prefix _ _)
  refine ⟨sent, left, hleft.symm, congrArg Pending.mk heq, hsent.length_le.trans (List.length_take_le _ _), ?_⟩
  rw [← heq]
  refine (popNewest_short (le_refl requests.length)).imp_left fun hone => ?_
  rw [heq, List.length_map] at hone
  exact hone

/-- `ORDER BY created_at`. -/
theorem pairwise_waitingRows (rows : List (Uuid × RequestRow)) (connector : Uuid) (now : Int) :
    (waitingRows rows connector now).Pairwise fun a b => a.2.createdAt ≤ b.2.createdAt := by
  have htotal : Std.Total fun a b : Uuid × RequestRow => a.2.createdAt ≤ b.2.createdAt :=
    ⟨fun a b => Int.le_total a.2.createdAt b.2.createdAt⟩
  have htrans : IsTrans (Uuid × RequestRow) fun a b => a.2.createdAt ≤ b.2.createdAt :=
    ⟨fun _ _ _ => Int.le_trans⟩
  exact List.pairwise_insertionSort _ _

/-- The rows as they are come across have ids of their own. -/
theorem nodup_scan (pg : Postgres) (k : Nat) (t : Tables) : ((pg.scan k t.requests).map (·.1)).Nodup := by
  rw [((pg.scan_perm k t.requests).map (·.1)).nodup_iff, List.map_map]
  exact t.requests.nodupKeys

theorem mem_scan (pg : Postgres) (k : Nat) (t : Tables) :
    (id, row) ∈ pg.scan k t.requests ↔ t.requests.lookup id = some row := by
  rw [(pg.scan_perm k t.requests).mem_iff, List.mem_map, HashMap.lookup_eq_some]
  constructor
  · intro h
    obtain ⟨e, he, heq⟩ := h
    cases heq
    exact he
  · exact fun h => ⟨_, h, rfl⟩

theorem nodup_waitingRows (pg : Postgres) (k : Nat) (t : Tables) (connector : Uuid) (now : Int) :
    ((waitingRows (pg.scan k t.requests) connector now).map (·.1)).Nodup := by
  have hperm := (List.perm_insertionSort (fun a b : Uuid × RequestRow => a.2.createdAt ≤ b.2.createdAt)
    ((pg.scan k t.requests).filter fun e => e.2.connectorId = connector && e.2.waits now)).map (·.1)
  rw [waitingRows, hperm.nodup_iff]
  exact (List.filter_sublist.map _).nodup (nodup_scan pg k t)

/-- What is sent of sound rows is short enough, and each request is one that the connector takes. -/
theorem pending_sound (pg : Postgres) (k : Nat) (connector : Uuid) (now : Int) (h : Rows t) :
    let sent := pending (pg.scan k t.requests) connector now
    (toVec sent).length ≤ maxPendingBytes ∧ sent.requests.length ≤ maxRequests ∧
      (∀ request ∈ sent.requests, request.Valid) ∧ (sent.requests.map (·.id)).Nodup := by
  obtain ⟨sent, left, hrows, heq, hcount, hshort⟩ := pending_eq (pg.scan k t.requests) connector now
  have hrow : ∀ e ∈ sent, Sound e.2.reason e.2.targets := by
    intro e he
    have hmem : e ∈ waitingRows (pg.scan k t.requests) connector now := by
      rw [hrows]
      exact List.mem_append_left _ he
    exact h e.1 e.2 ((mem_scan pg k t).1 (mem_waitingRows.1 hmem).1)
  have hnodup := nodup_waitingRows pg k t connector now
  rw [hrows, List.map_append] at hnodup
  rw [heq]
  dsimp only
  refine ⟨?_, ?_, ?_, ?_⟩
  · rcases hshort with hone | hshort
    · cases sent with
      | nil => decide
      | cons e rest =>
        rw [List.length_cons] at hone
        obtain rfl := List.eq_nil_of_length_eq_zero (by omega : rest.length = 0)
        have he := hrow e List.mem_cons_self
        exact Connector.length_toVec_le (RequestRow.valid he) fun target htarget => (he.target target htarget).2
    · exact hshort
  · rw [List.length_map]
    exact hcount
  · intro request hrequest
    obtain ⟨e, he, rfl⟩ := List.mem_map.1 hrequest
    exact RequestRow.valid (hrow e he)
  · rw [List.map_map]
    exact hnodup.of_append_left

/-- **What waits reaches the connector.** In every run of calls of remotehub, from no requests, a connector
takes the list it is sent whole, if `serde_json` reads it as it was written: it is short enough, with at most
as many requests as allowed, none twice and each of them valid. What is left out is never older than what
is sent. A text made readable is always plain. -/
theorem pending_taken (pg : Postgres) (s : Shared) (hnew : s.tables.requests = ∅)
    (es : List (Interleave.Event Flight Outside)) (w : World Shared Flight)
    (hr : Run.run (step (system pg)) (.quiet s) es = some w) (read : Bytes → Except String Pending) (connector : Uuid)
    (k : Nat) (now : Int)
    (hread : read (toVec (pending (pg.scan k w.shared.tables.requests) connector now)) =
      .ok (pending (pg.scan k w.shared.tables.requests) connector now)) :
    let sent := pending (pg.scan k w.shared.tables.requests) connector now
    Connector.parse read (toVec sent) = .ok sent.requests ∧
      ((toVec sent).length ≤ maxPendingBytes ∧ sent.requests.length ≤ maxRequests ∧
        (∀ request ∈ sent.requests, request.Valid) ∧ (sent.requests.map (·.id)).Nodup) ∧
      (∀ id row id' row', w.shared.tables.requests.lookup id = some row → row.connectorId = connector →
        row.waits now = true → id ∉ sent.requests.map (·.id) →
        w.shared.tables.requests.lookup id' = some row' → id' ∈ sent.requests.map (·.id) →
        row'.createdAt ≤ row.createdAt) ∧
      ∀ text longest, 1 ≤ longest → Connector.plain (readable text longest) longest = true := by
  have hrows : Rows w.shared.tables := by
    refine (rows_invariant.run ?_ (Run.meets_of_forall (fun _ _ => trivial) _ _) hr).shared
    intro id row hrow
    rw [hnew] at hrow
    cases hrow
  dsimp only
  have hsound := pending_sound pg k connector now hrows
  refine ⟨?_, hsound, ?_, Connector.plain_readable⟩
  · exact parse_eq_ok.2 ⟨hsound.1, hread, hsound.2.1, hsound.2.2.1, hsound.2.2.2⟩
  · intro id row id' row' hrow hconnector hwaits hleft hrow' hsent
    obtain ⟨sent, left, heq, hpending, -, -⟩ := pending_eq (pg.scan k w.shared.tables.requests) connector now
    rw [hpending, List.map_map] at hleft hsent
    obtain ⟨e, he, rfl⟩ := List.mem_map.1 hsent
    have hmem : (id, row) ∈ sent ++ left := by
      rw [← heq]
      exact mem_waitingRows.2 ⟨(mem_scan pg k _).2 hrow, hconnector, hwaits⟩
    have hmem' : e ∈ sent ++ left := List.mem_append_left _ he
    rw [← heq] at hmem'
    have hrow'' : w.shared.tables.requests.lookup e.1 = some e.2 := (mem_scan pg k _).1 (mem_waitingRows.1 hmem').1
    have hsame : row' = e.2 := Option.some.inj (hrow'.symm.trans hrow'')
    have horder := pairwise_waitingRows (pg.scan k w.shared.tables.requests) connector now
    rw [heq, List.pairwise_append] at horder
    rw [hsame]
    rcases List.mem_append.1 hmem with hin | hout
    · exact absurd (List.mem_map_of_mem hin) hleft
    · exact horder.2.2 e he (id, row) hout

end

/-! A request for one device. -/

def entriesScan : Postgres where
  timestamptz _ := none
  scan _ t := t.entries.map fun e => (e.1, e.2)
  scan_perm _ _ := List.Perm.refl _

def sqlDevice : DeviceRow where
  folderId := 2
  name := "sql"
  protocol := .ssh
  host := "10.0.0.5"
  port := 22
  authMode := .ask
  profileId := none
  description := ""
  keyboardLayout := none
  connectorMode := .connector
  connectorId := some 7
  requiresConfirmation := false
  username := ""
  domain := ""
  secretVersion := 0
  secretKind := .password
  keyInfo := {}
  pins := {}

/-- The request of a user for the device. -/
def askForSql (user : Nat) : Flight :=
  let db : Db := { devices := AList.singleton 1 sqlDevice }
  .create ⟨.ofNat _ user, "alex", none, none, [], [], true⟩
    (Catalog.new { folders := [(2, none)], devices := [(1, 2)] } [] 0) db db (.ofNat _ (100 + user))
    ⟨"device", 1, 60, "patches"⟩

def sqlShared : Shared := { clock := 0, tables := { connectors := [7], objects := [.device 1] } }

/-- One user after another asks for the device, each a microsecond later. -/
def askedBy (users : List Nat) : List (Interleave.Event Flight Outside) :=
  users.flatMap fun user => [.start user (askForSql user), .next user, .next user, .next user, .next user,
    .outside (.tick user)]

/-- Of twenty-one requests that wait, some wait for the next report. -/
theorem pending_taken_sql : ∃ w sent,
    Run.run (step (system entriesScan)) (.quiet sqlShared) (askedBy ((List.range 21).map (· + 1))) = some w ∧
    (waitingRows (entriesScan.scan 1 w.shared.tables.requests) 7 21).length = 21 ∧
    pending (entriesScan.scan 1 w.shared.tables.requests) 7 21 = sent ∧ sent.requests.length ≤ 20 ∧
    Connector.parse (fun bytes => if bytes = toVec sent then .ok sent else .error "expected value") (toVec sent) =
      .ok sent.requests := by
  have hrun : ((Run.run (step (system entriesScan)) (.quiet sqlShared)
      (askedBy ((List.range 21).map (· + 1)))).map fun w =>
        (waitingRows (entriesScan.scan 1 w.shared.tables.requests) 7 21).length) = some 21 := by decide
  obtain ⟨w, hw, hwaiting⟩ := Option.map_eq_some_iff.1 hrun
  let read (bytes : Bytes) : Except String Pending :=
    if bytes = toVec (pending (entriesScan.scan 1 w.shared.tables.requests) 7 21) then
      .ok (pending (entriesScan.scan 1 w.shared.tables.requests) 7 21)
    else .error "expected value"
  have hread : read (toVec (pending (entriesScan.scan 1 w.shared.tables.requests) 7 21)) =
      .ok (pending (entriesScan.scan 1 w.shared.tables.requests) 7 21) := if_pos rfl
  have htaken := pending_taken entriesScan sqlShared rfl _ w hw read 7 1 21 hread
  exact ⟨w, _, hw, hwaiting, rfl, htaken.2.1.2.1, htaken.1⟩

end Server.ConnectorRequests
