import RemoteHub.Server.AccessRequests

/-!
# Decisions about access requests

`decide` and `cancel` lock the row that they read until they commit (`Locked`), so a request is ended at
most once, and by what was checked of it: `requests_ended_once`. What a step does is said once
(`next_effect`).

`create` locks nothing between its check for a pending request and its insert: two calls can both pass
the check (`both_requests_pending`). One pending request of a kind is all there is if no other call of
that kind is between the two (`one_pending`).
-/

namespace Server.AccessRequests

open Model Except Interleave
open Sessions (minute)

variable {t t' : Tables} {s s' : Shared} {k : Nat} {f : Flight} {o : Option Flight} {e : Outside}
  {a : Asked} {d : Decide} {row row' request : RequestRow} {id : Uuid} {target : ObjectId} {now : Int}

/-! ## Columns -/

theorem columns_objectId {c : Columns} (h : c.objectId = some target) : columns target = c := by
  obtain ⟨folder, device, credential⟩ := c
  cases folder <;> cases device <;> cases credential <;> cases h <;> rfl

theorem objectId_columns (h : (columns target).objectId.isSome = true) :
    (columns target).objectId = some target := by
  cases target <;> first | rfl | cases h

/-! ## What the tables say -/

/-- The row holds what was asked for. -/
structure RequestRow.Asks (row : RequestRow) (a : Asked) : Prop where
  object : row.objectId = some a.target
  requester : row.requesterId = a.session.userId
  sid : row.requesterSid = a.sid
  name : row.requesterName = a.session.username
  role : row.role = a.role
  minutes : row.minutes = a.minutes

/-- The decision that a row holds: by somebody other than the requester, who managed the object in the
catalog of the decision. -/
structure Decide.Settles (d : Decide) (id : Uuid) (row : RequestRow) : Prop where
  request : d.id = id
  status : row.status = d.decision.status
  decidedBy : row.decidedBy = some d.session.userId
  other : d.session.userId ≠ row.requesterId
  manages : ∃ target, row.objectId = some target ∧
    d.catalog.authorize d.session.subject .manage target = true

/-- The grant of an approved request. -/
structure GrantRow.MadeBy (g : GrantRow) (a : Asked) (row : RequestRow) : Prop where
  approved : row.status = .approved
  asks : row.Asks a
  object : g.object = some a.target
  principalKind : g.principalKind = "user"
  principal : a.session.principal = some g.principalSid
  name : g.principalName = a.session.username
  role : g.role = a.role
  roles : g.role = .connect ∨ g.role = .reveal
  ends : ∃ decidedAt expiresAt, row.decidedAt = some decidedAt ∧ g.expiresAt = some expiresAt ∧
    expiresAt ≤ decidedAt + a.minutes * minute

structure Sound (t : Tables) : Prop where
  asked : ∀ id row, t.requests.lookup id = some row → ∃ a ∈ t.asked, a.id = id ∧ row.Asks a
  ended : ∀ e ∈ t.endings, e.request ∈ t.asked.map (·.id) ∧
    ∀ row, t.requests.lookup e.request = some row → row.status ≠ .pending
  once : (t.endings.map Ending.request).Nodup
  decided : ∀ id row, t.requests.lookup id = some row → row.status = .approved ∨ row.status = .denied →
    ∃ d, .decided d ∈ t.endings ∧ d.Settles id row
  cancelled : ∀ id row, t.requests.lookup id = some row → row.status = .cancelled →
    ∃ session, .cancelled session id ∈ t.endings ∧ session.userId = row.requesterId
  grants : ∀ id g r, t.grants.lookup id = some g → g.requestId = some r →
    ∃ row a, t.requests.lookup r = some row ∧ a ∈ t.asked ∧ a.id = r ∧ g.MadeBy a row
  oneGrant : ∀ id id' g g' r, t.grants.lookup id = some g → t.grants.lookup id' = some g' →
    g.requestId = some r → g'.requestId = some r → id = id'

/-- A request that has been ended stays as it is, and its id is not used again. -/
structure Later (t t' : Tables) : Prop where
  asked : ∀ id ∈ t.asked.map (·.id), id ∈ t'.asked.map (·.id)
  rows : ∀ id ∈ t.asked.map (·.id), ∀ row', t'.requests.lookup id = some row' →
    ∃ row, t.requests.lookup id = some row ∧ (row.status ≠ .pending → row' = row)

theorem Later.refl (t : Tables) : Later t t where
  asked _ h := h
  rows _ _ row' hrow' := ⟨row', hrow', fun _ => rfl⟩

theorem Later.trans {t'' : Tables} (h : Later t t') (h' : Later t' t'') : Later t t'' where
  asked id hid := h'.asked id (h.asked id hid)
  rows id hid row'' hrow'' := by
    obtain ⟨row', hrow', hsame'⟩ := h'.rows id (h.asked id hid) row'' hrow''
    obtain ⟨row, hrow, hsame⟩ := h.rows id hid row' hrow'
    refine ⟨row, hrow, fun hended => ?_⟩
    have heq : row' = row := hsame hended
    rw [hsame' (by rw [heq]; exact hended), heq]

theorem Sound.mem_asked (hs : Sound t) (hrow : t.requests.lookup id = some row) :
    id ∈ t.asked.map (·.id) := by
  obtain ⟨a, ha, rfl, -⟩ := hs.asked id row hrow
  exact List.mem_map_of_mem ha

/-- A pending request has made no grant. -/
theorem Sound.no_grant (hs : Sound t) (hrow : t.requests.lookup id = some row)
    (hpending : row.status = .pending) {i : Uuid} {g : GrantRow} (hg : t.grants.lookup i = some g) :
    g.requestId ≠ some id := by
  intro hr
  obtain ⟨row', _, hrow', -, -, hmade⟩ := hs.grants i g id hg hr
  rw [hrow] at hrow'
  cases hrow'
  rw [hmade.approved] at hpending
  cases hpending

/-! ## Writes -/

/-- Rows are deleted, and grants that no request made come and go. -/
theorem Sound.shrink (hs : Sound t) (hasked : t'.asked = t.asked) (hendings : t'.endings = t.endings)
    (hrequests : ∀ id row, t'.requests.lookup id = some row → t.requests.lookup id = some row)
    (hgrants : ∀ id g r, t'.grants.lookup id = some g → g.requestId = some r →
      t.grants.lookup id = some g ∧
        ∀ row, t.requests.lookup r = some row → t'.requests.lookup r = some row) : Sound t' where
  asked id row hrow := by
    rw [hasked]
    exact hs.asked id row (hrequests id row hrow)
  ended e he := by
    rw [hendings] at he
    rw [hasked]
    obtain ⟨hid, hrows⟩ := hs.ended e he
    exact ⟨hid, fun row hrow => hrows row (hrequests _ row hrow)⟩
  once := by
    rw [hendings]
    exact hs.once
  decided id row hrow hstatus := by
    rw [hendings]
    exact hs.decided id row (hrequests id row hrow) hstatus
  cancelled id row hrow hstatus := by
    rw [hendings]
    exact hs.cancelled id row (hrequests id row hrow) hstatus
  grants id g r hg hr := by
    obtain ⟨hg, hkept⟩ := hgrants id g r hg hr
    obtain ⟨row, a, hrow, ha, hmade⟩ := hs.grants id g r hg hr
    rw [hasked]
    exact ⟨row, a, hkept row hrow, ha, hmade⟩
  oneGrant id id' g g' r hg hg' hr hr' :=
    hs.oneGrant id id' g g' r (hgrants id g r hg hr).1 (hgrants id' g' r hg' hr').1 hr hr'

theorem Later.shrink (hasked : t'.asked = t.asked)
    (hrequests : ∀ id row, t'.requests.lookup id = some row → t.requests.lookup id = some row) :
    Later t t' where
  asked id hid := by
    rw [hasked]
    exact hid
  rows id _ row' hrow' := ⟨row', hrequests id row' hrow', fun _ => rfl⟩

theorem Asked.of_row (h : a.row = some row) :
    row.Asks a ∧ row.status = .pending ∧ row.key = a.key := by
  unfold Asked.row at h
  split at h
  · rename_i hchecks
    cases h
    exact ⟨⟨objectId_columns hchecks.2.2, rfl, rfl, rfl, rfl, rfl⟩, rfl, rfl⟩
  · cases h

theorem create_eq_some (h : t.create a = some t') :
    ∃ row, a.row = some row ∧ a.id ∉ t.asked.map (·.id) ∧
      t' = { t with requests := t.requests.insert a.id row, asked := t.asked ++ [a] } := by
  unfold Tables.create at h
  split at h
  · cases h
  · rename_i hfresh
    obtain ⟨row, hrow, rfl⟩ := Option.map_eq_some_iff.1 h
    exact ⟨row, hrow, fun hid => hfresh (.inr hid), rfl⟩

/-- A new request: its id is that of no other one. -/
theorem create_keeps (hs : Sound t) (h : t.create a = some t') : Sound t' ∧ Later t t' := by
  obtain ⟨row, hrow, hfresh, rfl⟩ := create_eq_some h
  obtain ⟨hasks, hpending, -⟩ := Asked.of_row hrow
  have hold : ∀ {id row'}, (t.requests.insert a.id row).lookup id = some row' →
      (id = a.id ∧ row' = row) ∨ t.requests.lookup id = some row' := by
    intro id row' hrow'
    rw [HashMap.lookup_insert_eq] at hrow'
    split at hrow'
    · cases hrow'
      exact .inl ⟨‹_›, rfl⟩
    · exact .inr hrow'
  have hkept : ∀ {id row'}, t.requests.lookup id = some row' →
      (t.requests.insert a.id row).lookup id = some row' := by
    intro id row' hrow'
    rw [HashMap.lookup_insert_eq, if_neg, hrow']
    rintro rfl
    exact hfresh (hs.mem_asked hrow')
  have hasked : ∀ {b}, b ∈ t.asked → b ∈ t.asked ++ [a] := List.mem_append_left _
  have hids : ∀ {id}, id ∈ t.asked.map (·.id) → id ∈ (t.asked ++ [a]).map (·.id) := by
    intro id hid
    rw [List.map_append]
    exact List.mem_append_left _ hid
  refine ⟨⟨?_, ?_, hs.once, ?_, ?_, ?_, hs.oneGrant⟩, fun id hid => hids hid, ?_⟩
  · intro id row' hrow'
    rcases hold hrow' with ⟨rfl, rfl⟩ | hrow'
    · exact ⟨a, List.mem_append_right _ List.mem_cons_self, rfl, hasks⟩
    · obtain ⟨b, hb, hrest⟩ := hs.asked id row' hrow'
      exact ⟨b, hasked hb, hrest⟩
  · intro e he
    obtain ⟨hid, hrows⟩ := hs.ended e he
    refine ⟨hids hid, fun row' hrow' => ?_⟩
    rcases hold hrow' with ⟨heq, -⟩ | hrow'
    · exact absurd (heq ▸ hid) hfresh
    · exact hrows row' hrow'
  · intro id row' hrow' hstatus
    rcases hold hrow' with ⟨-, rfl⟩ | hrow'
    · rw [hpending] at hstatus
      rcases hstatus with hstatus | hstatus <;> cases hstatus
    · exact hs.decided id row' hrow' hstatus
  · intro id row' hrow' hstatus
    rcases hold hrow' with ⟨-, rfl⟩ | hrow'
    · rw [hpending] at hstatus
      cases hstatus
    · exact hs.cancelled id row' hrow' hstatus
  · intro id g r hg hr
    obtain ⟨row', b, hrow', hb, hmade⟩ := hs.grants id g r hg hr
    exact ⟨row', b, hkept hrow', hasked hb, hmade⟩
  · intro id hid row' hrow'
    rcases hold hrow' with ⟨rfl, -⟩ | hrow'
    · exact absurd hid hfresh
    · exact ⟨row', hrow', fun _ => rfl⟩

/-- How a pending request is ended: what is asked for stays. -/
structure Ends (end' : Ending) (row row' : RequestRow) : Prop where
  asks : ∀ a, row.Asks a → row'.Asks a
  status : row'.status ≠ .pending
  decided : row'.status = .approved ∨ row'.status = .denied →
    ∃ d, end' = .decided d ∧ d.Settles end'.request row'
  cancelled : row'.status = .cancelled →
    ∃ session, end' = .cancelled session end'.request ∧ session.userId = row'.requesterId

/-- The row of `end'` changes, with the log. -/
def Tables.endWith (t : Tables) (end' : Ending) (row' : RequestRow) : Tables :=
  { t with
    requests := t.requests.insert end'.request row'
    endings := t.endings ++ [end'] }

theorem lookup_endWith {end' : Ending} {id' : Uuid} :
    (t.endWith end' row').requests.lookup id' =
      if id' = end'.request then some row' else t.requests.lookup id' :=
  HashMap.lookup_insert_eq ..

theorem Sound.endWith {end' : Ending} (hs : Sound t) (hrow : t.requests.lookup end'.request = some row)
    (hpending : row.status = .pending) (hends : Ends end' row row') : Sound (t.endWith end' row') := by
  have hold : ∀ {id row''}, (t.endWith end' row').requests.lookup id = some row'' →
      (id = end'.request ∧ row'' = row') ∨ (id ≠ end'.request ∧ t.requests.lookup id = some row'') := by
    intro id row'' hrow''
    rw [lookup_endWith] at hrow''
    split at hrow''
    · cases hrow''
      exact .inl ⟨‹_›, rfl⟩
    · exact .inr ⟨‹_›, hrow''⟩
  have hnew : end' ∈ t.endings ++ [end'] := List.mem_append_right _ List.mem_cons_self
  refine ⟨?_, ?_, ?_, ?_, ?_, ?_, hs.oneGrant⟩
  · intro id row'' hrow''
    rcases hold hrow'' with ⟨rfl, rfl⟩ | ⟨-, hrow''⟩
    · obtain ⟨a, ha, hid, hasks⟩ := hs.asked _ row hrow
      exact ⟨a, ha, hid, hends.asks a hasks⟩
    · exact hs.asked id row'' hrow''
  · intro e he
    have hstatus : ∀ row'', (t.endWith end' row').requests.lookup e.request = some row'' →
        (∀ row, t.requests.lookup e.request = some row → row.status ≠ .pending) ∨ e = end' →
        row''.status ≠ .pending := by
      intro row'' hrow'' hcase
      rcases hold hrow'' with ⟨-, rfl⟩ | ⟨hne, hrow''⟩
      · exact hends.status
      · rcases hcase with hcase | rfl
        · exact hcase row'' hrow''
        · exact absurd rfl hne
    rcases List.mem_append.1 he with he | he
    · obtain ⟨hid, hrows⟩ := hs.ended e he
      exact ⟨hid, fun row'' hrow'' => hstatus row'' hrow'' (.inl hrows)⟩
    · cases List.mem_singleton.1 he
      exact ⟨hs.mem_asked hrow, fun row'' hrow'' => hstatus row'' hrow'' (.inr rfl)⟩
  · -- the request was pending, so nothing had ended it
    have hfirst : end'.request ∉ t.endings.map Ending.request := by
      intro hmem
      obtain ⟨e, he, heq⟩ := List.mem_map.1 hmem
      refine (hs.ended e he).2 row ?_ hpending
      rw [heq]
      exact hrow
    simp only [Tables.endWith, List.map_append, List.map_cons, List.map_nil]
    refine List.nodup_append.2 ⟨hs.once, List.nodup_singleton _, ?_⟩
    intro id hid id' hid' heq
    rw [List.mem_singleton] at hid'
    subst heq hid'
    exact hfirst hid
  · intro id row'' hrow'' hstatus
    rcases hold hrow'' with ⟨rfl, rfl⟩ | ⟨-, hrow''⟩
    · obtain ⟨d, hd, hsettles⟩ := hends.decided hstatus
      exact ⟨d, hd ▸ hnew, hsettles⟩
    · obtain ⟨d, hd, hsettles⟩ := hs.decided id row'' hrow'' hstatus
      exact ⟨d, List.mem_append_left _ hd, hsettles⟩
  · intro id row'' hrow'' hstatus
    rcases hold hrow'' with ⟨rfl, rfl⟩ | ⟨-, hrow''⟩
    · obtain ⟨session, hsession, hown⟩ := hends.cancelled hstatus
      exact ⟨session, hsession ▸ hnew, hown⟩
    · obtain ⟨session, hsession, hown⟩ := hs.cancelled id row'' hrow'' hstatus
      exact ⟨session, List.mem_append_left _ hsession, hown⟩
  · intro id g r hg hr
    obtain ⟨row'', a, hrow'', ha⟩ := hs.grants id g r hg hr
    refine ⟨row'', a, ?_, ha⟩
    rw [lookup_endWith, if_neg, hrow'']
    rintro rfl
    exact hs.no_grant hrow hpending hg hr

theorem Later.endWith {end' : Ending} (hrow : t.requests.lookup end'.request = some row)
    (hpending : row.status = .pending) : Later t (t.endWith end' row') where
  asked _ hid := hid
  rows id _ row'' hrow'' := by
    rw [lookup_endWith] at hrow''
    split at hrow''
    · subst id
      exact ⟨row, hrow, fun hended => absurd hpending hended⟩
    · exact ⟨row'', hrow'', fun _ => rfl⟩

/-- The first grant of a request. -/
theorem Sound.grant {i : Uuid} {g : GrantRow} (hs : Sound t) (hr : g.requestId = some id)
    (hrow : t.requests.lookup id = some row)
    (hmade : ∃ a ∈ t.asked, a.id = id ∧ g.MadeBy a row)
    (hnone : ∀ i' g', t.grants.lookup i' = some g' → g'.requestId ≠ some id) :
    Sound { t with grants := t.grants.insert i g } := by
  have hold : ∀ {i' g'}, (t.grants.insert i g).lookup i' = some g' →
      (i' = i ∧ g' = g) ∨ t.grants.lookup i' = some g' := by
    intro i' g' hg'
    rw [HashMap.lookup_insert_eq] at hg'
    split at hg'
    · cases hg'
      exact .inl ⟨‹_›, rfl⟩
    · exact .inr hg'
  refine ⟨hs.asked, hs.ended, hs.once, hs.decided, hs.cancelled, ?_, ?_⟩
  · intro i' g' r hg' hr'
    rcases hold hg' with ⟨-, rfl⟩ | hg'
    · rw [hr] at hr'
      cases hr'
      obtain ⟨a, ha, hid, hmade⟩ := hmade
      exact ⟨row, a, hrow, ha, hid, hmade⟩
    · exact hs.grants i' g' r hg' hr'
  · intro i' i'' g' g'' r hg' hg'' hr' hr''
    rcases hold hg' with ⟨hi', heq'⟩ | hold'
    · rcases hold hg'' with ⟨hi'', -⟩ | hold''
      · rw [hi', hi'']
      · rw [heq', hr] at hr'
        cases hr'
        exact absurd hr'' (hnone i'' g'' hold'')
    · rcases hold hg'' with ⟨-, heq''⟩ | hold''
      · rw [heq'', hr] at hr''
        cases hr''
        exact absurd hr' (hnone i' g' hold')
      · exact hs.oneGrant i' i'' g' g'' r hold' hold'' hr' hr''

/-- What `decide` checked of the row that it has locked. -/
structure Decide.Checked (d : Decide) (target : ObjectId) (request : RequestRow) : Prop where
  pending : request.status = .pending
  object : request.objectId = some target
  other : request.requesterId ≠ d.session.userId
  manages : d.catalog.authorize d.session.subject .manage target = true

theorem Decide.checked_of_check (h : d.check row = .ok target) : d.Checked target row := by
  obtain ⟨target', htarget, h⟩ := bind_eq_ok.1 h
  obtain ⟨_, hmanages, h⟩ := bind_eq_ok.1 h
  obtain ⟨_, hother, h⟩ := bind_eq_ok.1 h
  obtain ⟨_, hpending, h⟩ := bind_eq_ok.1 h
  cases pure_eq_ok.1 h
  rw [refuse_eq_ok] at hmanages hother hpending
  rw [Bool.not_eq_false] at hmanages
  exact ⟨not_not.1 hpending, elim_eq_ok.1 htarget, hother, hmanages⟩

theorem Decide.Checked.ends (h : d.Checked target row) :
    Ends (.decided d) row (row.decide d now) where
  asks _ ha := ⟨ha.object, ha.requester, ha.sid, ha.name, ha.role, ha.minutes⟩
  status := by
    intro hpending
    have hstatus : d.decision.status = .pending := hpending
    unfold Decision.status at hstatus
    split at hstatus <;> cases hstatus
  decided _ := ⟨d, rfl, rfl, rfl, rfl, fun heq => h.other heq.symm, target, h.object, h.manages⟩
  cancelled hcancelled := by
    have hstatus : d.decision.status = .cancelled := hcancelled
    unfold Decision.status at hstatus
    split at hstatus <;> cases hstatus

theorem Decide.Checked.made (h : d.Checked target row) (happrove : d.decision = .approve)
    (hasks : row.Asks a) :
    (d.grantRow target row (row.decide d now)).MadeBy a (row.decide d now) := by
  have hstatus : d.decision.status = .approved := by rw [happrove]; rfl
  have htarget : target = a.target := Option.some.inj (h.object.symm.trans hasks.object)
  have hsome : (columns a.target).objectId = some a.target := by
    rw [columns_objectId hasks.object]
    exact hasks.object
  refine ⟨hstatus, ⟨hasks.object, hasks.requester, hasks.sid, hasks.name, hasks.role, hasks.minutes⟩,
    ?_, rfl, ?_, hasks.name, hasks.role, row.roleCheck, now, now + row.minutes * minute, rfl,
    if_pos hstatus, ?_⟩
  · rw [htarget]
    exact hsome
  · rw [a.own]
    exact congrArg some hasks.sid.symm
  · rw [hasks.minutes]

theorem decide_keeps (hs : Sound t) (hrow : t.requests.lookup d.id = some request)
    (hchecked : d.Checked target request) (h : t.decide d target request now = some t') :
    Sound t' ∧ Later t t' ∧ ∀ id, id ≠ d.id → t'.requests.lookup id = t.requests.lookup id := by
  have hended : Sound (t.endWith (.decided d) (request.decide d now)) :=
    hs.endWith hrow hchecked.pending hchecked.ends
  have hlater : Later t (t.endWith (.decided d) (request.decide d now)) :=
    .endWith hrow hchecked.pending
  have hothers : ∀ id, id ≠ d.id →
      (t.endWith (.decided d) (request.decide d now)).requests.lookup id = t.requests.lookup id :=
    fun id hne => lookup_endWith.trans (if_neg hne)
  unfold Tables.decide at h
  simp only [hrow, Option.bind_some] at h
  split at h
  · cases h
    exact ⟨hended, hlater, hothers⟩
  · rename_i happrove
    split at h
    · cases h
    · cases h
      refine ⟨?_, ⟨hlater.asked, hlater.rows⟩, hothers⟩
      have hlookup : (t.endWith (.decided d) (request.decide d now)).requests.lookup d.id =
          some (request.decide d now) := lookup_endWith.trans (if_pos rfl)
      obtain ⟨a, ha, hid, hasks⟩ := hs.asked d.id request hrow
      exact hended.grant rfl hlookup ⟨a, ha, hid, hchecked.made happrove hasks⟩
        fun i g hg => hs.no_grant hrow hchecked.pending hg

theorem cancel_of_check {session : Session} (h : checkCancel session row = .ok target) :
    row.requesterId = session.userId ∧ row.status = .pending := by
  obtain ⟨_, hown, h⟩ := bind_eq_ok.1 h
  obtain ⟨_, hpending, -⟩ := bind_eq_ok.1 h
  rw [refuse_eq_ok] at hown hpending
  exact ⟨not_not.1 hown, not_not.1 hpending⟩

theorem cancel_keeps {session : Session} (now : Int) (hs : Sound t)
    (hrow : t.requests.lookup id = some row) (hpending : row.status = .pending)
    (hown : row.requesterId = session.userId) :
    Sound (t.cancel session id now) ∧ Later t (t.cancel session id now) ∧
      ∀ id', id' ≠ id → (t.cancel session id now).requests.lookup id' = t.requests.lookup id' := by
  have heq : t.cancel session id now = t.endWith (.cancelled session id) (row.cancel now) := by
    unfold Tables.cancel Tables.endWith HashMap.modify
    rw [hrow]
    rfl
  have hends : Ends (.cancelled session id) row (row.cancel now) := by
    refine ⟨fun _ ha => ⟨ha.object, ha.requester, ha.sid, ha.name, ha.role, ha.minutes⟩, nofun, ?_,
      fun _ => ⟨session, rfl, hown.symm⟩⟩
    rintro (hstatus | hstatus) <;> cases hstatus
  rw [heq]
  exact ⟨hs.endWith hrow hpending hends, .endWith hrow hpending,
    fun id' hne => lookup_endWith.trans (if_neg hne)⟩

/-! ## Grants and objects that others change -/

theorem mem_requestsOf {object : ObjectId} (hrow : t.requests.lookup id = some row) :
    id ∈ t.requestsOf object ↔ row.objectId = some object := by
  unfold Tables.requestsOf
  rw [List.mem_map]
  constructor
  · rintro ⟨e, he, rfl⟩
    obtain ⟨he, hobject⟩ := List.mem_filter.1 he
    rw [HashMap.lookup_eq_some.2 he] at hrow
    cases hrow
    exact of_decide_eq_true hobject
  · intro hobject
    exact ⟨⟨id, row⟩, List.mem_filter.2 ⟨HashMap.lookup_eq_some.1 hrow, decide_eq_true hobject⟩, rfl⟩

theorem deleteGrants_keeps (hs : Sound t) (p : Uuid → GrantRow → Prop) [∀ id g, Decidable (p id g)] :
    Sound (t.deleteGrants p) := by
  refine hs.shrink rfl rfl (fun _ _ h => h) fun id g r hg hr => ⟨?_, fun _ h => h⟩
  have hlookup : (t.deleteGrants p).grants.lookup id = _ :=
    HashMap.lookup_collect_where t.grants p id
  rw [hlookup] at hg
  exact (Option.filter_eq_some_iff.1 hg).1

/-- `add_grant` changes only grants without an end, which no request has made. -/
theorem addGrant_keeps (hs : Sound t) (i : Uuid) (g : GrantRow) : Sound (t.addGrant i g) := by
  unfold Tables.addGrant
  split
  · rename_i i' hi'
    have hpermanent : ∀ g', t.grants.lookup i' = some g' → g'.expiresAt = none := by
      intro g' hg'
      unfold Tables.permanentGrant at hi'
      split at hi'
      · cases hi'
      · obtain ⟨e, he, rfl⟩ := Option.map_eq_some_iff.1 hi'
        rw [HashMap.lookup_eq_some.2 (List.mem_of_find?_eq_some he)] at hg'
        cases hg'
        have hfound := List.find?_some he
        rw [Bool.and_eq_true, Bool.and_eq_true] at hfound
        exact Option.isNone_iff_eq_none.1 hfound.1.1
    refine hs.shrink rfl rfl (fun _ _ h => h) fun id g' r hg' hr => ⟨?_, fun _ h => h⟩
    rw [HashMap.lookup_modify] at hg'
    split at hg'
    · subst id
      obtain ⟨g'', hg'', rfl⟩ := Option.map_eq_some_iff.1 hg'
      obtain ⟨_, _, -, -, -, hmade⟩ := hs.grants i' g'' r hg'' hr
      obtain ⟨_, _, -, hends, -⟩ := hmade.ends
      rw [hpermanent g'' hg''] at hends
      cases hends
    · exact hg'
  · split
    · exact hs
    · refine hs.shrink rfl rfl (fun _ _ h => h) fun id g' r hg' hr => ⟨?_, fun _ h => h⟩
      rw [HashMap.lookup_insert_eq] at hg'
      split at hg'
      · cases hg'
        cases hr
      · exact hg'

theorem lookup_deleteObject {object : ObjectId} {row' : RequestRow} :
    (t.deleteObject object).requests.lookup id = some row' ↔
      id ∉ t.requestsOf object ∧ t.requests.lookup id = some row' := by
  have hlookup : (t.deleteObject object).requests.lookup id =
      if id ∈ t.requestsOf object then none else t.requests.lookup id :=
    HashMap.lookup_collect_unless t.requests (· ∈ t.requestsOf object) id
  rw [hlookup]
  by_cases hid : id ∈ t.requestsOf object
  · simp [hid]
  · simp [hid]

theorem deleteObject_keeps (hs : Sound t) (object : ObjectId) : Sound (t.deleteObject object) := by
  refine hs.shrink rfl rfl (fun _ _ h => (lookup_deleteObject.1 h).2) fun i g r hg hr => ?_
  have hlookup : (t.deleteObject object).grants.lookup i =
      ((t.deleteGrants fun _ g => g.object = some object).grants.lookup i).map fun g =>
        { g with requestId := g.requestId.filter (· ∉ t.requestsOf object) } := by
    unfold Tables.deleteObject
    exact HashMap.lookup_collect_entries _ (fun g : GrantRow =>
      { g with requestId := g.requestId.filter (· ∉ t.requestsOf object) }) i
  rw [hlookup] at hg
  obtain ⟨g', hg', rfl⟩ := Option.map_eq_some_iff.1 hg
  obtain ⟨hr', hkept⟩ := Option.filter_eq_some_iff.1 hr
  have hsame : g'.requestId.filter (· ∉ t.requestsOf object) = g'.requestId := hr.trans hr'.symm
  have hwhere := HashMap.lookup_collect_where t.grants (fun _ g => g.object = some object) i
  refine ⟨?_, fun row hrow => lookup_deleteObject.2 ⟨of_decide_eq_true hkept, hrow⟩⟩
  rw [show ({ g' with requestId := g'.requestId.filter (· ∉ t.requestsOf object) } : GrantRow) = g' by
    rw [hsame]]
  exact (Option.filter_eq_some_iff.1 (hwhere.symm.trans hg')).1

/-! ## Steps -/

/-- Call `k` has locked the row that it has read. -/
structure Locked (k : Nat) (s : Shared) (id : Uuid) (row : RequestRow) : Prop where
  row : s.tables.requests.lookup id = some row
  lock : s.locks id = some k

/-- What a call relies on. -/
def Ready (k : Nat) (s : Shared) : Flight → Prop
  | .decided d target request _ => Locked k s d.id request ∧ d.Checked target request
  | .cancelled session id _ => ∃ row, Locked k s id row ∧ row.requesterId = session.userId ∧
      row.status = .pending
  | _ => True

/-- The calls that have neither checked nor locked a row. -/
def Flight.early : Flight → Bool
  | .inserting _ | .decided .. | .cancelled .. => false
  | _ => true

theorem Ready.of_early (h : f.early = true) : Ready k s f := by
  cases f <;> trivial

/-- What a commit writes. -/
inductive Commit (t : Tables) : Flight → Tables → Prop
  | created (a : Asked) (t' : Tables) (h : t.create a = some t') : Commit t (.inserting a) t'
  | decided (d : Decide) (target : ObjectId) (request : RequestRow) (now : Int) (t' : Tables)
    (h : t.decide d target request now = some t') : Commit t (.decided d target request now) t'
  | cancelled (session : Session) (id : Uuid) (now : Int) :
    Commit t (.cancelled session id now) (t.cancel session id now)

/-- What a call checks once it has locked a row. -/
inductive Check (row : RequestRow) : Flight → Uuid → Flight → Prop
  | decided (d : Decide) (target : ObjectId) (now : Int) (h : d.Checked target row) :
    Check row (.deciding d now) d.id (.decided d target row now)
  | cancelled (session : Session) (id : Uuid) (now : Int) (hown : row.requesterId = session.userId)
    (hpending : row.status = .pending) :
    Check row (.cancelling session id now) id (.cancelled session id now)

/-- What a step of call `k` can do. -/
inductive Effect (k : Nat) (s : Shared) (f : Flight) : Shared → Option Flight → Prop
  | close (s' : Shared) (htables : s'.tables = s.tables) (hgivenUp : s'.givenUp = s.givenUp)
    (hlocks : ∀ k' id, k' ≠ k → s.locks id = some k' → s'.locks id = some k') : Effect k s f s' none
  | goOn (g : Flight) (hg : g.early = true) : Effect k s f s (some g)
  | inserting (a : Asked) (hf : f = .checked a) (hwaiting : s.tables.waiting a.key = false) :
    Effect k s f s (some (.inserting a))
  | locked (id : Uuid) (row : RequestRow) (g : Flight) (locks : Locks Uuid)
    (hlocks : s.locks.acquire k id = some locks) (hrow : s.tables.requests.lookup id = some row)
    (hcheck : Check row f id g) : Effect k s f { s with locks } (some g)
  | commit (s' : Shared) (hk : k ∉ s.givenUp) (hgivenUp : s'.givenUp = s.givenUp)
    (hlocks : s'.locks = s.locks.release k) (hcommit : Commit s.tables f s'.tables) :
    Effect k s f s' none

theorem close_effect {u : Shared} {answer : Answer (Option Uuid)}
    (h : u.close k answer = some (s', o)) (htables : u.tables = s.tables)
    (hgivenUp : u.givenUp = s.givenUp)
    (hlocks : ∀ k' id, s.locks id = some k' → u.locks id = some k') : Effect k s f s' o := by
  cases h
  exact .close _ htables hgivenUp fun k' id hne hk' => Locks.release_others hne (hlocks k' id hk')

theorem finish_effect {done : Option Tables} {answer : Option Uuid} (hk : k ∉ s.givenUp)
    (hcommit : ∀ t', done = some t' → Commit s.tables f t')
    (h : s.finish k done answer = some (s', o)) : Effect k s f s' o := by
  unfold Shared.finish at h
  split at h
  · cases h
    exact .commit _ hk rfl rfl (hcommit _ rfl)
  · exact close_effect h rfl rfl fun _ _ hk' => hk'

theorem lockRow_effect {check : RequestRow → Answer ObjectId} {g : ObjectId → RequestRow → Flight}
    (hcheck : ∀ row target, check row = .ok target → Check row f id (g target row))
    (h : s.lockRow k id check g = some (s', o)) : Effect k s f s' o := by
  unfold Shared.lockRow at h
  split at h
  · exact close_effect h rfl rfl fun _ _ hk' => hk'
  · rename_i row hrow
    obtain ⟨locks, hlocks, h⟩ := Option.bind_eq_some_iff.1 h
    split at h
    · exact close_effect h rfl rfl fun _ _ hk' => Locks.acquire_keeps hlocks hk'
    · rename_i target htarget
      cases h
      exact .locked id row _ locks hlocks hrow (hcheck row target htarget)

theorem next_effect (hn : f.next k s = some (s', o)) : Effect k s f s' o := by
  unfold Flight.next at hn
  split at hn
  · cases hn
    exact .close _ rfl rfl fun k' id hne hk' => Locks.release_others hne hk'
  rename_i hk
  cases f with
  | create session catalog id input =>
    simp only [Flight.statement] at hn
    split at hn
    · exact close_effect hn rfl rfl fun _ _ hk' => hk'
    · cases hn
      exact .goOn _ rfl
  | checked a =>
    simp only [Flight.statement] at hn
    split at hn
    · exact close_effect hn rfl rfl fun _ _ hk' => hk'
    · rename_i hwaiting
      cases hn
      exact .inserting a rfl (Bool.not_eq_true _ ▸ hwaiting)
  | inserting a =>
    exact finish_effect hk (fun t' ht' => .created a t' ht') hn
  | decide d =>
    cases hn
    exact .goOn _ rfl
  | deciding d now =>
    exact lockRow_effect (fun row target h => .decided d target now (d.checked_of_check h)) hn
  | decided d target request now =>
    exact finish_effect hk (fun t' ht' => .decided d target request now t' ht') hn
  | cancel session id =>
    cases hn
    exact .goOn _ rfl
  | cancelling session id now =>
    refine lockRow_effect (fun row target h => ?_) hn
    obtain ⟨hown, hpending⟩ := cancel_of_check h
    exact .cancelled session id now hown hpending
  | cancelled session id now =>
    have h : s.finish k (some (s.tables.cancel session id now)) none = some (s', o) := hn
    refine finish_effect hk (fun t' ht' => ?_) h
    cases ht'
    exact .cancelled session id now

/-- What a commit keeps; the rows that others have locked are not among those it writes. -/
theorem commit_keeps (hs : Sound s.tables) (hf : Ready k s f) (hc : Commit s.tables f t') :
    Sound t' ∧ Later s.tables t' ∧ ∀ k' id row, k' ≠ k → s.locks id = some k' →
      s.tables.requests.lookup id = some row → t'.requests.lookup id = some row := by
  have hdiffer : ∀ {k' id id'}, k' ≠ k → s.locks id = some k' → s.locks id' = some k → id ≠ id' := by
    rintro k' id id' hne hk' hk rfl
    rw [hk'] at hk
    exact hne (Option.some.inj hk)
  cases hc with
  | created a _ h =>
    obtain ⟨hsound, hlater⟩ := create_keeps hs h
    obtain ⟨row, -, hfresh, rfl⟩ := create_eq_some h
    refine ⟨hsound, hlater, fun k' id row' _ _ hrow' => ?_⟩
    simp only
    rw [HashMap.lookup_insert_eq, if_neg, hrow']
    rintro rfl
    exact hfresh (hs.mem_asked hrow')
  | decided d target request now _ h =>
    obtain ⟨hlocked, hchecked⟩ := hf
    obtain ⟨hsound, hlater, hothers⟩ := decide_keeps hs hlocked.row hchecked h
    refine ⟨hsound, hlater, fun k' id row' hne hk' hrow' => ?_⟩
    rw [hothers id (hdiffer hne hk' hlocked.lock)]
    exact hrow'
  | cancelled session id now =>
    obtain ⟨row, hlocked, hown, hpending⟩ := hf
    obtain ⟨hsound, hlater, hothers⟩ := cancel_keeps now hs hlocked.row hpending hown
    refine ⟨hsound, hlater, fun k' id' row' hne hk' hrow' => ?_⟩
    rw [hothers id' (hdiffer hne hk' hlocked.lock)]
    exact hrow'

/-- What a step keeps for the other calls. -/
structure Keeps (k : Nat) (s s' : Shared) : Prop where
  sound : Sound s'.tables
  later : Later s.tables s'.tables
  others : ∀ k' id row, k' ≠ k → s.locks id = some k' → s.tables.requests.lookup id = some row →
    s'.locks id = some k' ∧ s'.tables.requests.lookup id = some row

theorem Keeps.same (hs : Sound s.tables) (htables : s'.tables = s.tables)
    (hlocks : ∀ k' id, k' ≠ k → s.locks id = some k' → s'.locks id = some k') : Keeps k s s' where
  sound := by
    rw [htables]
    exact hs
  later := by
    rw [htables]
    exact .refl _
  others k' id row hne hk' hrow := by
    rw [htables]
    exact ⟨hlocks k' id hne hk', hrow⟩

theorem next_keeps (hs : Sound s.tables) (hf : Ready k s f) (hn : f.next k s = some (s', o)) :
    Keeps k s s' ∧ ∀ g, o = some g → Ready k s' g := by
  cases next_effect hn with
  | close _ htables _ hlocks => exact ⟨.same hs htables hlocks, ready_of_none⟩
  | goOn g hg =>
    refine ⟨.same hs rfl fun _ _ _ hk' => hk', fun g' hg' => ?_⟩
    cases hg'
    exact .of_early hg
  | inserting a =>
    refine ⟨.same hs rfl fun _ _ _ hk' => hk', fun g' hg' => ?_⟩
    cases hg'
    trivial
  | locked id row g locks hlocks hrow hcheck =>
    refine ⟨.same hs rfl fun _ _ _ hk' => Locks.acquire_keeps hlocks hk', fun g' hg' => ?_⟩
    cases hg'
    have hlock : locks id = some k := Locks.acquire_held hlocks
    cases hcheck with
    | decided d target now h => exact ⟨⟨hrow, hlock⟩, h⟩
    | cancelled session _ now hown hpending => exact ⟨row, ⟨hrow, hlock⟩, hown, hpending⟩
  | commit _ _ _ hlocks hcommit =>
    obtain ⟨hsound, hlater, hothers⟩ := commit_keeps hs hf hcommit
    refine ⟨⟨hsound, hlater, fun k' id row hne hk' hrow => ⟨?_, hothers k' id row hne hk' hrow⟩⟩,
      ready_of_none⟩
    rw [hlocks]
    exact Locks.release_others hne hk'

theorem Ready.keep {g : Flight} (hg : Ready k s g)
    (h : ∀ id row, s.locks id = some k → s.tables.requests.lookup id = some row →
      s'.locks id = some k ∧ s'.tables.requests.lookup id = some row) : Ready k s' g := by
  have hlocked : ∀ {id row}, Locked k s id row → Locked k s' id row := by
    intro id row hl
    obtain ⟨hlock, hrow⟩ := h id row hl.lock hl.row
    exact ⟨hrow, hlock⟩
  cases g with
  | decided => exact ⟨hlocked hg.1, hg.2⟩
  | cancelled =>
    obtain ⟨row, hl, hrest⟩ := hg
    exact ⟨row, hlocked hl, hrest⟩
  | _ => trivial

theorem outside_keeps (hs : Sound s.tables) (ho : s.outside e = some s') :
    Sound s'.tables ∧ Later s.tables s'.tables ∧ ∀ k id row, s.locks id = some k →
      s.tables.requests.lookup id = some row →
      s'.locks id = some k ∧ s'.tables.requests.lookup id = some row := by
  cases e with
  | tick clock =>
    simp only [Shared.outside] at ho
    split at ho
    · cases ho
      exact ⟨hs, .refl _, fun _ _ _ hk hrow => ⟨hk, hrow⟩⟩
    · cases ho
  | giveUp k =>
    cases ho
    exact ⟨hs, .refl _, fun _ _ _ hk hrow => ⟨hk, hrow⟩⟩
  | createObject object =>
    cases ho
    exact ⟨hs.shrink rfl rfl (fun _ _ h => h) fun _ _ _ h _ => ⟨h, fun _ h => h⟩,
      .shrink rfl fun _ _ h => h, fun _ _ _ hk hrow => ⟨hk, hrow⟩⟩
  | deleteObject object =>
    simp only [Shared.outside] at ho
    split at ho
    · rename_i hfree
      cases ho
      refine ⟨deleteObject_keeps hs object, .shrink rfl fun _ _ h => (lookup_deleteObject.1 h).2, ?_⟩
      intro k id row hk hrow
      refine ⟨hk, lookup_deleteObject.2 ⟨fun hid => ?_, hrow⟩⟩
      have hnone := of_decide_eq_true (List.all_eq_true.1 hfree id hid)
      rw [hk] at hnone
      cases hnone
    · cases ho
  | addGrant id row =>
    cases ho
    have hrequests : (s.tables.addGrant id row).requests = s.tables.requests ∧
        (s.tables.addGrant id row).asked = s.tables.asked := by
      unfold Tables.addGrant
      split
      · exact ⟨rfl, rfl⟩
      · split <;> exact ⟨rfl, rfl⟩
    refine ⟨addGrant_keeps hs id row, .shrink hrequests.2 fun _ _ h => ?_, fun _ _ _ hk hrow => ?_⟩
    · rw [← hrequests.1]
      exact h
    · rw [hrequests.1]
      exact ⟨hk, hrow⟩
  | removeGrant id =>
    cases ho
    exact ⟨deleteGrants_keeps hs fun id' _ => id' = id, .shrink rfl fun _ _ h => h,
      fun _ _ _ hk hrow => ⟨hk, hrow⟩⟩
  | removeGrants sid =>
    cases ho
    exact ⟨deleteGrants_keeps hs fun _ g => g.principalSid = sid, .shrink rfl fun _ _ h => h,
      fun _ _ _ hk hrow => ⟨hk, hrow⟩⟩

/-! ## Runs -/

theorem sound_step {w w' : World Shared Flight} {ev : Interleave.Event Flight Outside}
    (hw : Holds (Sound ·.tables) Ready w) (hs : step system w ev = some w') :
    Holds (Sound ·.tables) Ready w' ∧ Later w.shared.tables w'.shared.tables := by
  constructor
  · refine hw.step hs ?_ ?_ ?_
    · intro k f hf
      cases f <;> trivial
    · intro k f s o _ hf hn
      obtain ⟨hkeeps, hready⟩ := next_keeps hw.shared (hw.flights k f hf) hn
      refine ⟨hkeeps.sound, hready, fun k' g hne hg => ?_⟩
      exact (hw.flights k' g hg).keep fun id row => hkeeps.others k' id row hne
    · intro e s _ ho
      obtain ⟨hsound, -, hothers⟩ := outside_keeps hw.shared ho
      exact ⟨hsound, fun k g hg => (hw.flights k g hg).keep (hothers k)⟩
  · rcases step_cases hs with ⟨k, f, -, -, -, rfl⟩ | ⟨k, f, s, o, -, hf, hn, rfl⟩ | ⟨e, s, -, ho, rfl⟩
    · exact .refl _
    · exact (next_keeps hw.shared (hw.flights k f hf) hn).1.later
    · exact (outside_keeps hw.shared ho).2.1

theorem sound_run {w w' : World Shared Flight} {es : List (Interleave.Event Flight Outside)}
    (hw : Holds (Sound ·.tables) Ready w) (hr : Run.run (step system) w es = some w') :
    Holds (Sound ·.tables) Ready w' ∧ Later w.shared.tables w'.shared.tables := by
  refine Run.inv_of_run (I := fun _ w' => Holds (Sound ·.tables) Ready w' ∧
    Later w.shared.tables w'.shared.tables) ⟨hw, .refl _⟩ ?_ hr
  intro es t e t' _ hs ht
  obtain ⟨ht', hlater⟩ := sound_step ht.1 hs
  exact ⟨ht', ht.2.trans hlater⟩

theorem sound_empty : Sound {} where
  asked id row hrow := by cases hrow
  ended e he := by cases he
  once := List.nodup_nil
  decided id row hrow := by cases hrow
  cancelled id row hrow := by cases hrow
  grants id g r hg := by cases hg
  oneGrant id id' g g' r hg := by cases hg

/-- **Requests are ended once, by what was checked**: over every interleaving, each request leaves the
pending state at most once and then stays as it is; it was approved or denied by somebody other than
its requester, who managed the object; and the grants that requests made are those of approved ones, at
most one each, for what was asked. -/
theorem requests_ended_once (clock : Int) {es : List (Interleave.Event Flight Outside)}
    {w : World Shared Flight}
    (hr : Run.run (step system) (World.quiet { clock }) es = some w) :
    (w.shared.tables.endings.map Ending.request).Nodup ∧
    (∀ id row, w.shared.tables.requests.lookup id = some row → row.status ≠ .pending →
      ∀ es' w', Run.run (step system) w es' = some w' →
        ∀ row', w'.shared.tables.requests.lookup id = some row' → row' = row) ∧
    (∀ id row, w.shared.tables.requests.lookup id = some row →
      row.status = .approved ∨ row.status = .denied →
        ∃ d, .decided d ∈ w.shared.tables.endings ∧ d.Settles id row) ∧
    (∀ i g r, w.shared.tables.grants.lookup i = some g → g.requestId = some r →
      ∃ row a, w.shared.tables.requests.lookup r = some row ∧ a ∈ w.shared.tables.asked ∧ a.id = r ∧
        g.MadeBy a row) ∧
    ∀ i i' g g' r, w.shared.tables.grants.lookup i = some g →
      w.shared.tables.grants.lookup i' = some g' → g.requestId = some r → g'.requestId = some r →
        i = i' := by
  have hw := (sound_run (.quiet sound_empty) hr).1
  refine ⟨hw.shared.once, ?_, hw.shared.decided, hw.shared.grants, hw.shared.oneGrant⟩
  intro id row hrow hended es' w' hr' row' hrow'
  obtain ⟨row'', hrow'', hsame⟩ :=
    (sound_run hw hr').2.rows id (hw.shared.mem_asked hrow) row' hrow'
  rw [hrow] at hrow''
  cases hrow''
  exact hsame hended

/-- A user without more than `list` on a device, and an administrator. -/
def requester : Session := ⟨2, "requester", some "S-1", none, [], [], false⟩

def administrator : Session := ⟨3, "administrator", some "S-2", none, [], [], true⟩

def listed : Catalog :=
  .new { folders := [(9, none)], devices := [(1, 9)] } [⟨.device 1, "S-1", .list, none⟩] 0

/-- `create` of a request for the device, under `id`. -/
def asks (id : Uuid) : Flight := .create requester listed id ⟨"device", 1, "connect", 60, "updates"⟩

/-- The requester takes the request back while it is approved. -/
def approvedMeanwhile : List (Interleave.Event Flight Outside) :=
  [.outside (.createObject (.device 1)), .start 0 (asks 10), .next 0, .next 0, .next 0,
    .start 1 (.decide ⟨10, administrator, listed, .approve, 20⟩), .start 2 (.cancel requester 10),
    .next 1, .next 2, .next 1, .outside (.tick 5), .next 1, .next 2]

theorem requests_ended_once_approved :
    ∃ w g, Run.run (step system) (World.quiet { clock := 0 }) approvedMeanwhile = some w ∧
      w.shared.tables.grants.lookup 20 = some g ∧ g.requestId = some 10 ∧
      ∃ row a, w.shared.tables.requests.lookup 10 = some row ∧ a ∈ w.shared.tables.asked ∧
        a.id = 10 ∧ g.MadeBy a row := by
  have hrun : (Run.run (step system) (World.quiet { clock := 0 }) approvedMeanwhile).map
      (fun w => (w.shared.tables.grants.lookup 20).map (·.requestId)) = some (some (some 10)) := by
    decide
  obtain ⟨w, hr, hw⟩ := Option.map_eq_some_iff.1 hrun
  obtain ⟨g, hg, hid⟩ := Option.map_eq_some_iff.1 hw
  exact ⟨w, g, hr, hg, hid, (requests_ended_once 0 hr).2.2.2.1 20 g 10 hg hid⟩

/-! ## Pending requests -/

/-- What a call is about to insert. -/
def Flight.asks : Flight → Option Key
  | .inserting a => some a.key
  | _ => none

/-- Call `k` is between its check and its commit. -/
def Inserts (w : World Shared Flight) (k : Nat) (key : Key) : Prop :=
  k ∉ w.shared.givenUp ∧ ∃ f, w.flights.lookup k = some f ∧ f.asks = some key

def Pending (t : Tables) (id : Uuid) (key : Key) : Prop :=
  ∃ row, t.requests.lookup id = some row ∧ row.status = .pending ∧ row.key = key

/-- For each key there is one pending request, one call that inserts it, or neither. -/
structure Single (w : World Shared Flight) : Prop where
  rows : ∀ id id' key, Pending w.shared.tables id key → Pending w.shared.tables id' key → id = id'
  calls : ∀ k k' key, Inserts w k key → Inserts w k' key → k = k'
  apart : ∀ k id key, Inserts w k key → ¬Pending w.shared.tables id key

theorem Single.fewer {w w' : World Shared Flight} (hw : Single w)
    (hrows : ∀ id key, Pending w'.shared.tables id key → Pending w.shared.tables id key)
    (hcalls : ∀ k key, Inserts w' k key → Inserts w k key) : Single w' where
  rows id id' key h h' := hw.rows id id' key (hrows id key h) (hrows id' key h')
  calls k k' key h h' := hw.calls k k' key (hcalls k key h) (hcalls k' key h')
  apart k id key h h' := hw.apart k id key (hcalls k key h) (hrows id key h')

/-- A call finds nothing like it, and nobody else is about to insert it. -/
theorem Single.check {w w' : World Shared Flight} {key : Key} (hw : Single w)
    (hrows : ∀ id key, Pending w'.shared.tables id key → Pending w.shared.tables id key)
    (hcalls : ∀ k' key', Inserts w' k' key' → Inserts w k' key' ∨ (k' = k ∧ key' = key))
    (hnone : ∀ id, ¬Pending w.shared.tables id key) (halone : ∀ k', ¬Inserts w k' key) :
    Single w' where
  rows id id' key h h' := hw.rows id id' key (hrows id key h) (hrows id' key h')
  calls k₁ k₂ key' h₁ h₂ := by
    rcases hcalls k₁ key' h₁ with h₁ | ⟨rfl, rfl⟩
    · rcases hcalls k₂ key' h₂ with h₂ | ⟨-, rfl⟩
      · exact hw.calls k₁ k₂ key' h₁ h₂
      · exact absurd h₁ (halone k₁)
    · rcases hcalls k₂ key' h₂ with h₂ | ⟨rfl, -⟩
      · exact absurd h₂ (halone k₂)
      · rfl
  apart k' id key' h h' := by
    rcases hcalls k' key' h with h | ⟨-, rfl⟩
    · exact hw.apart k' id key' h (hrows id key' h')
    · exact hnone id (hrows id key' h')

/-- A call inserts what it was about to. -/
theorem Single.insert {w w' : World Shared Flight} {key : Key} {i : Uuid} (hw : Single w)
    (hk : Inserts w k key)
    (hrows : ∀ id' key', Pending w'.shared.tables id' key' →
      Pending w.shared.tables id' key' ∨ (id' = i ∧ key' = key))
    (hcalls : ∀ k' key', Inserts w' k' key' → k' ≠ k ∧ Inserts w k' key') : Single w' where
  rows id₁ id₂ key' h₁ h₂ := by
    rcases hrows id₁ key' h₁ with h₁ | ⟨rfl, rfl⟩
    · rcases hrows id₂ key' h₂ with h₂ | ⟨-, rfl⟩
      · exact hw.rows id₁ id₂ key' h₁ h₂
      · exact absurd h₁ (hw.apart k id₁ key' hk)
    · rcases hrows id₂ key' h₂ with h₂ | ⟨rfl, -⟩
      · exact absurd h₂ (hw.apart k id₂ key' hk)
      · rfl
  calls k₁ k₂ key' h₁ h₂ := hw.calls k₁ k₂ key' (hcalls k₁ key' h₁).2 (hcalls k₂ key' h₂).2
  apart k' id' key' h h' := by
    obtain ⟨hne, h⟩ := hcalls k' key' h
    rcases hrows id' key' h' with h' | ⟨-, rfl⟩
    · exact hw.apart k' id' key' h h'
    · exact hne (hw.calls k' k key' h hk)

theorem waiting_eq_false {key : Key} (h : t.waiting key = false) (id : Uuid) : ¬Pending t id key := by
  rintro ⟨row, hrow, hpending, hkey⟩
  have hnot := List.any_eq_false.1 h ⟨id, row⟩ (HashMap.lookup_eq_some.1 hrow)
  exact hnot (by simp [hpending, hkey])

/-- Only `create` makes requests pending. -/
theorem commit_pending {key : Key} (hc : Commit t f t') (h : Pending t' id key) :
    Pending t id key ∨ ∃ a, f = .inserting a ∧ id = a.id ∧ key = a.key := by
  obtain ⟨row', hrow', hpending, rfl⟩ := h
  cases hc with
  | created a _ h =>
    obtain ⟨row, hrow, -, rfl⟩ := create_eq_some h
    rw [HashMap.lookup_insert_eq] at hrow'
    split at hrow'
    · cases hrow'
      exact .inr ⟨a, rfl, ‹_›, (Asked.of_row hrow).2.2⟩
    · exact .inl ⟨row', hrow', hpending, rfl⟩
  | decided d target request now _ h =>
    obtain ⟨row, -, h⟩ := Option.bind_eq_some_iff.1 h
    have hrequests : t'.requests = t.requests.insert d.id (row.decide d now) := by
      simp only at h
      split at h
      · cases h
        rfl
      · split at h
        · cases h
        · cases h
          rfl
    rw [hrequests, HashMap.lookup_insert_eq] at hrow'
    split at hrow'
    · cases hrow'
      have hstatus : d.decision.status = .pending := hpending
      unfold Decision.status at hstatus
      split at hstatus <;> cases hstatus
    · exact .inl ⟨row', hrow', hpending, rfl⟩
  | cancelled session id' now =>
    simp only [Tables.cancel, HashMap.lookup_modify] at hrow'
    split at hrow'
    · obtain ⟨row, -, rfl⟩ := Option.map_eq_some_iff.1 hrow'
      cases hpending
    · exact .inl ⟨row', hrow', hpending, rfl⟩

/-- A call checks for pending requests only while no other one is about to insert the like. -/
def Flight.Alone (w : World Shared Flight) : Flight → Prop
  | .checked a => ∀ e ∈ w.flights.entries, e.1 ∉ w.shared.givenUp → e.2.asks ≠ some a.key
  | _ => True

def Alone (w : World Shared Flight) : Interleave.Event Flight Outside → Prop
  | .next k => ∀ f ∈ w.flights.lookup k, f.Alone w
  | _ => True

instance (w : World Shared Flight) (f : Flight) : Decidable (f.Alone w) :=
  match f with
  | .checked a => inferInstanceAs (Decidable (∀ e ∈ w.flights.entries,
      e.1 ∉ w.shared.givenUp → e.2.asks ≠ some a.key))
  | .create .. | .inserting _ | .decide _ | .deciding .. | .decided .. | .cancel .. | .cancelling ..
  | .cancelled .. => .isTrue trivial

instance (w : World Shared Flight) (ev : Interleave.Event Flight Outside) : Decidable (Alone w ev) :=
  match ev with
  | .next k => inferInstanceAs (Decidable (∀ f ∈ w.flights.lookup k, f.Alone w))
  | .start .. | .outside _ => .isTrue trivial

/-- The other calls do not change. -/
theorem inserts_put {w : World Shared Flight} {s' : Shared} {k' : Nat} {key : Key}
    (hgivenUp : s'.givenUp = w.shared.givenUp) (h : Inserts ⟨s', put w.flights k o⟩ k' key) :
    (k' ≠ k ∧ Inserts w k' key) ∨ (k' = k ∧ ∃ g, o = some g ∧ g.asks = some key) := by
  obtain ⟨hk', f, hf, hasks⟩ := h
  rcases of_lookup_put hf with ⟨rfl, ho⟩ | ⟨hne, hf⟩
  · exact .inr ⟨rfl, f, ho, hasks⟩
  · exact .inl ⟨hne, hgivenUp ▸ hk', f, hf, hasks⟩

theorem single_next {w : World Shared Flight} (hw : Single w) (hf : w.flights.lookup k = some f)
    (hC : f.Alone w) (hn : f.next k w.shared = some (s', o)) : Single ⟨s', put w.flights k o⟩ := by
  have hearly : ∀ {g : Flight}, g.early = true → g.asks = none := by
    intro g hg
    cases g <;> first | rfl | cases hg
  cases next_effect hn with
  | close _ htables hgivenUp =>
    refine hw.fewer (fun id key h => htables ▸ h) fun k' key h => ?_
    rcases inserts_put hgivenUp h with ⟨-, h⟩ | ⟨-, g, ho, -⟩
    · exact h
    · cases ho
  | goOn g hg =>
    refine hw.fewer (fun id key h => h) fun k' key h => ?_
    rcases inserts_put rfl h with ⟨-, h⟩ | ⟨-, g, ho, hasks⟩
    · exact h
    · cases ho
      rw [hearly hg] at hasks
      cases hasks
  | inserting a hchecked hwaiting =>
    subst hchecked
    refine hw.check (k := k) (fun id key h => h) (fun k' key h => ?_) (waiting_eq_false hwaiting) ?_
    · rcases inserts_put rfl h with ⟨-, h⟩ | ⟨rfl, g, ho, hasks⟩
      · exact .inl h
      · cases ho
        exact .inr ⟨rfl, (Option.some.inj hasks).symm⟩
    · rintro k' ⟨hk', g, hg, hasks⟩
      exact hC ⟨k', g⟩ (HashMap.lookup_eq_some.1 hg) hk' hasks
  | locked id row g locks hlocks hrow hcheck =>
    refine hw.fewer (fun id key h => h) fun k' key h => ?_
    rcases inserts_put rfl h with ⟨-, h⟩ | ⟨-, g, ho, hasks⟩
    · exact h
    · cases ho
      cases hcheck <;> cases hasks
  | commit _ hk hgivenUp _ hcommit =>
    have hcalls : ∀ k' key, Inserts ⟨s', put w.flights k none⟩ k' key → k' ≠ k ∧ Inserts w k' key := by
      intro k' key h
      rcases inserts_put hgivenUp h with h | ⟨-, g, ho, -⟩
      · exact h
      · cases ho
    by_cases hinserting : ∃ a, f = .inserting a
    · obtain ⟨a, rfl⟩ := hinserting
      refine hw.insert (i := a.id) ⟨hk, .inserting a, hf, rfl⟩ (fun id key h => ?_) hcalls
      rcases commit_pending hcommit h with h | ⟨b, hb, hid⟩
      · exact .inl h
      · cases hb
        exact .inr hid
    · refine hw.fewer (fun id key h => ?_) fun k' key h => (hcalls k' key h).2
      rcases commit_pending hcommit h with h | ⟨a, ha, -⟩
      · exact h
      · exact absurd ⟨a, ha⟩ hinserting

theorem outside_pending (ho : s.outside e = some s') :
    (∀ id row, s'.tables.requests.lookup id = some row → s.tables.requests.lookup id = some row) ∧
      ∀ k, k ∈ s.givenUp → k ∈ s'.givenUp := by
  cases e with
  | tick clock =>
    simp only [Shared.outside] at ho
    split at ho
    · cases ho
      exact ⟨fun _ _ h => h, fun _ h => h⟩
    · cases ho
  | giveUp k =>
    cases ho
    exact ⟨fun _ _ h => h, fun _ h => List.mem_cons_of_mem _ h⟩
  | deleteObject object =>
    simp only [Shared.outside] at ho
    split at ho
    · cases ho
      exact ⟨fun _ _ h => (lookup_deleteObject.1 h).2, fun _ h => h⟩
    · cases ho
  | addGrant id row =>
    cases ho
    refine ⟨fun id' row' h => ?_, fun _ h => h⟩
    unfold Tables.addGrant at h
    split at h
    · exact h
    · split at h <;> exact h
  | _ =>
    cases ho
    exact ⟨fun _ _ h => h, fun _ h => h⟩

theorem single_step {w w' : World Shared Flight} {ev : Interleave.Event Flight Outside} (hw : Single w)
    (hC : Alone w ev) (hs : step system w ev = some w') : Single w' := by
  rcases step_cases hs with ⟨k, f, rfl, -, hf, rfl⟩ | ⟨k, f, s, o, rfl, hf, hn, rfl⟩ |
    ⟨e, s, rfl, ho, rfl⟩
  · refine hw.fewer (fun id key h => h) fun k' key h => ?_
    rcases inserts_put (o := some f) rfl h with ⟨-, h⟩ | ⟨-, g, ho, hasks⟩
    · exact h
    · cases ho
      cases f with
      | inserting a => cases hf
      | _ => cases hasks
  · exact single_next hw hf (hC f hf) hn
  · obtain ⟨hrows, hgivenUp⟩ := outside_pending ho
    refine hw.fewer (fun id key h => ?_) fun k key h => ?_
    · obtain ⟨row, hrow, hrest⟩ := h
      exact ⟨row, hrows id row hrow, hrest⟩
    · exact ⟨fun hk => h.1 (hgivenUp k hk), h.2⟩

/-- **One pending request of a kind**: over every interleaving in which a call checks for pending
requests only while no other one is between that check and its commit with the same requester, role and
object, no two pending requests agree in these. -/
theorem one_pending (clock : Int) {es : List (Interleave.Event Flight Outside)}
    {w : World Shared Flight}
    (hr : Run.run (step system) (World.quiet { clock }) es = some w)
    (hm : Run.Meets (step system) Alone (World.quiet { clock }) es) :
    ∀ id id' row row', w.shared.tables.requests.lookup id = some row →
      w.shared.tables.requests.lookup id' = some row' → row.status = .pending →
      row'.status = .pending → row.key = row'.key → id = id' := by
  have hstart : Single (World.quiet { clock } : World Shared Flight) := by
    refine ⟨?_, ?_, ?_⟩
    · rintro id id' key ⟨row, hrow, -⟩
      cases hrow
    · rintro k k' key ⟨-, f, hf, -⟩
      cases hf
    · rintro k id key ⟨-, f, hf, -⟩
      cases hf
  have hw : Single w := Run.inv_of_meets (I := fun _ w => Single w) hstart
    (fun _ _ _ _ _ hC hs ht => single_step ht hC hs) hm hr
  intro id id' row row' hrow hrow' hpending hpending' hkey
  exact hw.rows id id' row'.key ⟨row, hrow, hpending, hkey⟩ ⟨row', hrow', hpending', rfl⟩

/-- The second request finds the first one. -/
def askedInTurn : List (Interleave.Event Flight Outside) :=
  [.outside (.createObject (.device 1)), .start 0 (asks 10), .start 1 (asks 11), .next 0, .next 1,
    .next 0, .next 0, .next 1]

theorem one_pending_in_turn :
    ∃ w, Run.run (step system) (World.quiet { clock := 0 }) askedInTurn = some w ∧
      w.shared.tables.requests.keys = [10] ∧
      ∀ id id' row row', w.shared.tables.requests.lookup id = some row →
        w.shared.tables.requests.lookup id' = some row' → row.status = .pending →
        row'.status = .pending → row.key = row'.key → id = id' := by
  have hrun : (Run.run (step system) (World.quiet { clock := 0 }) askedInTurn).map
      (fun w => w.shared.tables.requests.keys) = some [10] := by decide
  obtain ⟨w, hr, hw⟩ := Option.map_eq_some_iff.1 hrun
  exact ⟨w, hr, hw, one_pending 0 hr (by decide)⟩

/-- Both calls check before either of them inserts. -/
def askedTogether : List (Interleave.Event Flight Outside) :=
  [.outside (.createObject (.device 1)), .start 0 (asks 10), .start 1 (asks 11), .next 0, .next 1,
    .next 0, .next 1, .next 0, .next 1]

theorem both_requests_pending :
    ¬∀ (es : List (Interleave.Event Flight Outside)) (w : World Shared Flight),
      Run.run (step system) (World.quiet { clock := 0 }) es = some w →
      ∀ id id' row row', w.shared.tables.requests.lookup id = some row →
        w.shared.tables.requests.lookup id' = some row' → row.status = .pending →
        row'.status = .pending → row.key = row'.key → id = id' := by
  intro hall
  have hrun : (Run.run (step system) (World.quiet { clock := 0 }) askedTogether).map
      (fun w => ((w.shared.tables.requests.lookup 10).map fun row => (row.status, row.key),
        (w.shared.tables.requests.lookup 11).map fun row => (row.status, row.key))) =
      some (some (.pending, ⟨2, .connect, columns (.device 1)⟩),
        some (.pending, ⟨2, .connect, columns (.device 1)⟩)) := by decide
  obtain ⟨w, hr, hw⟩ := Option.map_eq_some_iff.1 hrun
  rw [Prod.mk.injEq] at hw
  obtain ⟨row, hrow, hkey⟩ := Option.map_eq_some_iff.1 hw.1
  obtain ⟨row', hrow', hkey'⟩ := Option.map_eq_some_iff.1 hw.2
  rw [Prod.mk.injEq] at hkey hkey'
  have hsame := hall _ w hr 10 11 row row' hrow hrow' hkey.1 hkey'.1 (hkey.2.trans hkey'.2.symm)
  revert hsame
  decide

end Server.AccessRequests
