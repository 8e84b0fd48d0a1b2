import RemoteHub.Connector.Proof.Access
import RemoteHub.Connector.Proof.Snapshot
import RemoteHub.Server.CustomerAnswers
import RemoteHub.Server.Proof.Pending

/-!
# One answer, and none against the file

remotehub records the first answer to a request, and what it has decided stays decided
(`Settled`, `Later`): a call that withdraws a request holds its row while it does, and an answer waits for
the row. An answer leaves the connector's memory when a list comes that does not have its request
(`replies_of_run`).

A refusal that remotehub has recorded, or may still record, is in `Danger` of a grant that is open. `Fair`
says which steps put no open grant beside it: nobody's refusal crosses another's approval.
-/

namespace Server.ConnectorRequests

open Model Interleave
open AccessRequests (Session)

section
variable {k k' : Nat} {s s' : Shared} {f g : Flight} {o : Option Flight} {t t' t'' : Tables}
  {row row' : RequestRow} {id connector : Uuid}

/-! ## What is decided -/

/-- Every request has an id of its own, and is answered once. -/
structure Settled (t : Tables) : Prop where
  drawn : ∀ id row, t.requests.lookup id = some row → id ∈ t.drawn
  once : (t.records.map (·.2.id)).Nodup
  recorded : ∀ e ∈ t.records, e.2.id ∈ t.drawn ∧
    ∀ row, t.requests.lookup e.2.id = some row → row.status ≠ .pending

/-- What was decided stays so, and its id is not used again. -/
structure Later (t t' : Tables) : Prop where
  drawn : ∀ id ∈ t.drawn, id ∈ t'.drawn
  rows : ∀ id ∈ t.drawn, ∀ row', t'.requests.lookup id = some row' →
    ∃ row, t.requests.lookup id = some row ∧ (row.status ≠ .pending → row'.status = row.status)

/-- An answer to the request may still be recorded. -/
def Undecided (t : Tables) (id : Uuid) : Prop :=
  id ∉ t.drawn ∨ ∃ row, t.requests.lookup id = some row ∧ row.status = .pending

theorem Later.refl (t : Tables) : Later t t where
  drawn _ h := h
  rows _ _ row' hrow' := ⟨row', hrow', fun _ => rfl⟩

theorem Later.trans (h : Later t t') (h' : Later t' t'') : Later t t'' where
  drawn id hid := h'.drawn id (h.drawn id hid)
  rows id hid row'' hrow'' := by
    obtain ⟨row', hrow', hsame'⟩ := h'.rows id (h.drawn id hid) row'' hrow''
    obtain ⟨row, hrow, hsame⟩ := h.rows id hid row' hrow'
    refine ⟨row, hrow, fun hdecided => ?_⟩
    have heq := hsame hdecided
    rw [hsame' (heq ▸ hdecided), heq]

theorem Later.undecided (h : Later t t') (hid : Undecided t' id) : Undecided t id := by
  by_cases hdrawn : id ∈ t.drawn
  · rcases hid with hnew | ⟨row', hrow', hpending⟩
    · exact absurd (h.drawn id hdrawn) hnew
    · obtain ⟨row, hrow, hsame⟩ := h.rows id hdrawn row' hrow'
      refine .inr ⟨row, hrow, not_not.1 fun hne => hne ?_⟩
      rw [← hsame hne, hpending]
  · exact .inl hdrawn

/-- Rows change or go, but not what was decided of them. -/
theorem Settled.keep (hs : Settled t) (hdrawn : t'.drawn = t.drawn) (hrecords : t'.records = t.records)
    (hrows : ∀ id row', t'.requests.lookup id = some row' →
      ∃ row, t.requests.lookup id = some row ∧ (row.status ≠ .pending → row'.status = row.status)) :
    Settled t' ∧ Later t t' := by
  refine ⟨⟨fun id row' hrow' => ?_, hrecords ▸ hs.once, fun e he => ?_⟩, ⟨fun id hid => hdrawn ▸ hid,
    fun id _ => hrows id⟩⟩
  · obtain ⟨row, hrow, -⟩ := hrows id row' hrow'
    exact hdrawn ▸ hs.drawn id row hrow
  · obtain ⟨hid, hdecided⟩ := hs.recorded e (hrecords ▸ he)
    refine ⟨hdrawn ▸ hid, fun row' hrow' => ?_⟩
    obtain ⟨row, hrow, hsame⟩ := hrows _ row' hrow'
    rw [hsame (hdecided row hrow)]
    exact hdecided row hrow

theorem Settled.create {a : Asked} {now : Int} (hs : Settled t) (h : t.create a now = some t') :
    Settled t' ∧ Later t t' := by
  obtain ⟨hnew, row, hrow, rfl⟩ := create_eq_some h
  have hother : ∀ id ∈ t.drawn, (t.requests.insert a.id row).lookup id = t.requests.lookup id := by
    intro id hid
    have hne : id ≠ a.id := fun heq => hnew (heq ▸ hid)
    exact AList.lookup_insert_ne hne
  refine ⟨⟨fun id row' hrow' => ?_, hs.once, fun e he => ?_⟩, ⟨fun id hid => List.mem_cons_of_mem _ hid,
    fun id hid row' hrow' => ?_⟩⟩
  · rw [HashMap.lookup_insert_eq] at hrow'
    split at hrow'
    · rename_i heq
      rw [heq]
      exact List.mem_cons_self
    · exact List.mem_cons_of_mem _ (hs.drawn id row' hrow')
  · obtain ⟨hid, hdecided⟩ := hs.recorded e he
    refine ⟨List.mem_cons_of_mem _ hid, fun row' hrow' => ?_⟩
    rw [hother _ hid] at hrow'
    exact hdecided row' hrow'
  · rw [hother id hid] at hrow'
    exact ⟨row', hrow', fun _ => rfl⟩

/-- An answer is recorded of a pending request. -/
theorem Settled.answer {answer : Connector.Answer} {ends : Option Int} {now : Int} (hs : Settled t)
    (hrow : t.requests.lookup answer.id = some row) (hpending : row.status = .pending)
    (ht : t' = { t with
      requests := t.requests.insert answer.id (row.answer answer ends now)
      records := t.records ++ [(connector, answer)] }) : Settled t' ∧ Later t t' := by
  have hlookup : ∀ id row', t'.requests.lookup id = some row' → (id = answer.id ∧ row'.status ≠ .pending) ∨
      (id ≠ answer.id ∧ t.requests.lookup id = some row') := by
    intro id row' hrow'
    rw [ht] at hrow'
    dsimp only at hrow'
    rw [HashMap.lookup_insert_eq] at hrow'
    split at hrow'
    · refine .inl ⟨‹_›, ?_⟩
      cases hrow'
      unfold RequestRow.answer
      dsimp only
      split <;> decide
    · exact .inr ⟨‹_›, hrow'⟩
  have hdrawn : t'.drawn = t.drawn := by rw [ht]
  have hrecords : t'.records = t.records ++ [(connector, answer)] := by rw [ht]
  have hid := hs.drawn answer.id row hrow
  refine ⟨⟨fun id row' hrow' => ?_, ?_, fun e he => ?_⟩, ⟨fun id h => hdrawn ▸ h, fun id _ row' hrow' => ?_⟩⟩
  · rw [hdrawn]
    rcases hlookup id row' hrow' with ⟨rfl, -⟩ | ⟨-, hrow'⟩
    · exact hid
    · exact hs.drawn id row' hrow'
  · rw [hrecords, List.map_append, List.nodup_append]
    refine ⟨hs.once, List.nodup_singleton _, fun a ha b hb => ?_⟩
    obtain ⟨e, he, rfl⟩ := List.mem_map.1 ha
    rw [List.map_singleton, List.mem_singleton] at hb
    intro heq
    refine (hs.recorded e he).2 row ?_ hpending
    rw [heq, hb]
    exact hrow
  · rw [hrecords, List.mem_append, List.mem_singleton] at he
    rw [hdrawn]
    rcases he with he | rfl
    · refine ⟨(hs.recorded e he).1, fun row' hrow' => ?_⟩
      rcases hlookup _ row' hrow' with ⟨-, hne⟩ | ⟨-, hrow'⟩
      · exact hne
      · exact (hs.recorded e he).2 row' hrow'
    · refine ⟨hid, fun row' hrow' => ?_⟩
      rcases hlookup _ row' hrow' with ⟨-, hne⟩ | ⟨hne, -⟩
      · exact hne
      · exact absurd rfl hne
  · rcases hlookup id row' hrow' with ⟨rfl, -⟩ | ⟨-, hrow'⟩
    · exact ⟨row, hrow, fun hne => absurd hpending hne⟩
    · exact ⟨row', hrow', fun _ => rfl⟩

/-! ## What a call relies on -/

/-- A call that withdraws a request has locked it, and it is pending. -/
def Flight.Ready (k : Nat) (s : Shared) : Flight → Prop
  | .withdrawing id => s.locks id = some k ∧ id ∈ s.tables.drawn ∧
      ∀ row, s.tables.requests.lookup id = some row → row.status = .pending
  | _ => True

theorem ready_of_isNew (h : f.isNew = true) : f.Ready k s := by
  cases f <;> trivial

/-- Rows that are locked, and not written, stay pending. -/
theorem Flight.Ready.others (h : g.Ready k' s) (hlocks : ∀ id, s.locks id = some k' → s'.locks id = some k')
    (hdrawn : ∀ id ∈ s.tables.drawn, id ∈ s'.tables.drawn)
    (hrows : ∀ id ∈ s.tables.drawn, s.locks id = some k' → ∀ row', s'.tables.requests.lookup id = some row' →
      ∃ row, s.tables.requests.lookup id = some row ∧ row'.status = row.status) : g.Ready k' s' := by
  cases g with
  | withdrawing id =>
    obtain ⟨hid, hdrawn', hpending⟩ := h
    refine ⟨hlocks id hid, hdrawn id hdrawn', fun row' hrow' => ?_⟩
    obtain ⟨row, hrow, hsame⟩ := hrows id hdrawn' hid row' hrow'
    rw [hsame, hpending row hrow]
  | _ => trivial

/-- What a statement leaves: what was decided, and what others rely on. -/
structure Kept (k : Nat) (s s' : Shared) (o : Option Flight) : Prop where
  settled : Settled s'.tables
  later : Later s.tables s'.tables
  own : ∀ g : Flight, o = some g → g.Ready k s'
  others : ∀ (k' : Nat) (g : Flight), k' ≠ k → g.Ready k' s → g.Ready k' s'

theorem Flight.Steps.kept (h : f.Steps k s s' o) (hs : Settled s.tables) (hf : f.Ready k s) :
    Kept k s s' o := by
  cases h with
  | ended f tables locks =>
    refine ⟨tables ▸ hs, tables ▸ .refl _, ready_of_none, fun k' g hne hg => hg.others ?_ ?_ ?_⟩
    · intro id hid
      rw [locks]
      exact Locks.release_others hne hid
    · exact fun id hid => tables ▸ hid
    · exact fun id _ _ row' hrow' => ⟨row', tables ▸ hrow', rfl⟩
  | checked | began | alone | first =>
    refine ⟨hs, .refl _, fun g hg => ?_, fun _ _ _ hg => hg⟩
    cases hg
    trivial
  | @inserted a now s' tables locks =>
    obtain ⟨hsettled, hlater⟩ := hs.create tables
    obtain ⟨hnew, row, hrow, heq⟩ := create_eq_some tables
    refine ⟨hsettled, hlater, ready_of_none, fun k' g hne hg => hg.others ?_ hlater.drawn ?_⟩
    · intro id hid
      rw [locks]
      exact Locks.release_others hne hid
    · intro id hid _ row' hrow'
      have hother : id ≠ a.id := fun h => hnew (h ▸ hid)
      rw [heq] at hrow'
      exact ⟨row', (AList.lookup_insert_ne hother).symm.trans hrow', rfl⟩
  | locked row_eq pending acquired =>
    refine ⟨hs, .refl _, fun g hg => ?_, fun k' g hne hg => hg.others ?_ ?_ ?_⟩
    · cases hg
      refine ⟨Locks.acquire_held acquired, hs.drawn _ _ row_eq, fun row hrow => ?_⟩
      obtain rfl := Option.some.inj (row_eq.symm.trans hrow)
      exact pending
    · exact fun id hid => Locks.acquire_keeps acquired hid
    · exact fun id hid => hid
    · exact fun id _ _ row' hrow' => ⟨row', hrow', rfl⟩
  | @withdrawn id s' tables locks =>
    obtain ⟨hlocked, -, hpending⟩ := hf
    have hkeep : Settled s'.tables ∧ Later s.tables s'.tables := hs.keep (by rw [tables]; rfl)
        (by rw [tables]; rfl) (by
      intro id' row' hrow'
      rw [tables, lookup_withdraw] at hrow'
      split at hrow'
      · rename_i heq
        obtain ⟨row, hrow, rfl⟩ := Option.map_eq_some_iff.1 hrow'
        exact ⟨row, hrow, fun hne => absurd (hpending row (heq ▸ hrow)) hne⟩
      · exact ⟨row', hrow', fun _ => rfl⟩)
    refine ⟨hkeep.1, hkeep.2, ready_of_none, fun k' g hne hg => hg.others ?_ hkeep.2.drawn ?_⟩
    · intro id hid
      rw [locks]
      exact Locks.release_others hne hid
    · intro id' _ hid' row' hrow'
      have hother : id' ≠ id := by
        rintro rfl
        exact hne (Option.some.inj (hid'.symm.trans hlocked))
      rw [tables, lookup_withdraw, if_neg hother] at hrow'
      exact ⟨row', hrow', rfl⟩
  | @answered connector now answer rest ends free =>
    have hkeep : Settled (s.tables.answer connector answer ends now) ∧
        Later s.tables (s.tables.answer connector answer ends now) := by
      rcases answer_cases s.tables connector answer ends now with heq | ⟨row, hrow, -, hpending, heq⟩
      · rw [heq]
        exact ⟨hs, .refl _⟩
      · exact hs.answer hrow hpending heq
    refine ⟨hkeep.1, hkeep.2, fun g hg => ?_, fun k' g hne hg => hg.others (fun _ hid => hid) hkeep.2.drawn ?_⟩
    · cases hg
      trivial
    · intro id _ hid row' hrow'
      have hother : id ≠ answer.id := fun heq => hne (free k' (heq ▸ hid))
      rcases answer_cases s.tables connector answer ends now with heq | ⟨row, -, -, -, heq⟩
      · rw [heq] at hrow'
        exact ⟨row', hrow', rfl⟩
      · rw [heq] at hrow'
        exact ⟨row', (AList.lookup_insert_ne hother).symm.trans hrow', rfl⟩

/-- Rows go, or lose what was asked for. -/
theorem kept_of_rows (hs : Settled s.tables) (hlocks : s'.locks = s.locks)
    (hdrawn : s'.tables.drawn = s.tables.drawn) (hrecords : s'.tables.records = s.tables.records)
    (hrows : ∀ id row', s'.tables.requests.lookup id = some row' →
      ∃ row, s.tables.requests.lookup id = some row ∧ row'.status = row.status) :
    Settled s'.tables ∧ Later s.tables s'.tables ∧ ∀ (k : Nat) (g : Flight), g.Ready k s → g.Ready k s' := by
  have hkeep := hs.keep hdrawn hrecords fun id row' hrow' => by
    obtain ⟨row, hrow, hsame⟩ := hrows id row' hrow'
    exact ⟨row, hrow, fun _ => hsame⟩
  refine ⟨hkeep.1, hkeep.2, fun k g hg => hg.others ?_ hkeep.2.drawn fun id _ _ => hrows id⟩
  exact fun id hid => hlocks ▸ hid

theorem Shared.outside_kept {e : Outside} (h : s.outside e = some s') (hs : Settled s.tables) :
    Settled s'.tables ∧ Later s.tables s'.tables ∧ ∀ (k : Nat) (g : Flight), g.Ready k s → g.Ready k s' := by
  cases e with
  | tick clock =>
    simp only [Shared.outside] at h
    split at h
    · cases h
      exact kept_of_rows hs rfl rfl rfl fun id row' hrow' => ⟨row', hrow', rfl⟩
    · cases h
  | deleteConnector connector =>
    simp only [Shared.outside] at h
    split at h
    · cases h
      refine kept_of_rows hs rfl rfl rfl fun id row' hrow' => ?_
      rw [lookup_deleteConnector] at hrow'
      exact ⟨row', (Option.filter_eq_some_iff.1 hrow').1, rfl⟩
    · cases h
  | deleteObject object =>
    simp only [Shared.outside] at h
    split at h
    · cases h
      refine kept_of_rows hs rfl rfl rfl fun id row' hrow' => ?_
      rw [lookup_deleteObject] at hrow'
      obtain ⟨row, hrow, rfl⟩ := Option.map_eq_some_iff.1 hrow'
      exact ⟨row, hrow, rfl⟩
    · cases h
  | giveUp k | createConnector connector | createObject object =>
    cases h
    exact kept_of_rows hs rfl rfl rfl fun id row' hrow' => ⟨row', hrow', rfl⟩

/-! ## Who reports what -/

/-- The connector whose report it is. -/
def Flight.reporter : Flight → Option Uuid
  | .report connector _ | .answering connector .. => some connector
  | _ => none

/-- The answers that are left to record. -/
def Flight.left : Flight → List Connector.Answer
  | .report _ answers => answers
  | .answering _ _ answer rest => answer :: rest
  | _ => []

theorem Flight.Steps.left (h : f.Steps k s s' o) : ∀ g : Flight, o = some g →
    g.reporter = f.reporter ∧ ∀ answer ∈ g.left, answer ∈ f.left := by
  intro g hg
  cases h with
  | first connector answer rest =>
    cases hg
    exact ⟨rfl, fun _ h => h⟩
  | answered ends free =>
    cases hg
    exact ⟨rfl, fun _ h => List.mem_cons_of_mem _ h⟩
  | checked | began | alone | locked =>
    cases hg
    exact ⟨rfl, fun _ h => h⟩
  | ended | inserted | withdrawn => cases hg

/-- What is recorded is an answer of a report to a request that was pending. -/
theorem Flight.Steps.records (h : f.Steps k s s' o) {answer : Connector.Answer}
    (hmem : (connector, answer) ∈ s'.tables.records) : (connector, answer) ∈ s.tables.records ∨
      f.reporter = some connector ∧ answer ∈ f.left ∧ Undecided s.tables answer.id := by
  cases h with
  | ended f tables locks => exact .inl (tables ▸ hmem)
  | inserted tables locks =>
    obtain ⟨-, row, -, heq⟩ := create_eq_some tables
    rw [heq] at hmem
    exact .inl hmem
  | withdrawn tables locks =>
    rw [tables] at hmem
    exact .inl hmem
  | @answered reporter now reported rest ends free =>
    rcases answer_cases s.tables reporter reported ends now with heq | ⟨row, hrow, -, hpending, heq⟩
    · rw [heq] at hmem
      exact .inl hmem
    · rw [heq, List.mem_append, List.mem_singleton] at hmem
      rcases hmem with hmem | hmem
      · exact .inl hmem
      · cases hmem
        exact .inr ⟨rfl, List.mem_cons_self, .inr ⟨row, hrow, hpending⟩⟩
  | checked | began | alone | locked | first => exact .inl hmem

theorem Shared.outside_records {e : Outside} (h : s.outside e = some s') :
    s'.tables.records = s.tables.records := by
  cases e with
  | tick clock =>
    simp only [Shared.outside] at h
    split at h <;> cases h
    rfl
  | deleteConnector connector =>
    simp only [Shared.outside] at h
    split at h <;> cases h
    rfl
  | deleteObject object =>
    simp only [Shared.outside] at h
    split at h <;> cases h
    rfl
  | giveUp k | createConnector connector | createObject object =>
    cases h
    rfl

end

end Server.ConnectorRequests

namespace Server.CustomerAnswers

open Model Interleave
open ConnectorRequests (Settled Later Undecided)
open Connector (AccessFile CustomerRequest Inventory OffsetDateTime Pending)

section
variable {env : Settings} {k : Nat} {s s' : Shared} {f : Flight} {o : Option Flight}
  {now now' : OffsetDateTime} {file file' : AccessFile} {id : Uuid}

/-! ## What a step can do -/

/-- What the next step of process `k` can do. -/
inductive Flight.Steps (env : Settings) (k : Nat) (s : Shared) : Flight → Shared → Option Flight → Prop
  | ended (f : Flight) : Steps env k s f s none
  | call {f : ConnectorRequests.Flight} {server : ConnectorRequests.Shared} {o : Option ConnectorRequests.Flight}
    (steps : f.Steps k s.server server o) : Steps env k s (.call f) { s with server } (o.map .call)
  | arrived {post : Nat} {answers : List Connector.Answer} (posted : answers ∈ s.posts)
    (sent : post < s.posts.length) :
    Steps env k s (.arrives post) s (some (.report post (.report env.connector answers)))
  | listed (post : Nat) (connector : Uuid) : Steps env k s (.report post (.report connector []))
      { s with replies := (post, ConnectorRequests.pending (env.postgres.scan k s.server.tables.requests) connector
        s.server.clock) :: s.replies } none
  | report {post : Nat} {f : ConnectorRequests.Flight} {server : ConnectorRequests.Shared}
    {o : Option ConnectorRequests.Flight} (steps : f.Steps k s.server server o) :
    Steps env k s (.report post f) { s with server } (o.map (.report post))
  | approving {n : Nat} {user : String} {id : Uuid} (request : CustomerRequest) :
    Steps env k s (.click n (.approve user id)) s (some (.click s.restarts (.approving user request)))
  | opening {n : Nat} (user : String) (request : CustomerRequest) :
    Steps env k s (.click n (.approving user request)) s
      (some (.click s.restarts (.opening user request s.now s.file)))
  | opened {n : Nat} (user : String) (request : CustomerRequest) (now : OffsetDateTime) (file : AccessFile)
    (answer : Connector.Answer) (alive : n = s.restarts ∧ k ∉ s.givenUp) (approved : answer.approved = true) :
    Steps env k s (.click n (.opening user request now file))
      { s with file := Connector.approved file request (ends request now) (.web user) now }
      (some (.click s.restarts (.opened answer)))
  | approved {n : Nat} (answer : Connector.Answer) :
    Steps env k s (.click n (.opened answer)) { s with memory := s.memory.answer answer } none
  | refusing {n : Nat} {user : String} {id : Uuid} (request : CustomerRequest) :
    Steps env k s (.click n (.refuse user id)) s (some (.click s.restarts (.refusing user request)))
  | refused {n : Nat} {user : String} {request : CustomerRequest} (answer : Connector.Answer)
    (alive : n = s.restarts ∧ k ∉ s.givenUp) (about : answer.id = request.id) :
    Steps env k s (.click n (.refusing user request)) { s with memory := s.memory.answer answer } none
  | saving {list : Inventory} {e : Edit} {file : AccessFile} (applied : e.apply list s.now s.file = some file) :
    Steps env k s (.edit list e) s (some (.saving file))
  | saved (file : AccessFile) : Steps env k s (.saving file) { s with file } none

theorem Flight.next_steps (h : f.next env k s = some (s', o)) : f.Steps env k s s' o := by
  cases f with
  | call f =>
    obtain ⟨r, hr, heq⟩ := Option.map_eq_some_iff.1 h
    cases heq
    exact .call (ConnectorRequests.Flight.next_steps hr)
  | arrives post =>
    simp only [Flight.next] at h
    split at h
    · rename_i answers hanswers
      cases h
      exact .arrived (List.mem_of_getElem? hanswers) (List.getElem?_eq_some_iff.1 hanswers).1
    · cases h
      exact .ended _
  | report post f =>
    by_cases hlast : ∃ connector, f = .report connector []
    · obtain ⟨connector, rfl⟩ := hlast
      cases h
      exact .listed post connector
    · have hnext : (f.next env.postgres k s.server).map
          (fun r => ({ s with server := r.1 }, r.2.map (Flight.report post))) = some (s', o) := by
        rw [← h, Flight.next]
        intro connector heq
        exact hlast ⟨connector, heq⟩
      obtain ⟨r, hr, heq⟩ := Option.map_eq_some_iff.1 hnext
      cases heq
      exact .report (ConnectorRequests.Flight.next_steps hr)
  | click n c =>
    simp only [Flight.next] at h
    split at h
    · rename_i halive
      cases c with
      | approve user id =>
        simp only [Click.next] at h
        split at h
        · cases h
          exact .approving _
        · cases h
          exact .ended _
      | approving user request =>
        cases h
        exact .opening user request
      | opening user request now file =>
        cases h
        exact .opened user request now file _ halive rfl
      | opened answer =>
        cases h
        exact .approved answer
      | refuse user id =>
        simp only [Click.next] at h
        split at h
        · cases h
          exact .refusing _
        · cases h
          exact .ended _
      | refusing user request =>
        cases h
        exact .refused _ halive rfl
    · cases h
      exact .ended _
  | edit list e =>
    simp only [Flight.next] at h
    split at h
    · rename_i file hfile
      cases h
      exact .saving hfile
    · cases h
      exact .ended _
  | saving file =>
    simp only [Flight.next] at h
    split at h
    · cases h
      exact .ended _
    · cases h
      exact .saved file

/-! ## What is decided -/

/-- What a process relies on at remotehub. -/
def Flight.Ready (k : Nat) (s : Shared) : Flight → Prop
  | .call f | .report _ f => f.Ready k s.server
  | _ => True

theorem Flight.Ready.server {g : Flight} (h : g.Ready k s)
    (hcalls : ∀ f : ConnectorRequests.Flight, f.Ready k s.server → f.Ready k s'.server) : g.Ready k s' := by
  cases g with
  | call f => exact hcalls f h
  | report post f => exact hcalls f h
  | _ => trivial

/-- A step keeps what was decided, and what others rely on. -/
theorem Flight.Steps.kept (h : f.Steps env k s s' o) (hs : Settled s.server.tables) (hf : f.Ready k s) :
    Settled s'.server.tables ∧ Later s.server.tables s'.server.tables ∧
      (∀ g : Flight, o = some g → g.Ready k s') ∧
      ∀ (k' : Nat) (g : Flight), k' ≠ k → g.Ready k' s → g.Ready k' s' := by
  cases h with
  | call steps =>
    have hkept := steps.kept hs hf
    refine ⟨hkept.settled, hkept.later, fun g hg => ?_, fun k' g hne hg => hg.server fun f => hkept.others k' f hne⟩
    obtain ⟨f, hf, rfl⟩ := Option.map_eq_some_iff.1 hg
    exact hkept.own f hf
  | report steps =>
    have hkept := steps.kept hs hf
    refine ⟨hkept.settled, hkept.later, fun g hg => ?_, fun k' g hne hg => hg.server fun f => hkept.others k' f hne⟩
    obtain ⟨f, hf, rfl⟩ := Option.map_eq_some_iff.1 hg
    exact hkept.own f hf
  | _ =>
    refine ⟨hs, .refl _, fun g hg => ?_, fun k' g _ hg => hg.server fun _ hf => hf⟩
    cases hg <;> trivial

theorem Shared.outside_kept {e : Outside} (h : s.outside env e = some s') (hs : Settled s.server.tables) :
    Settled s'.server.tables ∧ Later s.server.tables s'.server.tables ∧
      ∀ (k : Nat) (g : Flight), g.Ready k s → g.Ready k s' := by
  have hsame : s'.server = s.server → Settled s'.server.tables ∧ Later s.server.tables s'.server.tables ∧
      ∀ (k : Nat) (g : Flight), g.Ready k s → g.Ready k s' := by
    intro heq
    rw [heq]
    exact ⟨hs, .refl _, fun k g hg => hg.server fun f hf => heq ▸ hf⟩
  cases e with
  | server e =>
    obtain ⟨server, hserver, rfl⟩ := Option.map_eq_some_iff.1 h
    obtain ⟨hsettled, hlater, hothers⟩ := ConnectorRequests.Shared.outside_kept hserver hs
    exact ⟨hsettled, hlater, fun k g hg => hg.server fun f => hothers k f⟩
  | tick now =>
    simp only [Shared.outside] at h
    split at h <;> cases h
    exact hsame rfl
  | take pending =>
    simp only [Shared.outside] at h
    split at h
    · split at h <;> cases h <;> exact hsame rfl
    · cases h
  | giveUp k | post | restart =>
    cases h
    exact hsame rfl

/-- remotehub's tables are settled, and its calls rely on what is so. -/
abbrev Decided (w : World Shared Flight) : Prop := Holds (fun s => Settled s.server.tables) Flight.Ready w

variable {w w' : World Shared Flight} {es : List (Interleave.Event Flight Outside)}
  {e : Interleave.Event Flight Outside}

theorem Flight.ready_of_isNew (h : f.isNew env.connector = true) : f.Ready k s := by
  cases f with
  | call f =>
    simp only [Flight.isNew, Bool.and_eq_true] at h
    exact ConnectorRequests.ready_of_isNew h.1
  | report post f => cases h
  | _ => trivial

theorem decided_step (hw : Decided w) (h : step (system env) w e = some w') :
    Decided w' ∧ Later w.shared.server.tables w'.shared.server.tables := by
  refine ⟨hw.step h (fun k f hf => Flight.ready_of_isNew hf) ?_ ?_, ?_⟩
  · intro k f s o _ hf hn
    obtain ⟨hsettled, -, hown, hothers⟩ := (Flight.next_steps hn).kept hw.shared (hw.flights k f hf)
    exact ⟨hsettled, hown, fun k' g hne hg => hothers k' g hne (hw.flights k' g hg)⟩
  · intro e' s _ ho
    have hout : w.shared.outside env e' = some s := ho
    obtain ⟨hsettled, -, hothers⟩ := Shared.outside_kept hout hw.shared
    exact ⟨hsettled, fun k g hg => hothers k g (hw.flights k g hg)⟩
  · rcases step_cases h with ⟨k, f, -, -, -, rfl⟩ | ⟨k, f, s, o, -, hf, hn, rfl⟩ | ⟨e', s, -, ho, rfl⟩
    · exact .refl _
    · exact ((Flight.next_steps hn).kept hw.shared (hw.flights k f hf)).2.1
    · have hout : w.shared.outside env e' = some s := ho
      exact (Shared.outside_kept hout hw.shared).2.1

theorem decided_of_run (hw : Decided w) (hr : Run.run (step (system env)) w es = some w') :
    Decided w' ∧ Later w.shared.server.tables w'.shared.server.tables := by
  refine Run.inv_of_run (I := fun _ u => Decided u ∧ Later w.shared.server.tables u.shared.server.tables)
    ⟨hw, .refl _⟩ ?_ hr
  intro _ u e u' _ hu ih
  obtain ⟨hdecided, hlater⟩ := decided_step ih.1 hu
  exact ⟨hdecided, ih.2.trans hlater⟩

/-! ## Refusals and grants -/

/-- No grant of the request is open. -/
def Shut (now : OffsetDateTime) (id : Uuid) (file : AccessFile) : Prop :=
  ∀ grant, file.requests.lookup id = some grant → grant.stored.access.isOpen now = false

/-- remotehub has recorded a refusal, or one is held or on its way and may still be recorded. -/
def Danger (env : Settings) (s : Shared) (id : Uuid) : Prop :=
  ∃ a : Connector.Answer, a.id = id ∧ a.approved = false ∧
    ((env.connector, a) ∈ s.server.tables.records ∨
      Undecided s.server.tables id ∧ (a ∈ s.memory.answers ∨ ∃ answers ∈ s.posts, a ∈ answers))

/-- The file that a process has read. -/
def Flight.copy : Flight → Option AccessFile
  | .click _ (.opening _ _ _ file) | .saving file => some file
  | _ => none

theorem Shut.later (h : Shut now id file) (hclock : now.nanos ≤ now'.nanos) : Shut now' id file :=
  fun grant hgrant => Connector.Access.isOpen_later hclock (h grant hgrant)

theorem Shut.of_requests (h : Shut now id file) (hrequests : ∀ grant, file'.requests.lookup id = some grant →
    file.requests.lookup id = some grant) : Shut now id file' :=
  fun grant hgrant => h grant (hrequests grant hgrant)

theorem Shut.apply {list : Inventory} {e : Edit} (h : Shut now id file) (hallowed : e.allowed = true)
    (happly : e.apply list now' file = some file') : Shut now id file' := by
  cases e with
  | removeDevice name | removeGroup name =>
    cases happly
    exact h
  | change scope access who =>
    have hchanged : Connector.changed list file scope access who now' = .ok file' := by
      cases hchanged : Connector.changed list file scope access who now' with
      | error e =>
        simp only [Edit.apply, hchanged, Except.toOption] at happly
        cases happly
      | ok file'' =>
        simp only [Edit.apply, hchanged, Except.toOption] at happly
        rw [Option.some.inj happly]
    obtain ⟨-, rfl⟩ := Connector.changed_eq_ok hchanged
    cases scope with
    | request id' =>
      have hclosed : access = .closed := of_decide_eq_true hallowed
      subst hclosed
      exact h.of_requests fun grant hgrant => (HashMap.of_lookup_erase hgrant).2
    | network | device name | group name => exact h

theorem Shut.approved {request : CustomerRequest} {ends now₁ : OffsetDateTime} {who : Connector.Changer}
    (h : Shut now id file) (hne : id ≠ request.id) :
    Shut now id (Connector.approved file request ends who now₁) :=
  h.of_requests fun _ hgrant => (AList.lookup_insert_ne hne).symm.trans hgrant

/-- A danger was one before, if nothing but what is held or on its way is recorded, and nothing is refused. -/
theorem Danger.before (h : Danger env s' id) (hlater : Later s.server.tables s'.server.tables)
    (hrecords : ∀ a : Connector.Answer, (env.connector, a) ∈ s'.server.tables.records →
      (env.connector, a) ∈ s.server.tables.records ∨
        Undecided s.server.tables a.id ∧ ∃ answers ∈ s.posts, a ∈ answers)
    (hmemory : ∀ a ∈ s'.memory.answers, a.approved = false → a ∈ s.memory.answers)
    (hposts : ∀ answers ∈ s'.posts, answers ∈ s.posts ∨ answers = s.memory.answers) : Danger env s id := by
  obtain ⟨a, rfl, hrefused, hrecorded | ⟨hundecided, hplay⟩⟩ := h
  · rcases hrecords a hrecorded with hrecorded | ⟨hundecided, hposted⟩
    · exact ⟨a, rfl, hrefused, .inl hrecorded⟩
    · exact ⟨a, rfl, hrefused, .inr ⟨hundecided, .inr hposted⟩⟩
  · refine ⟨a, rfl, hrefused, .inr ⟨hlater.undecided hundecided, ?_⟩⟩
    rcases hplay with hheld | ⟨answers, hposted, ha⟩
    · exact .inl (hmemory a hheld hrefused)
    · rcases hposts answers hposted with hposted | rfl
      · exact .inr ⟨answers, hposted, ha⟩
      · exact .inl ha

/-- What a process keeps of refusals and grants. -/
def Flight.Guarded (env : Settings) (s : Shared) : Flight → Prop
  | .call f => f.reporter ≠ some env.connector
  | .report _ f => f.reporter = some env.connector ∧ ∀ a ∈ f.left, ∃ answers ∈ s.posts, a ∈ answers
  | .click _ (.opening _ _ _ file) | .saving file => ∀ id, Danger env s id → Shut s.now id file
  | .click _ (.opened answer) => answer.approved = true
  | .edit _ e => e.allowed = true
  | _ => True

/-- No open grant stands beside a refusal. -/
def Quiet (env : Settings) (s : Shared) : Prop := ∀ id, Danger env s id → Shut s.now id s.file

theorem Flight.Guarded.later {g : Flight} (h : g.Guarded env s) (hnow : s.now.nanos ≤ s'.now.nanos)
    (hposts : ∀ answers ∈ s.posts, answers ∈ s'.posts)
    (hdanger : ∀ file, g.copy = some file → ∀ id, Danger env s' id → Danger env s id ∨ Shut s.now id file) :
    g.Guarded env s' := by
  have hcopy : ∀ file, g.copy = some file → (∀ id, Danger env s id → Shut s.now id file) →
      ∀ id, Danger env s' id → Shut s'.now id file := by
    intro file hfile hshut id hid
    rcases hdanger file hfile id hid with hbefore | hnew
    · exact (hshut id hbefore).later hnow
    · exact hnew.later hnow
  cases g with
  | report post f =>
    refine ⟨h.1, fun a ha => ?_⟩
    obtain ⟨answers, hposted, hmem⟩ := h.2 a ha
    exact ⟨answers, hposts answers hposted, hmem⟩
  | saving file => exact hcopy file rfl h
  | click n c =>
    cases c with
    | opening user request now file => exact hcopy file rfl h
    | _ => exact h
  | _ => exact h

/-- A step that puts no open grant beside a refusal. -/
structure Fair (env : Settings) (w : World Shared Flight) (e : Interleave.Event Flight Outside) : Prop where
  /-- What is opened has not been refused. -/
  approves : ∀ k n user request now file, e = .next k →
    w.flights.lookup k = some (.click n (.opening user request now file)) → n = w.shared.restarts →
    k ∉ w.shared.givenUp → ¬Danger env w.shared request.id
  /-- What is refused, and not decided, is not open, and nobody is about to write that it is. -/
  refuses : ∀ k n user request, e = .next k → w.flights.lookup k = some (.click n (.refusing user request)) →
    n = w.shared.restarts → k ∉ w.shared.givenUp → Undecided w.shared.server.tables request.id →
    Shut w.shared.now request.id w.shared.file ∧
      ∀ k' f file, w.flights.lookup k' = some f → f.copy = some file → Shut w.shared.now request.id file

/-- What a step puts in danger. -/
theorem Flight.Steps.danger (h : f.Steps env k s s' o) (hs : Settled s.server.tables) (hready : f.Ready k s)
    (hf : f.Guarded env s) (hid : Danger env s' id) : Danger env s id ∨ ∃ n user request,
      f = .click n (.refusing user request) ∧ n = s.restarts ∧ k ∉ s.givenUp ∧ request.id = id ∧
        Undecided s.server.tables id := by
  cases h with
  | call steps =>
    refine .inl (hid.before (steps.kept hs hready).later (fun a ha => ?_) (fun a ha _ => ha) fun _ h => .inl h)
    exact (steps.records ha).imp_right fun h => absurd h.1 hf
  | report steps =>
    refine .inl (hid.before (steps.kept hs hready).later (fun a ha => ?_) (fun a ha _ => ha) fun _ h => .inl h)
    exact (steps.records ha).imp_right fun h => ⟨h.2.2, hf.2 a h.2.1⟩
  | approved answer =>
    refine .inl (hid.before (.refl _) (fun a ha => .inl ha) (fun a ha hrefused => ?_) fun _ h => .inl h)
    rcases List.mem_append.1 ha with ha | ha
    · exact ha
    · have happroved : answer.approved = true := hf
      rw [List.mem_singleton.1 ha, happroved] at hrefused
      cases hrefused
  | refused answer alive about =>
    obtain ⟨a, rfl, hrefused, hrecorded | ⟨hundecided, hheld | hposted⟩⟩ := hid
    · exact .inl ⟨a, rfl, hrefused, .inl hrecorded⟩
    · rcases List.mem_append.1 hheld with hheld | hnew
      · exact .inl ⟨a, rfl, hrefused, .inr ⟨hundecided, .inl hheld⟩⟩
      · rw [List.mem_singleton.1 hnew] at hundecided ⊢
        exact .inr ⟨_, _, _, rfl, alive.1, alive.2, about.symm, hundecided⟩
    · exact .inl ⟨a, rfl, hrefused, .inr ⟨hundecided, .inr hposted⟩⟩
  | _ => exact .inl (hid.before (.refl _) (fun a ha => .inl ha) (fun a ha _ => ha) fun _ h => .inl h)

theorem Flight.Steps.now_posts (h : f.Steps env k s s' o) : s'.now = s.now ∧ s'.posts = s.posts := by
  cases h <;> exact ⟨rfl, rfl⟩

/-- What a process that goes on has read, and what it reports. -/
theorem Flight.Steps.guarded (h : f.Steps env k s s' o) (hs : Quiet env s) (hf : f.Guarded env s)
    (hdanger : ∀ id file, Danger env s' id → (o.bind Flight.copy) = some file → Danger env s id) :
    ∀ g : Flight, o = some g → g.Guarded env s' := by
  intro g hg
  cases h with
  | ended | listed | approved | refused | saved => cases hg
  | call steps =>
    obtain ⟨f', hf', rfl⟩ := Option.map_eq_some_iff.1 hg
    have hreporter := (steps.left f' hf').1
    exact fun h => hf (hreporter.symm.trans h)
  | report steps =>
    obtain ⟨f', hf', rfl⟩ := Option.map_eq_some_iff.1 hg
    obtain ⟨hreporter, hleft⟩ := steps.left f' hf'
    exact ⟨hreporter.trans hf.1, fun a ha => hf.2 a (hleft a ha)⟩
  | arrived posted sent =>
    cases hg
    exact ⟨rfl, fun a ha => ⟨_, posted, ha⟩⟩
  | approving | refusing =>
    cases hg
    trivial
  | opening user request =>
    cases hg
    exact hs
  | opened user request now file answer alive approved =>
    cases hg
    exact approved
  | saving applied =>
    cases hg
    exact fun id hid => (hs id hid).apply hf applied

/-- What is written is quiet, if it is fair to write it. -/
theorem Flight.Steps.quiet (h : f.Steps env k s s' o) (hs : Quiet env s) (hf : f.Guarded env s)
    (hfair : ∀ n user request now file, f = .click n (.opening user request now file) → n = s.restarts →
      k ∉ s.givenUp → ¬Danger env s request.id) (hid : Danger env s id) : Shut s.now id s'.file := by
  cases h with
  | opened user request now file answer alive approved =>
    have hne : id ≠ request.id := by
      rintro rfl
      exact hfair _ user request now file rfl alive.1 alive.2 hid
    exact (hf id hid).approved hne
  | saved file => exact hf id hid
  | _ => exact hs id hid

theorem guarded_of_isNew (h : f.isNew env.connector = true) : f.Guarded env s := by
  cases f with
  | call f =>
    simp only [Flight.isNew, Bool.and_eq_true] at h
    cases f with
    | report reporter answers =>
      intro heq
      have hsame : reporter = env.connector := Option.some.inj heq
      simp [reports, hsame] at h
    | create | withdraw => exact (Option.some_ne_none _).symm
    | asked | checking | inserting | withdrawing | answering => cases h.1
  | edit list e => exact h
  | report | saving => cases h
  | click n c => cases c <;> trivial
  | arrives post => trivial

/-- What happens outside the processes opens and refuses nothing. -/
theorem Shared.outside_danger {e : Outside} (h : s.outside env e = some s') (hs : Settled s.server.tables) :
    s'.file = s.file ∧ s.now.nanos ≤ s'.now.nanos ∧ (∀ answers ∈ s.posts, answers ∈ s'.posts) ∧
      ∀ id, Danger env s' id → Danger env s id := by
  have hlater := (Shared.outside_kept h hs).2.1
  cases e with
  | server e =>
    obtain ⟨server, hserver, rfl⟩ := Option.map_eq_some_iff.1 h
    refine ⟨rfl, le_rfl, fun _ h => h, fun id hid => hid.before hlater (fun a ha => .inl ?_) (fun a ha _ => ha)
      fun _ h => .inl h⟩
    rw [← ConnectorRequests.Shared.outside_records hserver]
    exact ha
  | tick now =>
    simp only [Shared.outside] at h
    split at h
    · rename_i hnow
      cases h
      exact ⟨rfl, hnow, fun _ h => h, fun id hid => hid⟩
    · cases h
  | giveUp k =>
    cases h
    exact ⟨rfl, le_rfl, fun _ h => h, fun id hid => hid⟩
  | post =>
    cases h
    refine ⟨rfl, le_rfl, fun _ h => List.mem_append_left _ h, fun id hid =>
      hid.before hlater (fun a ha => .inl ha) (fun a ha _ => ha) fun answers hposted => ?_⟩
    exact (List.mem_append.1 hposted).imp_right List.mem_singleton.1
  | take pending =>
    simp only [Shared.outside] at h
    split at h
    · split at h
      · cases h
        exact ⟨rfl, le_rfl, fun _ h => h, fun id hid => hid.before hlater (fun a ha => .inl ha)
          (fun a ha _ => List.mem_of_mem_filter ha) fun _ h => .inl h⟩
      · cases h
        exact ⟨rfl, le_rfl, fun _ h => h, fun id hid => hid⟩
    · cases h
  | restart =>
    cases h
    exact ⟨rfl, le_rfl, fun _ h => h, fun id hid => hid.before hlater (fun a ha => .inl ha)
      (fun a ha _ => absurd ha List.not_mem_nil) fun _ h => .inl h⟩

/-- No open grant stands beside a refusal, and no process keeps a file where one does. -/
abbrev Apart (env : Settings) (w : World Shared Flight) : Prop :=
  Holds (Quiet env) (fun _ s f => f.Guarded env s) w

theorem apart_step (hd : Decided w) (hw : Apart env w) (hfair : Fair env w e)
    (h : step (system env) w e = some w') : Apart env w' := by
  refine hw.step h (fun k f hf => guarded_of_isNew hf) ?_ ?_
  · intro k f s o he hf hn
    have hsteps := Flight.next_steps hn
    have hguarded := hw.flights k f hf
    obtain ⟨hnow, hposts⟩ := hsteps.now_posts
    -- only a refusal makes a danger, and then it is fair
    have hdanger : ∀ id, Danger env s id → Danger env w.shared id ∨
        (f.copy = none ∧ o = none ∧ s.file = w.shared.file ∧ Shut w.shared.now id w.shared.file ∧
          ∀ k' g file, w.flights.lookup k' = some g → g.copy = some file → Shut w.shared.now id file) := by
      intro id hid
      refine (hsteps.danger hd.shared (hd.flights k f hf) hguarded hid).imp_right fun hnew => ?_
      obtain ⟨n, user, request, rfl, hn', hk, rfl, hundecided⟩ := hnew
      obtain ⟨hshut, hcopies⟩ := hfair.refuses k n user request he hf hn' hk hundecided
      cases hsteps with
      | ended => exact ⟨rfl, rfl, rfl, hshut, hcopies⟩
      | refused => exact ⟨rfl, rfl, rfl, hshut, hcopies⟩
    refine ⟨fun id hid => ?_, ?_, fun k' g hne hg => (hw.flights k' g hg).later ?_ ?_ ?_⟩
    · rw [hnow]
      rcases hdanger id hid with hbefore | ⟨-, -, hfile, hshut, -⟩
      · refine hsteps.quiet hw.shared hguarded (fun n user request now file hopening => ?_) hbefore
        exact hfair.approves k n user request now file he (hopening ▸ hf)
      · rw [hfile]
        exact hshut
    · refine hsteps.guarded hw.shared hguarded fun id file hid hcopy => ?_
      refine (hdanger id hid).resolve_right fun hnew => ?_
      rw [hnew.2.1] at hcopy
      cases hcopy
    · rw [hnow]
    · rw [hposts]
      exact fun _ h => h
    · intro file hfile id hid
      exact (hdanger id hid).imp_right fun hnew => hnew.2.2.2.2 k' g file hg hfile
  · intro e' s _ ho
    have hout : w.shared.outside env e' = some s := ho
    obtain ⟨hfile, hnow, hposts, hdanger⟩ := Shared.outside_danger hout hd.shared
    refine ⟨fun id hid => ?_, fun k g hg => ?_⟩
    · rw [hfile]
      exact (hw.shared id (hdanger id hid)).later hnow
    · exact (hw.flights k g hg).later hnow hposts fun _ _ id hid => .inl (hdanger id hid)

/-! ## Lists and restarts -/

/-- Since the last post, there was a time at which remotehub did not list the request. -/
def Unlisted (env : Settings) (s : Shared) (es : List (Interleave.Event Flight Outside))
    (w : World Shared Flight) (id : Uuid) : Prop :=
  ∃ es₁ es₂ u k, es = es₁ ++ es₂ ∧ Run.run (step (system env)) (.quiet s) es₁ = some u ∧
    u.shared.posts.length = w.shared.posts.length ∧
    id ∉ (ConnectorRequests.pending (env.postgres.scan k u.shared.server.tables.requests) env.connector
      u.shared.server.clock).requests.map (·.id)

/-- What remotehub listed in reply to a post. -/
def Listed (env : Settings) (s : Shared) (es : List (Interleave.Event Flight Outside)) (w : World Shared Flight)
    (post : Nat) (pending : Pending) : Prop :=
  ∃ es₁ es₂ u k, es = es₁ ++ es₂ ∧ Run.run (step (system env)) (.quiet s) es₁ = some u ∧
    post < u.shared.posts.length ∧ u.shared.posts.length ≤ w.shared.posts.length ∧
    pending = ConnectorRequests.pending (env.postgres.scan k u.shared.server.tables.requests) env.connector
      u.shared.server.clock

/-- Every reply is what remotehub listed at a time since its post, and the last post is the one awaited. -/
structure Replied (env : Settings) (s : Shared) (es : List (Interleave.Event Flight Outside))
    (w : World Shared Flight) : Prop where
  replies : ∀ post pending, (post, pending) ∈ w.shared.replies → Listed env s es w post pending
  awaited : ∀ post ∈ w.shared.awaited, post + 1 = w.shared.posts.length
  reports : ∀ k post f, w.flights.lookup k = some (.report post f) →
    post < w.shared.posts.length ∧ f.reporter = some env.connector

theorem Listed.later {post : Nat} {pending : Pending} (h : Listed env s es w post pending)
    (e : Interleave.Event Flight Outside) (hposts : w.shared.posts.length ≤ w'.shared.posts.length) :
    Listed env s (es ++ [e]) w' post pending := by
  obtain ⟨es₁, es₂, u, k, rfl, hu, hpost, hlength, hpending⟩ := h
  exact ⟨es₁, es₂ ++ [e], u, k, List.append_assoc _ _ _, hu, hpost, hlength.trans hposts, hpending⟩

/-- What a step of a process replies, and where it leaves a report. -/
theorem Flight.Steps.replied (h : f.Steps env k s s' o) : s'.posts = s.posts ∧ s'.awaited = s.awaited ∧
    (∀ post pending, (post, pending) ∈ s'.replies → (post, pending) ∈ s.replies ∨
      ∃ connector, f = .report post (.report connector []) ∧ pending =
        ConnectorRequests.pending (env.postgres.scan k s.server.tables.requests) connector s.server.clock) ∧
    ∀ post g, o = some (.report post g) → (post < s.posts.length ∧ g.reporter = some env.connector) ∨
      ∃ f', f = .report post f' ∧ g.reporter = f'.reporter := by
  cases h with
  | listed post connector =>
    refine ⟨rfl, rfl, fun post' pending hmem => ?_, fun _ _ hg => by cases hg⟩
    rcases List.mem_cons.1 hmem with heq | hmem
    · cases heq
      exact .inr ⟨connector, rfl, rfl⟩
    · exact .inl hmem
  | arrived posted sent =>
    refine ⟨rfl, rfl, fun _ _ hmem => .inl hmem, fun post g hg => ?_⟩
    cases hg
    exact .inl ⟨sent, rfl⟩
  | report steps =>
    refine ⟨rfl, rfl, fun _ _ hmem => .inl hmem, fun post g hg => ?_⟩
    obtain ⟨g', hg', heq⟩ := Option.map_eq_some_iff.1 hg
    cases heq
    exact .inr ⟨_, rfl, (steps.left _ hg').1⟩
  | call steps =>
    refine ⟨rfl, rfl, fun _ _ hmem => .inl hmem, fun post g hg => ?_⟩
    obtain ⟨_, -, heq⟩ := Option.map_eq_some_iff.1 hg
    cases heq
  | _ => exact ⟨rfl, rfl, fun _ _ hmem => .inl hmem, fun _ _ hg => by cases hg⟩

theorem Shared.outside_replied {e : Outside} (h : s.outside env e = some s')
    (hs : ∀ post ∈ s.awaited, post + 1 = s.posts.length) : s.posts.length ≤ s'.posts.length ∧
      s'.replies = s.replies ∧ ∀ post ∈ s'.awaited, post + 1 = s'.posts.length := by
  cases e with
  | server e =>
    obtain ⟨server, -, rfl⟩ := Option.map_eq_some_iff.1 h
    exact ⟨le_rfl, rfl, hs⟩
  | tick now =>
    simp only [Shared.outside] at h
    split at h
    · cases h
      exact ⟨le_rfl, rfl, hs⟩
    · cases h
  | giveUp k =>
    cases h
    exact ⟨le_rfl, rfl, hs⟩
  | post =>
    cases h
    have hlength : (s.posts ++ [s.memory.answers]).length = s.posts.length + 1 := List.length_append
    refine ⟨?_, rfl, fun post hpost => ?_⟩
    · dsimp only
      omega
    · dsimp only
      rw [hlength, Option.some.inj hpost]
  | take pending =>
    simp only [Shared.outside] at h
    split at h
    · split at h
      · cases h
        exact ⟨le_rfl, rfl, fun _ hpost => by cases hpost⟩
      · cases h
        exact ⟨le_rfl, rfl, fun _ hpost => by cases hpost⟩
    · cases h
  | restart =>
    cases h
    exact ⟨le_rfl, rfl, fun _ hpost => by cases hpost⟩

theorem replied_step (hr : Run.run (step (system env)) (.quiet s) es = some w)
    (h : step (system env) w e = some w') (hw : Replied env s es w) : Replied env s (es ++ [e]) w' := by
  rcases step_cases h with ⟨k, f, -, -, hf, rfl⟩ | ⟨k, f, s', o, rfl, hf, hn, rfl⟩ | ⟨e', s', -, ho, rfl⟩
  · refine ⟨fun post pending hmem => (hw.replies post pending hmem).later _ le_rfl, hw.awaited,
      fun k' post g hg => ?_⟩
    rw [HashMap.lookup_insert_eq] at hg
    split at hg
    · cases hg
      cases hf
    · exact hw.reports k' post g hg
  · obtain ⟨hposts, hawaited, hreplies, hreports⟩ := (Flight.next_steps hn).replied
    refine ⟨fun post pending hmem => ?_, ?_, fun k' post g hg => ?_⟩
    · rcases hreplies post pending hmem with hold | ⟨connector, rfl, hpending⟩
      · exact (hw.replies post pending hold).later _ (le_of_eq (congrArg List.length hposts.symm))
      · obtain ⟨hpost, hconnector⟩ := hw.reports k post _ hf
        obtain rfl : connector = env.connector := Option.some.inj hconnector
        exact ⟨es, [.next k], w, k, rfl, hr, hpost, le_of_eq (congrArg List.length hposts.symm), hpending⟩
    · rw [hposts, hawaited]
      exact hw.awaited
    · rw [hposts]
      rcases of_lookup_put hg with ⟨-, ho⟩ | ⟨-, hg⟩
      · rcases hreports post g ho with hnew | ⟨f', rfl, heq⟩
        · exact hnew
        · rw [heq]
          exact hw.reports k post f' hf
      · exact hw.reports k' post g hg
  · have hout : w.shared.outside env e' = some s' := ho
    obtain ⟨hposts, hreplies, hawaited⟩ := Shared.outside_replied hout hw.awaited
    refine ⟨fun post pending hmem => ?_, hawaited, fun k post f hf => ?_⟩
    · rw [hreplies] at hmem
      exact (hw.replies post pending hmem).later _ hposts
    · obtain ⟨hpost, hreporter⟩ := hw.reports k post f hf
      exact ⟨lt_of_lt_of_le hpost hposts, hreporter⟩

/-- What a process does forgets no answer. -/
theorem Flight.Steps.answers (h : f.Steps env k s s' o) : ∀ a ∈ s.memory.answers, a ∈ s'.memory.answers := by
  cases h with
  | approved answer | refused answer => exact fun a ha => List.mem_append_left _ ha
  | _ => exact fun _ ha => ha

/-- While the connector runs, an answer is forgotten when a list comes without its request. -/
theorem unlisted_of_forgotten (hw : Replied env s es w)
    (hread : ∀ post pending pending', (post, pending) ∈ w.shared.replies →
      env.read (Connector.toVec pending) = .ok pending' → pending' = pending)
    (h : step (system env) w e = some w') (hrestart : e ≠ .outside .restart) {a : Connector.Answer}
    (ha : a ∈ w.shared.memory.answers) (hgone : a ∉ w'.shared.memory.answers) : Unlisted env s es w a.id := by
  rcases step_cases h with ⟨k, f, -, -, -, rfl⟩ | ⟨k, f, s', o, -, -, hn, rfl⟩ | ⟨e', s', rfl, ho, rfl⟩
  · exact absurd ha hgone
  · exact absurd ((Flight.next_steps hn).answers a ha) hgone
  · have hout : w.shared.outside env e' = some s' := ho
    cases e' with
    | server e' =>
      obtain ⟨server, -, rfl⟩ := Option.map_eq_some_iff.1 hout
      exact absurd ha hgone
    | tick now =>
      simp only [Shared.outside] at hout
      split at hout <;> cases hout
      exact absurd ha hgone
    | giveUp k | post =>
      cases hout
      exact absurd ha hgone
    | take pending =>
      simp only [Shared.outside] at hout
      split at hout
      · rename_i hreply
        obtain ⟨post, hpost, hmem⟩ := (Option.any_eq_true _ _).1 hreply
        have hmem' : (post, pending) ∈ w.shared.replies := of_decide_eq_true hmem
        obtain ⟨es₁, es₂, u, k, hes, hu, hlast, hlength, hpending⟩ := hw.replies post pending hmem'
        have hawaited := hw.awaited post hpost
        split at hout
        · rename_i requests hparse
          have hrequests : requests = pending.requests := by
            have hok := (Connector.parse_eq_ok.1 hparse).2.1
            exact congrArg Pending.requests (hread post pending ⟨requests⟩ hmem' hok)
          cases hout
          refine ⟨es₁, es₂, u, k, hes, hu, by omega, fun hlisted => hgone ?_⟩
          rw [← hpending, ← hrequests] at hlisted
          exact List.mem_filter.2 ⟨ha, decide_eq_true hlisted⟩
        · cases hout
          exact absurd ha hgone
      · cases hout
    | restart => exact absurd rfl hrestart

/-- Nothing was asked of the connector, and nothing answered. -/
structure Fresh (s : Shared) : Prop where
  drawn : ∀ id row, s.server.tables.requests.lookup id = some row → id ∈ s.server.tables.drawn
  records : s.server.tables.records = []
  memory : s.memory.answers = []
  posts : s.posts = []
  awaited : s.awaited = none
  replies : s.replies = []

theorem Fresh.settled (h : Fresh s) : Settled s.server.tables where
  drawn := h.drawn
  once := by
    rw [h.records]
    exact List.nodup_nil
  recorded e he := by
    rw [h.records] at he
    cases he

theorem Fresh.quiet (h : Fresh s) : Quiet env s := by
  intro id hid
  obtain ⟨a, -, -, hrecorded | ⟨-, hheld | ⟨answers, hposted, -⟩⟩⟩ := hid
  · rw [h.records] at hrecorded
    cases hrecorded
  · rw [h.memory] at hheld
    cases hheld
  · rw [h.posts] at hposted
    cases hposted

theorem Fresh.replied (h : Fresh s) : Replied env s [] (.quiet s) where
  replies post pending hmem := by
    have hnone : s.replies = [] := h.replies
    have hmem' : (post, pending) ∈ s.replies := hmem
    rw [hnone] at hmem'
    cases hmem'
  awaited post hpost := by
    have hpost' : post ∈ s.awaited := hpost
    rw [h.awaited] at hpost'
    cases hpost'
  reports k post f hf := by cases hf

/-- **Answers of a customer.** In every run, remotehub records at most one answer to a request, and its status
does not change once it is decided; while the connector runs, an answer leaves its memory only after remotehub
did not list the request any more. In the runs in which nobody's refusal crosses another's approval, the access
file has no open grant of a request whose refusal is recorded. -/
theorem answers_apart (env : Settings) (s : Shared) (hs : Fresh s) (es : List (Interleave.Event Flight Outside))
    (w : World Shared Flight) (hr : Run.run (step (system env)) (.quiet s) es = some w)
    (hread : ∀ post pending pending', (post, pending) ∈ w.shared.replies →
      env.read (Connector.toVec pending) = .ok pending' → pending' = pending) :
    (w.shared.server.tables.records.map (·.2.id)).Nodup ∧
      (∀ es₁ es₂ u, es = es₁ ++ es₂ → Run.run (step (system env)) (.quiet s) es₁ = some u →
        ∀ id row row', u.shared.server.tables.requests.lookup id = some row → row.status ≠ .pending →
          w.shared.server.tables.requests.lookup id = some row' → row'.status = row.status) ∧
      (∀ e w', step (system env) w e = some w' → e ≠ .outside .restart → ∀ a ∈ w.shared.memory.answers,
        a ∉ w'.shared.memory.answers → Unlisted env s es w a.id) ∧
      (Run.Meets (step (system env)) (Fair env) (.quiet s) es → ∀ a : Connector.Answer,
        (env.connector, a) ∈ w.shared.server.tables.records → a.approved = false →
          ∀ grant, w.shared.file.requests.lookup a.id = some grant →
            grant.stored.access.isOpen w.shared.now = false) := by
  have hnew : Decided (.quiet s) := Holds.quiet hs.settled
  refine ⟨(decided_of_run hnew hr).1.shared.once, ?_, ?_, ?_⟩
  · intro es₁ es₂ u hes hu id row row' hrow hdecided hrow'
    rw [hes, Run.run_append, hu] at hr
    obtain ⟨hu', -⟩ := decided_of_run hnew hu
    obtain ⟨row₁, hrow₁, hsame⟩ :=
      (decided_of_run hu' hr).2.rows id (hu'.shared.drawn id row hrow) row' hrow'
    obtain rfl := Option.some.inj (hrow.symm.trans hrow₁)
    exact hsame hdecided
  · intro e w' he hrestart a ha hgone
    refine unlisted_of_forgotten ?_ hread he hrestart ha hgone
    exact Run.inv_of_run (I := fun es w => Replied env s es w) hs.replied
      (fun es u e u' hu hstep hreplied => replied_step hu hstep hreplied) hr
  · intro hfair a ha hrefused grant hgrant
    have hapart : Apart env w := by
      refine (Run.inv_of_meets (I := fun _ w => Decided w ∧ Apart env w) ⟨hnew, Holds.quiet hs.quiet⟩ ?_ hfair hr).2
      intro _ u e u' _ hfair' hu ih
      exact ⟨(decided_step ih.1 hu).1, apart_step ih.1 ih.2 hfair' hu⟩
    exact hapart.shared a.id ⟨a, rfl, hrefused, .inl ha⟩ grant hgrant

/-- A step that does not open, and that refuses while nothing is open. -/
def plainly (w : World Shared Flight) : Interleave.Event Flight Outside → Bool
  | .next k =>
    match w.flights.lookup k with
    | some (.click _ (.opening ..)) => false
    | some (.click _ (.refusing ..)) => w.shared.file.requests.entries.isEmpty &&
        w.flights.entries.all fun f => f.2.copy.isNone
    | _ => true
  | _ => true

theorem fair_of_plainly (h : plainly w e = true) : Fair env w e where
  approves k n user request now file he hf := by
    subst he
    simp [plainly, hf] at h
  refuses k n user request he hf _ _ _ := by
    subst he
    simp only [plainly, hf, Bool.and_eq_true, List.isEmpty_iff, List.all_eq_true] at h
    refine ⟨fun grant hgrant => ?_, fun k' f file hf' hcopy => ?_⟩
    · have hmem := HashMap.lookup_eq_some.1 hgrant
      rw [h.1] at hmem
      cases hmem
    · have hnone := h.2 _ (HashMap.lookup_eq_some.1 hf')
      rw [hcopy] at hnone
      cases hnone

end

/-! A request for one device waits. -/

def sqlRow : ConnectorRequests.RequestRow where
  connectorId := 7
  folderId := none
  deviceId := some 1
  objectName := "sql"
  targets := [⟨"sql", "10.0.0.5", 22⟩]
  requesterId := 1
  requesterName := "alex"
  minutes := 60
  reason := "patches"
  createdAt := 0
  minutesCheck := by decide
  reasonCheck := by decide

def sqlPending : Pending := ⟨[sqlRow.request 3]⟩

def sqlSettings : Settings where
  connector := 7
  postgres := ConnectorRequests.entriesScan
  read bytes :=
    if bytes = Connector.toVec sqlPending then .ok sqlPending
    else if bytes = Connector.toVec ⟨[]⟩ then .ok ⟨[]⟩
    else .error "expected value"
  format _ := some "1970-01-01T01:00:00Z"

def sqlWaits : Shared where
  server := { clock := 0, tables := { requests := AList.singleton 3 sqlRow, drawn := [3] } }
  now := ⟨0, 0⟩

theorem sqlWaits_fresh : Fresh sqlWaits where
  drawn id row hrow := by
    have hmem : id ∈ sqlWaits.server.tables.requests := AList.lookup_isSome.1 (by rw [hrow]; rfl)
    exact hmem
  records := rfl
  memory := rfl
  posts := rfl
  awaited := rfl
  replies := rfl

/-- The connector posts, and takes the list it gets. -/
def fetch (post k : Nat) (list : Pending) : List (Interleave.Event Flight Outside) :=
  [.outside .post, .start k (.arrives post), .next k, .next k, .outside (.take list)]

/-- `kim` refuses the request, and the answer reaches remotehub. -/
def refusal (restarts post k : Nat) : List (Interleave.Event Flight Outside) :=
  [.start k (.click restarts (.refuse "kim" 3)), .next k, .next k, .outside .post,
    .start (k + 1) (.arrives post), .next (k + 1), .next (k + 1), .next (k + 1)]

/-- The world after the events, from where the request for `sql` waits. -/
def sqlRun (es : List (Interleave.Event Flight Outside)) : Option (World Shared Flight) :=
  Run.run (step (system sqlSettings)) (.quiet sqlWaits) es

theorem answers_apart_refused : ∃ w, sqlRun (fetch 0 0 sqlPending ++ refusal 0 1 1) = some w ∧
    w.shared.server.tables.records.length = 1 ∧ (w.shared.server.tables.records.map (·.2.id)).Nodup ∧
      ∀ a : Connector.Answer, (7, a) ∈ w.shared.server.tables.records → a.approved = false →
        ∀ grant, w.shared.file.requests.lookup a.id = some grant →
          grant.stored.access.isOpen w.shared.now = false := by
  have hrun : ((sqlRun (fetch 0 0 sqlPending ++ refusal 0 1 1)).map fun w =>
      (w.shared.server.tables.records.length, w.shared.replies.map (·.2))) = some (1, [sqlPending]) := by
    decide +kernel
  have hplain : Run.Meets (step (system sqlSettings)) (fun w e => plainly w e = true) (.quiet sqlWaits)
      (fetch 0 0 sqlPending ++ refusal 0 1 1) := by
    decide +kernel
  have hread : sqlSettings.read (Connector.toVec sqlPending) = .ok sqlPending := by
    simp only [sqlSettings, if_true]
  obtain ⟨w, hw, hknown⟩ := Option.map_eq_some_iff.1 hrun
  obtain ⟨hlength, hreplies⟩ := Prod.mk.inj hknown
  obtain ⟨honce, -, -, hshut⟩ := answers_apart sqlSettings sqlWaits sqlWaits_fresh _ w hw (by
    intro post pending pending' hmem hok
    have hpending : pending ∈ w.shared.replies.map (·.2) := List.mem_map_of_mem hmem
    rw [hreplies, List.mem_singleton] at hpending
    rw [hpending, hread] at hok
    rw [hpending, Except.ok.inj hok])
  exact ⟨w, hw, hlength, honce, hshut (hplain.mono fun _ _ => fair_of_plainly)⟩

end Server.CustomerAnswers
