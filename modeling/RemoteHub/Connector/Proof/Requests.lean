import Mathlib.Data.List.Basic
import RemoteHub.Connector.Requests

/-!
# What `parse` accepts

An answer of remotehub is accepted exactly if it is short enough, is read, and each of its at most
twenty requests is valid and listed once (`parse_eq_ok`).
-/

namespace Connector

open Model Net Except

/-- A target as the connector takes it. -/
structure RequestTarget.Valid (target : RequestTarget) : Prop where
  name : plain target.name maxName = true
  host : Connector.host target.host = true
  port : target.port ≠ 0

/-- A request as the connector takes it. -/
structure CustomerRequest.Valid (request : CustomerRequest) : Prop where
  requester : plain request.requester maxName = true
  reason : plain request.reason maxReason = true
  minutes : Minutes request.minutes
  targets : request.targets ≠ [] ∧ request.targets.length ≤ maxTargets
  target : ∀ target ∈ request.targets, target.Valid

section
variable {id : Uuid} {seen : List Uuid} {target : RequestTarget} {request : CustomerRequest}
  {requests : List CustomerRequest} {read : Bytes → Except String Pending} {bytes : Bytes}

theorem RequestTarget.check_eq_ok : target.check id = .ok () ↔ target.Valid := by
  simp only [RequestTarget.check, bind_eq_ok, refuse_eq_ok, Bool.not_eq_false]
  constructor
  · rintro ⟨_, hname, _, hhost, hport⟩
    exact ⟨hname, hhost, hport⟩
  · exact fun h => ⟨(), h.name, (), h.host, h.port⟩

theorem CustomerRequest.check_eq_ok : request.check seen = .ok () ↔ request.id ∉ seen ∧ request.Valid := by
  simp only [CustomerRequest.check, bind_eq_ok, refuse_eq_ok, Bool.not_eq_false, not_not, not_or,
    Nat.not_lt, forM_eq_ok, RequestTarget.check_eq_ok]
  constructor
  · rintro ⟨_, hseen, _, hrequester, _, hreason, _, hminutes, _, htargets, htarget⟩
    exact ⟨hseen, hrequester, hreason, hminutes, htargets, htarget⟩
  · rintro ⟨hseen, h⟩
    exact ⟨(), hseen, (), h.requester, (), h.reason, (), h.minutes, (), h.targets, h.target⟩

theorem checkAll_eq_ok {u : Unit} : checkAll seen requests = .ok u ↔
    (∀ request ∈ requests, request.Valid ∧ request.id ∉ seen) ∧ (requests.map (·.id)).Nodup := by
  induction requests generalizing seen with
  | nil => exact iff_of_true rfl ⟨fun request h => absurd h List.not_mem_nil, .nil⟩
  | cons request requests ih =>
    rw [checkAll, bind_eq_ok, List.forall_mem_cons, List.map_cons, List.nodup_cons]
    constructor
    · rintro ⟨_, hcheck, hrest⟩
      obtain ⟨hseen, hvalid⟩ := CustomerRequest.check_eq_ok.1 hcheck
      obtain ⟨hrest, hnodup⟩ := ih.1 hrest
      refine ⟨⟨⟨hvalid, hseen⟩, fun r hr => ⟨(hrest r hr).1, fun h => (hrest r hr).2 ?_⟩⟩, ?_, hnodup⟩
      · exact List.mem_cons_of_mem _ h
      · intro hmem
        obtain ⟨r, hr, hid⟩ := List.mem_map.1 hmem
        exact (hrest r hr).2 (hid ▸ List.mem_cons_self)
    · rintro ⟨⟨⟨hvalid, hseen⟩, hrest⟩, hnew, hnodup⟩
      refine ⟨(), CustomerRequest.check_eq_ok.2 ⟨hseen, hvalid⟩,
        ih.2 ⟨fun r hr => ⟨(hrest r hr).1, ?_⟩, hnodup⟩⟩
      rw [List.mem_cons, not_or]
      exact ⟨fun hid => hnew (hid ▸ List.mem_map_of_mem hr), (hrest r hr).2⟩

/-- **What `parse` accepts.** -/
theorem parse_eq_ok : parse read bytes = .ok requests ↔
    bytes.length ≤ maxPendingBytes ∧ read bytes = .ok ⟨requests⟩ ∧ requests.length ≤ maxRequests ∧
      (∀ request ∈ requests, request.Valid) ∧ (requests.map (·.id)).Nodup := by
  simp only [parse, bind_eq_ok, refuse_eq_ok, Nat.not_lt, checkAll_eq_ok, pure_eq_ok]
  constructor
  · rintro ⟨_, hlength, ⟨requests'⟩, hread, _, hmany, _, ⟨hvalid, hnodup⟩, rfl⟩
    refine ⟨hlength, ?_, hmany, fun request hrequest => (hvalid request hrequest).1, hnodup⟩
    cases hbytes : read bytes with
    | error e =>
      rw [hbytes] at hread
      cases hread
    | ok pending =>
      rw [hbytes] at hread
      cases hread
      rfl
  · rintro ⟨hlength, hread, hmany, hvalid, hnodup⟩
    refine ⟨(), hlength, ⟨requests⟩, by rw [hread]; rfl, (), hmany, (), ⟨fun request hrequest =>
      ⟨hvalid request hrequest, List.not_mem_nil⟩, hnodup⟩, rfl⟩

end

end Connector
