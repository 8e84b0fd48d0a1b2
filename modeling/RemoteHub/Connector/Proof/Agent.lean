import RemoteHub.Connector.Agent
import RemoteHub.Connector.Proof.Snapshot

/-!
# What the access lets through

`Lets names s reached scope` says, whatever the time, that `scope` opens the way to `reached` while it
is open. `open_until` answers with the end of one such scope, and answers if one is open
(`openUntil_eq_some`, `permitted_iff`). So what is permitted changes only when a scope closes
(`permitted_earlier`, `permitted_until_nextEnd`).
-/

namespace Connector

/-! ## Connections -/

/-- Whether a scope, while it is open, opens the way to `reached`. -/
def Lets (names : Names) (s : Snapshot) (reached : Reached) : Scope → Prop
  | .network => True
  | .device name => ∃ d ∈ s.inventory.devices, d.name = name ∧ d.lets names reached = true
  | .group name => ∃ d ∈ s.inventory.devices, name ∈ d.groups ∧ d.lets names reached = true
  | .request id => ∃ grant, s.access.requests.lookup id = some grant ∧
      ∃ d ∈ grant.devices, d.grants names reached = true

variable {names : Names} {s : Snapshot} {reached : Reached} {now now' : OffsetDateTime}

theorem lets_of_mem_scopes {device : Device} {scope : Scope} (hdevice : device ∈ s.inventory.devices)
    (hlets : device.lets names reached = true) (hscope : scope ∈ Snapshot.scopes device) :
    Lets names s reached scope := by
  rcases List.mem_cons.1 hscope with rfl | hscope
  · exact ⟨device, hdevice, rfl, hlets⟩
  · obtain ⟨group, hgroup, rfl⟩ := List.mem_map.1 hscope
    exact ⟨device, hdevice, hgroup, hlets⟩

/-- A device or group that opens the way is a scope of a device that does. -/
theorem exists_mem_scopes {scope : Scope} (h : Lets names s reached scope) :
    scope = .network ∨ (∃ device ∈ s.inventory.devices, device.lets names reached = true ∧
      scope ∈ Snapshot.scopes device) ∨ ∃ id grant, scope = .request id ∧
        s.access.requests.lookup id = some grant ∧ ∃ d ∈ grant.devices, d.grants names reached = true := by
  cases scope with
  | network => exact .inl rfl
  | device name =>
    obtain ⟨d, hd, rfl, hlets⟩ := h
    exact .inr (.inl ⟨d, hd, hlets, List.mem_cons_self⟩)
  | group name =>
    obtain ⟨d, hd, hgroup, hlets⟩ := h
    exact .inr (.inl ⟨d, hd, hlets, List.mem_cons_of_mem _ (List.mem_map_of_mem hgroup)⟩)
  | request id =>
    obtain ⟨grant, hgrant, hlets⟩ := h
    exact .inr (.inr ⟨id, grant, rfl, hgrant, hlets⟩)

theorem get_request {id : Model.Uuid} {grant : Grant} (h : s.access.requests.lookup id = some grant) :
    s.access.get (.request id) = grant.stored := by
  rw [AccessFile.get, h, Option.map_some, Option.getD_some]

/-- `open_until` over the requests, after the network and the devices. -/
theorem foldl_requests_isSome {requests : List (Model.Uuid × Grant)} {ends : End} :
    (requests.foldl (fun ends request => (request.2.devices.filter (·.grants names reached)).foldl
        (fun ends _ => later ends (some request.2.stored.access.closesAt)) ends) ends).isSome = true ↔
      ends.isSome = true ∨ ∃ request ∈ requests, ∃ d ∈ request.2.devices, d.grants names reached = true := by
  induction requests generalizing ends with
  | nil => simp
  | cons request requests ih =>
    rw [List.foldl_cons, ih, foldl_later_isSome]
    simp [or_assoc]

theorem foldl_requests_eq_some {requests : List (Model.Uuid × Grant)} {ends : End}
    {at' : Option OffsetDateTime}
    (h : requests.foldl (fun ends request => (request.2.devices.filter (·.grants names reached)).foldl
        (fun ends _ => later ends (some request.2.stored.access.closesAt)) ends) ends = some at') :
    ends = some at' ∨ ∃ request ∈ requests, request.2.stored.access.closesAt = at' ∧
      ∃ d ∈ request.2.devices, d.grants names reached = true := by
  induction requests generalizing ends with
  | nil => exact .inl h
  | cons request requests ih =>
    rcases ih h with h | ⟨found, hfound, h⟩
    · rcases foldl_later_eq_some h with h | ⟨d, hd, h⟩
      · exact .inl h
      · obtain ⟨hd, hgrants⟩ := List.mem_filter.1 hd
        exact .inr ⟨request, List.mem_cons_self, Option.some.inj h, d, hd, hgrants⟩
    · exact .inr ⟨found, List.mem_cons_of_mem request hfound, h⟩

/-- **What is permitted**: that to which an open scope opens the way. -/
theorem permitted_iff :
    permitted names s reached now = true ↔
      ∃ scope, Lets names s reached scope ∧ (s.access.get scope).access.isOpen now = true := by
  unfold permitted openUntil
  rw [foldl_requests_isSome, foldl_later_isSome]
  constructor
  · rintro ((h | ⟨d, hd, -⟩) | ⟨⟨id, grant⟩, hrequest, hlets⟩)
    · refine ⟨.network, trivial, ?_⟩
      by_contra hclosed
      have hnetwork : ¬s.access.network.access.isOpen now = true := hclosed
      rw [Snapshot.networkUntil, if_neg hnetwork] at h
      cases h
    · obtain ⟨hd, hlets⟩ := List.mem_filter.1 hd
      obtain ⟨hd, scope, hscope, hopen⟩ := Snapshot.mem_openDevices.1 hd
      exact ⟨scope, lets_of_mem_scopes hd hlets hscope, hopen⟩
    · obtain ⟨hgrant, hopen⟩ := Snapshot.mem_openRequests.1 hrequest
      refine ⟨.request id, ⟨grant, hgrant, hlets⟩, ?_⟩
      rw [get_request hgrant]
      exact hopen
  · rintro ⟨scope, hlets, hopen⟩
    rcases exists_mem_scopes hlets with rfl | ⟨d, hd, hlets, hscope⟩ | ⟨id, grant, rfl, hgrant, hlets⟩
    · left; left
      have hnetwork : s.access.network.access.isOpen now = true := hopen
      rw [Snapshot.networkUntil, if_pos hnetwork]
      rfl
    · left; right
      refine ⟨d, List.mem_filter.2 ⟨Snapshot.mem_openDevices.2 ⟨hd, scope, hscope, hopen⟩, hlets⟩, ?_⟩
      exact Snapshot.deviceUntil_isSome.2 ⟨scope, hscope, hopen⟩
    · right
      rw [get_request hgrant] at hopen
      exact ⟨(id, grant), Snapshot.mem_openRequests.2 ⟨hgrant, hopen⟩, hlets⟩

/-- **Until when**: the end of an open scope that opens the way. -/
theorem openUntil_eq_some {at' : Option OffsetDateTime} (h : openUntil names s reached now = some at') :
    ∃ scope, Lets names s reached scope ∧ (s.access.get scope).access.isOpen now = true ∧
      (s.access.get scope).access.closesAt = at' := by
  rcases foldl_requests_eq_some h with h | ⟨⟨id, grant⟩, hrequest, hends, hlets⟩
  · rcases foldl_later_eq_some h with h | ⟨d, hd, h⟩
    · unfold Snapshot.networkUntil at h
      split at h
      · exact ⟨.network, trivial, ‹_›, Option.some.inj h⟩
      · cases h
    · obtain ⟨hd, hlets⟩ := List.mem_filter.1 hd
      obtain ⟨hd, -⟩ := Snapshot.mem_openDevices.1 hd
      obtain ⟨scope, hscope, hopen, hends⟩ := Snapshot.deviceUntil_eq_some h
      exact ⟨scope, lets_of_mem_scopes hd hlets hscope, hopen, hends⟩
  · obtain ⟨hgrant, hopen⟩ := Snapshot.mem_openRequests.1 hrequest
    refine ⟨.request id, ⟨grant, hgrant, hlets⟩, ?_⟩
    rw [get_request hgrant]
    exact ⟨hopen, hends⟩

/-- What is permitted has been since. -/
theorem permitted_earlier (hclock : now.nanos ≤ now'.nanos)
    (h : permitted names s reached now' = true) : permitted names s reached now = true := by
  obtain ⟨scope, hlets, hopen⟩ := permitted_iff.1 h
  exact permitted_iff.2 ⟨scope, hlets, Access.isOpen_earlier hclock hopen⟩

/-- What is permitted stays so until `next_end`. -/
theorem permitted_until_nextEnd (h : permitted names s reached now = true)
    (hbefore : ∀ ends ∈ s.nextEnd now, now'.nanos < ends.nanos) :
    permitted names s reached now' = true := by
  obtain ⟨scope, hlets, hopen⟩ := permitted_iff.1 h
  exact permitted_iff.2 ⟨scope, hlets, Snapshot.isOpen_until_nextEnd hopen hbefore⟩

/-- What a check has let through until some end is permitted at every time before it. -/
theorem permitted_before {at' : Option OffsetDateTime} (h : openUntil names s reached now = some at')
    (hbefore : ∀ ends ∈ at', now'.nanos < ends.nanos) : permitted names s reached now' = true := by
  obtain ⟨scope, hlets, hopen, rfl⟩ := openUntil_eq_some h
  exact permitted_iff.2 ⟨scope, hlets, Access.isOpen_until hopen fun ends hends => hbefore ends hends⟩

end Connector
