import RemoteHub.Connector.Proof.Decision

/-!
# Which addresses a target is tried at

`resolve_target` gives the addresses that `allow` covers and the access lets through
(`resolveTarget_eq_ok`); `reach` and `check` share it, so a check says what a connection would do.
-/

namespace Connector

open Net

variable {names : Names} {lookup : Lookup} {allow : List Network} {s : Snapshot} {target : String}
  {now : OffsetDateTime} {resolved : Resolved}

/-- Whether `allow` covers an address. -/
def Covered (allow : List Network) (ip : IpAddr) : Prop := allow = [] ∨ ∃ network ∈ allow, network.contains ip = true

theorem mapError_eq_ok {ε ε' α : Type} {x : Except ε α} {f : ε → ε'} {a : α} :
    x.mapError f = .ok a ↔ x = .ok a := by
  cases x <;> simp [Except.mapError]

/-- The ends that are found together are the latest of them. -/
theorem foldl_opened {opened : List (SocketAddr × Option OffsetDateTime)} :
    opened.foldl (fun ends e => later ends (some e.2)) none = none ↔ opened = [] := by
  rw [← Option.not_isSome_iff_eq_none, foldl_later_isSome, List.eq_nil_iff_forall_not_mem]
  simp

theorem resolveTarget_eq_ok (h : resolveTarget names lookup allow s target now = .ok resolved) :
    ∃ addresses, hostPort target = some (resolved.host, resolved.port) ∧ lookup target = .ok addresses ∧
      (∀ a, a ∈ resolved.addresses ↔ a ∈ addresses ∧ Covered allow a.ip ∧
        permitted names s ⟨resolved.host, a.ip, resolved.port⟩ now = true) ∧
      resolved.addresses ≠ [] ∧
      (∃ a ∈ resolved.addresses,
        openUntil names s ⟨resolved.host, a.ip, resolved.port⟩ now = some resolved.ends) ∧
      ∀ a ∈ resolved.addresses,
        (openUntil names s ⟨resolved.host, a.ip, resolved.port⟩ now).instant ≤
          End.instant (some resolved.ends) := by
  obtain ⟨⟨host, port⟩, hhost, h⟩ := Except.bind_eq_ok.1 h
  rw [Except.elim_eq_ok] at hhost
  obtain ⟨addresses, hlookup, h⟩ := Except.bind_eq_ok.1 h
  rw [mapError_eq_ok] at hlookup
  obtain ⟨-, -, h⟩ := Except.bind_eq_ok.1 h
  dsimp only at h
  split at h
  swap
  · cases h
  rename_i ends hends
  cases h
  have hmem : ∀ a ends, (a, ends) ∈ (addresses.filter fun a => allow.isEmpty || allow.any (·.contains a.ip)).filterMap
      (fun a => (openUntil names s ⟨host, a.ip, port⟩ now).map (a, ·)) ↔
      (a ∈ addresses ∧ Covered allow a.ip) ∧ openUntil names s ⟨host, a.ip, port⟩ now = some ends := by
    intro a ends
    rw [List.mem_filterMap]
    constructor
    · rintro ⟨b, hb, hmap⟩
      obtain ⟨ends', hends', heq⟩ := Option.map_eq_some_iff.1 hmap
      cases heq
      obtain ⟨hb, hcovered⟩ := List.mem_filter.1 hb
      refine ⟨⟨hb, ?_⟩, hends'⟩
      rwa [Bool.or_eq_true, List.isEmpty_iff, List.any_eq_true] at hcovered
    · rintro ⟨⟨ha, hcovered⟩, hends'⟩
      refine ⟨a, List.mem_filter.2 ⟨ha, ?_⟩, by rw [hends', Option.map_some]⟩
      rwa [Bool.or_eq_true, List.isEmpty_iff, List.any_eq_true]
  have haddr : ∀ a, a ∈ ((addresses.filter fun a => allow.isEmpty || allow.any (·.contains a.ip)).filterMap
      (fun a => (openUntil names s ⟨host, a.ip, port⟩ now).map (a, ·))).map (·.1) ↔
      a ∈ addresses ∧ Covered allow a.ip ∧ permitted names s ⟨host, a.ip, port⟩ now = true := by
    intro a
    rw [List.mem_map, permitted, Option.isSome_iff_exists]
    constructor
    · rintro ⟨⟨b, ends⟩, hb, rfl⟩
      obtain ⟨⟨hb, hcovered⟩, hopen⟩ := (hmem b ends).1 hb
      exact ⟨hb, hcovered, ends, hopen⟩
    · rintro ⟨ha, hcovered, ends, hopen⟩
      exact ⟨(a, ends), (hmem a ends).2 ⟨⟨ha, hcovered⟩, hopen⟩, rfl⟩
  refine ⟨addresses, hhost, hlookup, haddr, ?_, ?_, ?_⟩
  · intro hnil
    rw [foldl_opened.2 (List.map_eq_nil_iff.1 hnil)] at hends
    cases hends
  · rcases foldl_later_eq_some hends with hnone | ⟨⟨a, ends'⟩, ha, heq⟩
    · cases hnone
    · cases heq
      exact ⟨a, List.mem_map_of_mem ha, ((hmem a ends').1 ha).2⟩
  · intro a ha
    obtain ⟨⟨b, ends'⟩, hb, rfl⟩ := List.mem_map.1 ha
    rw [((hmem b ends').1 hb).2]
    have hle := (le_foldl_later (x := none)
      (f := fun e : SocketAddr × Option OffsetDateTime => some e.2)).2 _ hb
    rw [hends] at hle
    exact hle

theorem tried_eq_nil_iff :
    tried names lookup allow s target now = [] ↔
      ∀ resolved, resolveTarget names lookup allow s target now ≠ .ok resolved := by
  unfold tried
  cases hresolved : resolveTarget names lookup allow s target now with
  | error e => simp
  | ok resolved =>
    obtain ⟨-, -, -, -, hne, -⟩ := resolveTarget_eq_ok hresolved
    simp [hne]

/-- A connection is to the addresses tried: they are what `reach` gives to `connect`, and it gives none where
there are none. -/
theorem reach_eq_ok {connect : List SocketAddr → Except String SocketAddr} {reached : Reached} :
    reach names lookup allow s target now connect = .ok reached ↔
      tried names lookup allow s target now ≠ [] ∧ ∃ host port peer, hostPort target = some (host, port) ∧
        connect (tried names lookup allow s target now) = .ok peer ∧ reached = ⟨host, peer.ip, port⟩ := by
  unfold reach tried
  cases hresolved : resolveTarget names lookup allow s target now with
  | error e =>
    refine iff_of_false (fun h => ?_) fun h => h.1 rfl
    cases h
  | ok resolved =>
    obtain ⟨-, hhost, -, -, hne, -⟩ := resolveTarget_eq_ok hresolved
    constructor
    · intro h
      obtain ⟨_, hsame, h⟩ := Except.bind_eq_ok.1 h
      cases hsame
      obtain ⟨peer, hpeer, h⟩ := Except.bind_eq_ok.1 h
      cases h
      exact ⟨hne, resolved.host, resolved.port, peer, hhost, mapError_eq_ok.1 hpeer, rfl⟩
    · rintro ⟨-, host, port, peer, hhost', hpeer, rfl⟩
      rw [hhost] at hhost'
      cases hhost'
      exact Except.bind_eq_ok.2 ⟨resolved, rfl, Except.bind_eq_ok.2 ⟨peer, mapError_eq_ok.2 hpeer, rfl⟩⟩

/-- **Where the connector connects to.** Whatever target remotehub sends, each address that is tried is
one of its own, covered by `allow` and permitted by the access on the asked host and port. A check says
that the target is open exactly if there is an address to try, and the end it reports is the latest one
over those addresses. `hports`: the lookup answers with the port after the last colon. -/
theorem tried_permitted (format : OffsetDateTime → Option String) (names : Names) (lookup : Lookup)
    (allow : List Network) (s : Snapshot) (target : String) (now : OffsetDateTime)
    (hports : ∀ host port addresses, hostPort target = some (host, port) →
      lookup target = .ok addresses → ∀ a ∈ addresses, a.port = port) :
    (∀ a ∈ tried names lookup allow s target now,
      (∃ addresses, lookup target = .ok addresses ∧ a ∈ addresses) ∧ Covered allow a.ip ∧
        ∃ host, hostPort target = some (host, a.port) ∧
          permitted names s ⟨host, a.ip, a.port⟩ now = true) ∧
    ((check format names lookup allow s target now).opened = true ↔
      tried names lookup allow s target now ≠ []) ∧
    (tried names lookup allow s target now ≠ [] → ∃ host port latest,
      hostPort target = some (host, port) ∧
      (check format names lookup allow s target now).ends = latest.bind format ∧
      (∃ a ∈ tried names lookup allow s target now,
        openUntil names s ⟨host, a.ip, port⟩ now = some latest) ∧
      ∀ a ∈ tried names lookup allow s target now,
        (openUntil names s ⟨host, a.ip, port⟩ now).instant ≤ End.instant (some latest)) := by
  cases hresolved : resolveTarget names lookup allow s target now with
  | error e =>
    have hnil : tried names lookup allow s target now = [] := by
      simp only [tried, hresolved]
    have hcheck : check format names lookup allow s target now = ⟨false, none⟩ := by
      simp only [check, hresolved]
    rw [hnil, hcheck]
    exact ⟨fun a ha => absurd ha List.not_mem_nil, iff_of_false (by decide) (fun h => h rfl), fun h => absurd rfl h⟩
  | ok resolved =>
    obtain ⟨addresses, hhost, hlookup, hmem, hne, hlatest, hle⟩ := resolveTarget_eq_ok hresolved
    have htried : tried names lookup allow s target now = resolved.addresses := by
      simp only [tried, hresolved]
    have hcheck : check format names lookup allow s target now = ⟨true, resolved.ends.bind format⟩ := by
      simp only [check, hresolved]
    rw [htried, hcheck]
    refine ⟨fun a ha => ?_, iff_of_true rfl hne,
      fun _ => ⟨resolved.host, resolved.port, resolved.ends, hhost, rfl, hlatest, hle⟩⟩
    obtain ⟨haddresses, hcovered, hpermitted⟩ := (hmem a).1 ha
    have hport := hports _ _ _ hhost hlookup a haddresses
    rw [hport]
    exact ⟨⟨addresses, hlookup, haddresses⟩, hcovered, resolved.host, hhost, hpermitted⟩

/-- Of two addresses, the one in the network of `allow`. -/
theorem tried_permitted_lab :
    tried ⟨fun _ => [], fun _ => none⟩ (fun _ => .ok [⟨.v4 0xc0a80105, 22⟩, ⟨.v4 0x0a000005, 22⟩])
        [⟨.v4 0x0a000000, 24, by decide⟩] lab "10.0.0.5:22" ⟨0, 0⟩ = [⟨.v4 0x0a000005, 22⟩] ∧
      Covered [⟨.v4 0x0a000000, 24, by decide⟩] (.v4 0x0a000005) ∧
      ∃ host, hostPort "10.0.0.5:22" = some (host, 22) ∧
        permitted ⟨fun _ => [], fun _ => none⟩ lab ⟨host, .v4 0x0a000005, 22⟩ ⟨0, 0⟩ = true := by
  have hhost : hostPort "10.0.0.5:22" = some ("10.0.0.5", 22) := by decide
  have htried : tried ⟨fun _ => [], fun _ => none⟩
      (fun _ => .ok [⟨.v4 0xc0a80105, 22⟩, ⟨.v4 0x0a000005, 22⟩]) [⟨.v4 0x0a000000, 24, by decide⟩] lab
      "10.0.0.5:22" ⟨0, 0⟩ = [⟨.v4 0x0a000005, 22⟩] := by decide
  refine ⟨htried, ((tried_permitted (fun _ => none) _ _ _ lab "10.0.0.5:22" ⟨0, 0⟩ ?_).1
    ⟨.v4 0x0a000005, 22⟩ (htried ▸ List.mem_singleton_self _)).2⟩
  intro host port addresses h hlookup a ha
  rw [hhost] at h
  cases h
  cases hlookup
  rcases List.mem_cons.1 ha with rfl | ha
  · rfl
  · rw [List.mem_singleton.1 ha]

end Connector
