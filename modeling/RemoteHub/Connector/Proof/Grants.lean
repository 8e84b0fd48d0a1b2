import RemoteHub.Connector.Proof.Agent
import RemoteHub.Connector.Proof.Requests
import RemoteHub.Connector.Proof.Texts

/-!
# An approval opens what was shown

What `host` accepts is read as the address it is, alone, or as a host name (`parse_of_host`): both
grammars take the same addresses, and the host names of requests are host names of the list. So each
target is one device with its one port (`Grant.devices_eq`).
-/

namespace Connector

open Model Net Except

namespace Address

variable {text : String}

/-- The one address, or else the host name, that a text is. -/
def single (text : String) : Address :=
  match IpAddr.parse text with
  | some ip => .range ⟨ip.toCanonical, bits ip.toCanonical, le_rfl⟩
  | none => .host (Text.toAsciiLowercase text)

theorem hostName_mono (h : hostName ['-'] text = true) : hostName ['-', '_'] text = true := by
  simp only [hostName, Bool.and_eq_true] at h ⊢
  refine ⟨h.1, List.all_eq_true.2 fun part hpart => ?_⟩
  have hlabel := List.all_eq_true.1 h.2 part hpart
  simp only [label, Bool.and_eq_true] at hlabel ⊢
  obtain ⟨⟨⟨hsize, hchars⟩, hhead⟩, hlast⟩ := hlabel
  refine ⟨⟨⟨hsize, List.all_eq_true.2 fun c hc => ?_⟩, hhead⟩, hlast⟩
  have hchar := List.all_eq_true.1 hchars c hc
  rw [Bool.or_eq_true, decide_eq_true_eq] at hchar ⊢
  exact hchar.imp_right fun h => List.mem_cons.2 (.inl (List.mem_singleton.1 h))

/-- **What `host` accepts is read as it is.** -/
theorem parse_of_accepted (h : Connector.host text = true) : parse text = .ok (single text) := by
  unfold single
  cases hip : IpAddr.parse text with
  | some ip =>
    have hchars := (IpAddr.of_parse hip).2
    refine parse_eq_range ?_
    rw [Text.trim_eq_self fun c hc => isWhitespace_of_isAddress (hchars c hc), Network.parse_of_notMem, hip,
      Option.map_some]
    exact fun hc => (isAddress_bounds (hchars _ hc)).2.2 rfl
  | none =>
    rw [Connector.host, hip, Option.isSome_none, Bool.false_or] at h
    have hname := hostName_mono h
    obtain ⟨hchars, hlast⟩ := of_hostName hname
    obtain ⟨hnetwork, hself⟩ := plain_hostName hchars hlast
    rw [hip, Option.map_none] at hnetwork
    have hread := parse_of_host hnetwork (hself.symm ▸ hname)
    rwa [hself] at hread

/-- A range of one address has that address. -/
theorem contains_single {network : Network} {ip : IpAddr} (h : network.length = bits network.address) :
    network.contains ip = true ↔ ip.toCanonical = network.address := by
  have hmask : ∀ (w : Nat) (net ip : BitVec w), 0 < w →
      (net &&& Network.mask w 0 = ip &&& Network.mask w 0 ↔ ip = net) := by
    intro w net ip hw
    rw [Network.mask, if_pos hw, BitVec.shiftLeft_zero, BitVec.and_allOnes, BitVec.and_allOnes]
    exact eq_comm
  obtain ⟨address, length, hbounded⟩ := network
  dsimp only at h
  subst h
  unfold Network.contains
  cases address with
  | v4 net =>
    cases ip.toCanonical with
    | v4 value =>
      rw [decide_eq_true_eq, IpAddr.v4.injEq]
      exact hmask 32 net value (by decide)
    | v6 value => simp
  | v6 net =>
    cases ip.toCanonical with
    | v4 value => simp
    | v6 value =>
      rw [decide_eq_true_eq, IpAddr.v6.injEq]
      exact hmask 128 net value (by decide)

end Address

/-- A connection to a target: to its host, or to an address its host has, on its port. -/
def RequestTarget.Goes (names : Names) (reached : Reached) (target : RequestTarget) : Prop :=
  reached.port = target.port ∧
    match IpAddr.parse target.host with
    | some ip => reached.ip.toCanonical = ip.toCanonical
    | none => Text.eqIgnoreAsciiCase target.host reached.host = true ∨
        reached.ip ∈ names.resolve (Text.toAsciiLowercase target.host)

section
variable {grant : Grant} {target : RequestTarget} {names : Names} {reached : Reached}

theorem RequestTarget.device_eq (h : target.Valid) : target.device =
    some ⟨target.name, Address.single target.host, [⟨target.port, target.port⟩], []⟩ := by
  rw [RequestTarget.device, Address.parse_of_accepted h.host]
  rfl

/-- Each target is a device. -/
theorem Grant.devices_eq {grant : Grant} (h : ∀ target ∈ grant.targets, target.Valid) : grant.devices =
    grant.targets.map fun target =>
      ⟨target.name, Address.single target.host, [⟨target.port, target.port⟩], []⟩ := by
  rw [Grant.devices, ← List.filterMap_eq_map]
  exact List.filterMap_congr fun target htarget => RequestTarget.device_eq (h target htarget)

theorem RequestTarget.grants_iff (target : RequestTarget) :
    Device.grants names reached
        ⟨target.name, Address.single target.host, [⟨target.port, target.port⟩], []⟩ = true ↔
      target.Goes names reached := by
  have hport : (Option.any (fun ports : Ports => ports.contains reached.port)
      ([⟨target.port, target.port⟩] : List Ports).head?) = true ↔ reached.port = target.port := by
    simp only [List.head?_cons, Option.any_some, Ports.contains, Bool.and_eq_true, decide_eq_true_eq]
    omega
  rw [Device.grants, Bool.and_eq_true, hport, RequestTarget.Goes]
  refine and_congr_right fun _ => ?_
  unfold Address.single
  cases IpAddr.parse target.host with
  | some ip => exact Address.contains_single rfl
  | none =>
    simp only [Address.reaches, Address.covers, Bool.or_eq_true, decide_eq_true_eq,
      Text.eqIgnoreAsciiCase, Text.toAsciiLowercase_toAsciiLowercase]

/-- What an approval lets through, besides what is let through without it. -/
theorem permitted_approved {file : AccessFile} {list : Inventory} {request : CustomerRequest}
    {ends now now' : OffsetDateTime} {who : Changer} (h : ∀ target ∈ request.targets, target.Valid) :
    permitted names ⟨approved file request ends who now, list⟩ reached now' = true ↔
      permitted names ⟨{ file with requests := file.requests.erase request.id }, list⟩ reached now' = true ∨
        now'.nanos < (seconds ends).nanos ∧ ∃ target ∈ request.targets, target.Goes names reached := by
  have hother : ∀ scope, scope ≠ .request request.id →
      ((Lets names ⟨approved file request ends who now, list⟩ reached scope ↔
        Lets names ⟨{ file with requests := file.requests.erase request.id }, list⟩ reached scope) ∧
      (approved file request ends who now).get scope =
        { file with requests := file.requests.erase request.id : AccessFile }.get scope) := by
    intro scope hne
    cases scope with
    | request id =>
      have hid : id ≠ request.id := fun heq => hne (by rw [heq])
      have hlookup : (approved file request ends who now).requests.lookup id =
          (file.requests.erase request.id).lookup id := by
        rw [approved, AList.lookup_insert_ne hid, AList.lookup_erase_ne hid]
      simp only [Lets, AccessFile.get, hlookup, and_self]
    | _ => exact ⟨Iff.rfl, rfl⟩
  have hgrant : (approved file request ends who now).requests.lookup request.id =
      some ⟨request.requester, request.reason, request.targets,
        ⟨.opened (some (seconds ends)), some who, some (seconds now)⟩⟩ := AList.lookup_insert _
  have hlets : Lets names ⟨approved file request ends who now, list⟩ reached (.request request.id) ↔
      ∃ target ∈ request.targets, target.Goes names reached := by
    have hdevices : Grant.devices ⟨request.requester, request.reason, request.targets,
        ⟨.opened (some (seconds ends)), some who, some (seconds now)⟩⟩ = _ := Grant.devices_eq h
    constructor
    · rintro ⟨grant, hlookup, device, hdevice, hgrants⟩
      cases hgrant.symm.trans hlookup
      rw [hdevices] at hdevice
      obtain ⟨target, htarget, rfl⟩ := List.mem_map.1 hdevice
      exact ⟨target, htarget, target.grants_iff.1 hgrants⟩
    · rintro ⟨target, htarget, hgoes⟩
      refine ⟨_, hgrant, _, ?_, target.grants_iff.2 hgoes⟩
      rw [hdevices]
      exact List.mem_map_of_mem htarget
  have hopen : ((approved file request ends who now).get (.request request.id)).access.isOpen now' = true ↔
      now'.nanos < (seconds ends).nanos := by
    rw [AccessFile.get, hgrant, Option.map_some, Option.getD_some, Access.isOpen, decide_eq_true_eq]
  rw [permitted_iff, permitted_iff]
  constructor
  · rintro ⟨scope, hscope, hnow⟩
    by_cases heq : scope = .request request.id
    · subst heq
      exact .inr ⟨hopen.1 hnow, hlets.1 hscope⟩
    · obtain ⟨hsame, hget⟩ := hother scope heq
      exact .inl ⟨scope, hsame.1 hscope, hget ▸ hnow⟩
  · rintro (⟨scope, hscope, hnow⟩ | ⟨hnow, htarget⟩)
    · have hne : scope ≠ .request request.id := by
        rintro rfl
        obtain ⟨grant, hlookup, -⟩ := hscope
        rw [AList.lookup_erase] at hlookup
        cases hlookup
      obtain ⟨hsame, hget⟩ := hother scope hne
      exact ⟨scope, hsame.2 hscope, hget ▸ hnow⟩
    · exact ⟨_, hlets.2 htarget, hopen.2 hnow⟩

end

/-- **Approving opens exactly what was shown.** Of each request that `parse` accepts, an approval has one
device per target, in their order, with the target's one port and its host as the one address or host
name it is. What it lets through, until it ends, are the connections to the host of a target, or to an
address that its host has, on the target's port. -/
theorem approval_opens_targets (read : Bytes → Except String Pending) (bytes : Bytes)
    (requests : List CustomerRequest) (h : parse read bytes = .ok requests) :
    ∀ request ∈ requests, ∀ (file : AccessFile) (ends : OffsetDateTime) (who : Changer) (now : OffsetDateTime),
      (∃ grant, (approved file request ends who now).requests.lookup request.id = some grant ∧
        List.Forall₂ (fun (target : RequestTarget) (device : Device) =>
          device.name = target.name ∧ device.ports = [⟨target.port, target.port⟩] ∧
            ((∃ ip hbounded, IpAddr.parse target.host = some ip ∧
                device.address = .range ⟨ip.toCanonical, bits ip.toCanonical, hbounded⟩) ∨
              (IpAddr.parse target.host = none ∧
                device.address = .host (Text.toAsciiLowercase target.host))))
          request.targets grant.devices) ∧
      ∀ (names : Names) (list : Inventory) (reached : Reached) (now' : OffsetDateTime),
        permitted names ⟨approved file request ends who now, list⟩ reached now' = true ↔
          permitted names ⟨{ file with requests := file.requests.erase request.id }, list⟩ reached now' = true ∨
            now'.nanos < (seconds ends).nanos ∧ ∃ target ∈ request.targets, target.Goes names reached := by
  obtain ⟨-, -, -, hvalid, -⟩ := parse_eq_ok.1 h
  intro request hrequest file ends who now
  have htargets := (hvalid request hrequest).target
  refine ⟨⟨_, AList.lookup_insert _, ?_⟩, fun names list reached now' => permitted_approved htargets⟩
  rw [Grant.devices_eq htargets, List.forall₂_map_right_iff, List.forall₂_same]
  intro target _
  refine ⟨rfl, rfl, ?_⟩
  unfold Address.single
  cases IpAddr.parse target.host with
  | some ip => exact .inl ⟨ip, le_rfl, rfl, rfl⟩
  | none => exact .inr ⟨rfl, rfl⟩

/-- A database at an address, and a web server under a name. -/
theorem approval_opens_targets_sql :
    ∃ (request : CustomerRequest) (grant : Grant),
      (approved {} request ⟨3600000000000, 0⟩ (.web "kim") ⟨0, 0⟩).requests.lookup request.id = some grant ∧
        grant.devices.length = 2 ∧
        permitted ⟨fun _ => [], fun _ => none⟩ ⟨approved {} request ⟨3600000000000, 0⟩ (.web "kim") ⟨0, 0⟩, {}⟩
          ⟨"web.lab", .v4 0x0a000006, 443⟩ ⟨1, 0⟩ = true := by
  let request : CustomerRequest :=
    ⟨1, "alex", "patches", 60, [⟨"sql", "10.0.0.5", 1433⟩, ⟨"web", "web.lab", 443⟩]⟩
  let read : Bytes → Except String Pending := fun bytes =>
    if bytes = toVec ⟨[request]⟩ then .ok ⟨[request]⟩ else .error "expected value"
  have hparse : parse read (toVec ⟨[request]⟩) = .ok [request] := by decide +kernel
  obtain ⟨⟨grant, hgrant, hdevices⟩, hpermitted⟩ :=
    approval_opens_targets read (toVec ⟨[request]⟩) [request] hparse request List.mem_cons_self {}
      ⟨3600000000000, 0⟩ (.web "kim") ⟨0, 0⟩
  refine ⟨request, grant, hgrant, hdevices.length_eq.symm, (hpermitted _ _ _ _).2 (.inr ⟨by decide, ?_⟩)⟩
  have hname : IpAddr.parse "web.lab" = none := by decide +kernel
  refine ⟨⟨"web", "web.lab", 443⟩, by decide, rfl, ?_⟩
  dsimp only
  rw [hname]
  exact .inl (by decide)

end Connector
