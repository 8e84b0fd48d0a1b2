import Mathlib.Data.Int.ConditionallyCompleteOrder
import Mathlib.Order.ConditionallyCompleteLattice.Basic
import Mathlib.Order.WithBot
import RemoteHub.Connector.Proof.Agent
import RemoteHub.Connector.Streams

/-!
# The decision and its end

An end of access is an instant (`End.instant`): before all times where nothing is open, after all of
them without an end. `later` is the maximum of two (`instant_later`), so `open_until` gives the latest
end of the open scopes that let a connection through (`closesAt_le_openUntil`), and the connection is
permitted before that instant and not from then on (`permitted_iff_lt`).

What is open at one time is open at another one before `next_end` (`isOpen_steady`), and so is all that is
decided by it.
-/

namespace Connector

open Net

/-- An end as a point on the line of times. -/
def End.instant : End → WithBot (WithTop Int)
  | none => ⊥
  | some none => ((⊤ : WithTop Int) : WithBot (WithTop Int))
  | some (some at') => ((at'.nanos : WithTop Int) : WithBot (WithTop Int))

/-- A time on that line. -/
def OffsetDateTime.instant (at' : OffsetDateTime) : WithBot (WithTop Int) := End.instant (some (some at'))

section
variable {α : Type} {x y : End} {f : α → End} {l : List α} {now ends : OffsetDateTime}

theorem instant_le_instant : now.instant ≤ ends.instant ↔ now.nanos ≤ ends.nanos := by
  simp [OffsetDateTime.instant, End.instant]

theorem instant_lt_end {at' : Option OffsetDateTime} :
    now.instant < End.instant (some at') ↔ ∀ ends ∈ at', now.nanos < ends.nanos := by
  cases at' with
  | none => exact iff_of_true (WithBot.coe_lt_coe.2 (WithTop.coe_lt_top _)) (fun ends hends => by cases hends)
  | some ends => simp [OffsetDateTime.instant, End.instant]

theorem instant_lt_none : ¬now.instant < End.instant none := not_lt_bot

/-- **`later` is the later of two ends.** -/
theorem instant_later : (later x y).instant = max x.instant y.instant := by
  rcases x with _ | _ | x
  · exact (max_bot_left _).symm
  · have htop : End.instant y ≤ End.instant (some none) := by
      rcases y with _ | _ | y
      · exact bot_le
      · exact le_rfl
      · exact WithBot.coe_le_coe.2 le_top
    rw [max_eq_left htop]
    rcases y with _ | _ | y <;> rfl
  · rcases y with _ | _ | y
    · exact (max_bot_right _).symm
    · exact (max_eq_right (WithBot.coe_le_coe.2 le_top)).symm
    · simp only [later]
      split
      · rename_i hle
        exact (max_eq_right (instant_le_instant.2 hle)).symm
      · rename_i hle
        exact (max_eq_left (instant_le_instant.2 (not_le.1 hle).le)).symm

theorem le_foldl_later :
    x.instant ≤ (l.foldl (fun ends a => later ends (f a)) x).instant ∧
      ∀ a ∈ l, (f a).instant ≤ (l.foldl (fun ends a => later ends (f a)) x).instant := by
  induction l generalizing x with
  | nil => exact ⟨le_rfl, fun a ha => by cases ha⟩
  | cons a l ih =>
    obtain ⟨hfirst, hrest⟩ := ih (x := later x (f a))
    rw [List.foldl_cons]
    rw [instant_later] at hfirst
    refine ⟨(le_max_left _ _).trans hfirst, fun b hb => ?_⟩
    rcases List.mem_cons.1 hb with rfl | hb
    · exact (le_max_right _ _).trans hfirst
    · exact hrest b hb

end

/-! ## The latest end -/

section
variable {names : Names} {s : Snapshot} {reached : Reached} {now now' : OffsetDateTime}
  {scope : Scope} {device : Device}

/-- A device's scopes that are open end no later than it. -/
theorem closesAt_le_deviceUntil (hscope : scope ∈ Snapshot.scopes device)
    (hopen : (s.access.get scope).access.isOpen now = true) :
    End.instant (some (s.access.get scope).access.closesAt) ≤ (s.deviceUntil now device).instant := by
  refine (le_foldl_later (f := id)).2 _ ?_
  refine List.mem_map.2 ⟨_, List.mem_filter.2 ⟨List.mem_map_of_mem hscope, hopen⟩, rfl⟩

/-- What `open_until` has found before the requests, and the end of each request that lets the
connection through. -/
theorem le_foldl_requests (names : Names) (reached : Reached) (requests : List (Model.Uuid × Grant))
    (ends : End) :
    ends.instant ≤ (requests.foldl (fun ends request =>
        (request.2.devices.filter (·.grants names reached)).foldl
          (fun ends _ => later ends (some request.2.stored.access.closesAt)) ends) ends).instant ∧
      ∀ request ∈ requests, (∃ d ∈ request.2.devices, d.grants names reached = true) →
        End.instant (some request.2.stored.access.closesAt) ≤
          (requests.foldl (fun ends request =>
            (request.2.devices.filter (·.grants names reached)).foldl
              (fun ends _ => later ends (some request.2.stored.access.closesAt)) ends) ends).instant := by
  induction requests generalizing ends with
  | nil => exact ⟨le_rfl, fun request hrequest => by cases hrequest⟩
  | cons request requests ih =>
    rw [List.foldl_cons]
    obtain ⟨hfirst, hrest⟩ := ih ((request.2.devices.filter (·.grants names reached)).foldl
      (fun ends _ => later ends (some request.2.stored.access.closesAt)) ends)
    obtain ⟨hbefore, hdevices⟩ := le_foldl_later (l := request.2.devices.filter (·.grants names reached))
      (f := fun _ => some request.2.stored.access.closesAt) (x := ends)
    refine ⟨hbefore.trans hfirst, fun found hfound hlets => ?_⟩
    rcases List.mem_cons.1 hfound with rfl | hfound
    · obtain ⟨d, hd, hgrants⟩ := hlets
      exact (hdevices d (List.mem_filter.2 ⟨hd, hgrants⟩)).trans hfirst
    · exact hrest found hfound hlets

/-- No open scope that lets the connection through ends later than `open_until` says. -/
theorem closesAt_le_openUntil (hlets : Lets names s reached scope)
    (hopen : (s.access.get scope).access.isOpen now = true) :
    End.instant (some (s.access.get scope).access.closesAt) ≤ (openUntil names s reached now).instant := by
  obtain ⟨hbefore, hrequests⟩ := le_foldl_requests names reached (s.openRequests now)
    (((s.openDevices now).filter (·.lets names reached)).foldl
      (fun ends device => later ends (s.deviceUntil now device)) (s.networkUntil now))
  obtain ⟨hnetwork, hdevices⟩ := le_foldl_later (x := s.networkUntil now)
    (f := fun device => s.deviceUntil now device) (l := (s.openDevices now).filter (·.lets names reached))
  rcases exists_mem_scopes hlets with rfl | ⟨d, hd, hlets, hscope⟩ | ⟨id, grant, rfl, hgrant, hlets⟩
  · refine le_trans ?_ (hnetwork.trans hbefore)
    have hnetopen : s.access.network.access.isOpen now = true := hopen
    rw [Snapshot.networkUntil, if_pos hnetopen]
    exact le_rfl
  · have hmem : d ∈ (s.openDevices now).filter (·.lets names reached) :=
      List.mem_filter.2 ⟨Snapshot.mem_openDevices.2 ⟨hd, scope, hscope, hopen⟩, hlets⟩
    exact (closesAt_le_deviceUntil hscope hopen).trans ((hdevices d hmem).trans hbefore)
  · rw [get_request hgrant] at hopen ⊢
    exact hrequests (id, grant) (Snapshot.mem_openRequests.2 ⟨hgrant, hopen⟩) hlets

/-- **Permitted before the end, and not from then on.** -/
theorem permitted_iff_lt (hclock : now.nanos ≤ now'.nanos) :
    permitted names s reached now' = true ↔ now'.instant < (openUntil names s reached now).instant := by
  constructor
  · intro h
    obtain ⟨scope, hlets, hopen⟩ := permitted_iff.1 h
    refine lt_of_lt_of_le ?_ (closesAt_le_openUntil hlets (Access.isOpen_earlier hclock hopen))
    rw [instant_lt_end]
    intro ends hends
    cases haccess : (s.access.get scope).access with
    | closed =>
      rw [haccess] at hopen
      cases hopen
    | opened at' =>
      rw [haccess] at hopen hends
      cases hends
      exact of_decide_eq_true hopen
  · intro h
    cases hends : openUntil names s reached now with
    | none =>
      rw [hends] at h
      exact absurd h instant_lt_none
    | some at' =>
      rw [hends, instant_lt_end] at h
      exact permitted_before hends h

/-- **The decision of the connector.** `open_until` finds nothing exactly if the network is not open, no
listed device that covers the connection is open by itself or through a group, and no open request has
a target that does. What it finds is the end of something open that lets the connection through, and
nothing that does ends later. The connection is permitted at a later time exactly if that is before the
end. -/
theorem openUntil_decides (names : Names) (s : Snapshot) (reached : Reached) (now : OffsetDateTime) :
    (openUntil names s reached now = none ↔
      s.networkOpen now = false ∧
      (∀ device ∈ s.inventory.devices, device.lets names reached = true →
        ∀ scope ∈ Snapshot.scopes device, (s.access.get scope).access.isOpen now = false) ∧
      ∀ id grant, s.access.requests.lookup id = some grant → grant.stored.access.isOpen now = true →
        ∀ device ∈ grant.devices, device.grants names reached = false) ∧
    (∀ ends, openUntil names s reached now = some ends →
      (∃ scope, Lets names s reached scope ∧ (s.access.get scope).access.isOpen now = true ∧
        (s.access.get scope).access.closesAt = ends) ∧
      ∀ scope, Lets names s reached scope → (s.access.get scope).access.isOpen now = true →
        End.instant (some (s.access.get scope).access.closesAt) ≤ End.instant (some ends)) ∧
    ∀ now', now.nanos ≤ now'.nanos →
      (permitted names s reached now' = true ↔
        ∃ at', openUntil names s reached now = some at' ∧ ∀ ends ∈ at', now'.nanos < ends.nanos) := by
  refine ⟨?_, fun ends hends => ⟨openUntil_eq_some hends, fun scope hlets hopen => ?_⟩,
    fun now' hclock => ?_⟩
  · have hnone : openUntil names s reached now = none ↔ ¬permitted names s reached now = true := by
      rw [permitted, Option.isSome_iff_ne_none, not_not]
    rw [hnone, permitted_iff]
    constructor
    · intro hclosed
      have hshut : ∀ scope, Lets names s reached scope → (s.access.get scope).access.isOpen now = false :=
        fun scope hlets => Bool.eq_false_iff.2 fun hopen => hclosed ⟨scope, hlets, hopen⟩
      refine ⟨hshut .network trivial, fun device hdevice hlets scope hscope =>
        hshut scope (lets_of_mem_scopes hdevice hlets hscope), fun id grant hgrant hopen device hdevice => ?_⟩
      rw [Bool.eq_false_iff]
      intro hgrants
      have hclosed := hshut (.request id) ⟨grant, hgrant, device, hdevice, hgrants⟩
      rw [get_request hgrant, hopen] at hclosed
      cases hclosed
    · rintro ⟨hnetwork, hdevices, hrequests⟩ ⟨scope, hlets, hopen⟩
      rcases exists_mem_scopes hlets with rfl | ⟨d, hd, hlets, hscope⟩ | ⟨id, grant, rfl, hgrant, d, hd, hlets⟩
      · have hnetopen : s.networkOpen now = true := hopen
        rw [hnetwork] at hnetopen
        cases hnetopen
      · rw [hdevices d hd hlets scope hscope] at hopen
        cases hopen
      · rw [get_request hgrant] at hopen
        rw [hrequests id grant hgrant hopen d hd] at hlets
        cases hlets
  · have hle := closesAt_le_openUntil hlets hopen
    rw [hends] at hle
    exact hle
  · rw [permitted_iff_lt hclock]
    cases hends : openUntil names s reached now with
    | none => exact iff_of_false instant_lt_none fun ⟨at', hat, _⟩ => by cases hat
    | some at' =>
      rw [instant_lt_end]
      simp

/-- A device at one address, open for its SSH until the second second. -/
def lab : Snapshot where
  access := { devices := (∅ : HashMap String Stored).insert "lab" { access := .opened (some ⟨2000000000, 0⟩) } }
  inventory := { devices := [⟨"lab", .range ⟨.v4 0x0a000005, 32, by decide⟩, [⟨22, 22⟩], []⟩] }

theorem openUntil_decides_lab :
    permitted ⟨fun _ => [], fun _ => none⟩ lab ⟨"10.0.0.5", .v4 0x0a000005, 22⟩ ⟨1999999999, 0⟩ = true :=
  ((openUntil_decides ⟨fun _ => [], fun _ => none⟩ lab ⟨"10.0.0.5", .v4 0x0a000005, 22⟩ ⟨0, 0⟩).2.2
    ⟨1999999999, 0⟩ (by decide)).2 ⟨some ⟨2000000000, 0⟩, by decide, by decide⟩

/-! ## Until the next end -/

/-- What is open stays so until `next_end`, and nothing opens. -/
theorem isOpen_steady (hclock : now.nanos ≤ now'.nanos)
    (hbefore : ∀ ends ∈ s.nextEnd now, now'.nanos < ends.nanos) :
    (s.access.get scope).access.isOpen now' = (s.access.get scope).access.isOpen now :=
  Bool.eq_iff_iff.2 ⟨Access.isOpen_earlier hclock, fun hopen => Snapshot.isOpen_until_nextEnd hopen hbefore⟩

theorem permitted_steady (hclock : now.nanos ≤ now'.nanos)
    (hbefore : ∀ ends ∈ s.nextEnd now, now'.nanos < ends.nanos) :
    permitted names s reached now' = permitted names s reached now :=
  Bool.eq_iff_iff.2 ⟨permitted_earlier hclock, fun h => permitted_until_nextEnd h hbefore⟩

/-- Something is open: the network, a device of the list, or a request. -/
theorem anyOpen_iff :
    s.anyOpen now = true ↔ (s.access.get .network).access.isOpen now = true ∨
      (∃ device ∈ s.inventory.devices, ∃ scope ∈ Snapshot.scopes device,
        (s.access.get scope).access.isOpen now = true) ∨
      ∃ id, s.access.requests.lookup id ≠ none ∧ (s.access.get (.request id)).access.isOpen now = true := by
  have hdevices : (s.openDevices now).isEmpty = false ↔ ∃ device ∈ s.inventory.devices,
      ∃ scope ∈ Snapshot.scopes device, (s.access.get scope).access.isOpen now = true := by
    rw [List.isEmpty_eq_false_iff_exists_mem]
    exact exists_congr fun device => Snapshot.mem_openDevices
  have hrequests : (s.openRequests now).isEmpty = false ↔ ∃ id, s.access.requests.lookup id ≠ none ∧
      (s.access.get (.request id)).access.isOpen now = true := by
    rw [List.isEmpty_eq_false_iff_exists_mem]
    constructor
    · rintro ⟨⟨id, grant⟩, hmem⟩
      obtain ⟨hgrant, hopen⟩ := Snapshot.mem_openRequests.1 hmem
      refine ⟨id, by rw [hgrant]; exact Option.some_ne_none grant, ?_⟩
      rw [get_request hgrant]
      exact hopen
    · rintro ⟨id, hne, hopen⟩
      obtain ⟨grant, hgrant⟩ := Option.ne_none_iff_exists'.1 hne
      rw [get_request hgrant] at hopen
      exact ⟨(id, grant), Snapshot.mem_openRequests.2 ⟨hgrant, hopen⟩⟩
  rw [Snapshot.anyOpen, Bool.or_eq_true, Bool.or_eq_true, Bool.not_eq_true', Bool.not_eq_true', hdevices,
    hrequests, or_assoc]
  rfl

theorem anyOpen_steady (hclock : now.nanos ≤ now'.nanos)
    (hbefore : ∀ ends ∈ s.nextEnd now, now'.nanos < ends.nanos) : s.anyOpen now' = s.anyOpen now := by
  rw [Bool.eq_iff_iff, anyOpen_iff, anyOpen_iff]
  simp only [isOpen_steady hclock hbefore]

/-- `ran_out` has the scopes whose end has passed. -/
theorem mem_ranOut :
    scope ∈ s.ranOut now ↔
      ∃ ends, (s.access.get scope).access.closesAt = some ends ∧ ends.nanos ≤ now.nanos := by
  constructor
  · intro h
    obtain ⟨⟨found, stored⟩, he, rfl⟩ := List.mem_map.1 h
    obtain ⟨he, hout⟩ := List.mem_filter.1 he
    rw [Bool.and_eq_true, Bool.not_eq_true'] at hout
    obtain ⟨hsome, hclosed⟩ := hout
    rw [AccessFile.get_of_mem_all he]
    rcases haccess : stored.access with _ | _ | ends
    · rw [haccess] at hsome
      cases hsome
    · rw [haccess] at hsome
      cases hsome
    · rw [haccess] at hclosed
      exact ⟨ends, rfl, not_lt.1 (of_decide_eq_false hclosed)⟩
  · rintro ⟨ends, hends, hpassed⟩
    have hne : s.access.get scope ≠ {} := by
      intro heq
      rw [heq] at hends
      cases hends
    have hclosed : (s.access.get scope).access.isOpen now = false := by
      rcases haccess : (s.access.get scope).access with _ | _ | ends'
      · rfl
      · rw [haccess] at hends
        cases hends
      · rw [haccess] at hends
        cases hends
        exact decide_eq_false (not_lt.2 hpassed)
    refine List.mem_map.2 ⟨_, List.mem_filter.2 ⟨AccessFile.mem_all_of_ne hne, ?_⟩, rfl⟩
    rw [Bool.and_eq_true, Bool.not_eq_true', hends]
    exact ⟨rfl, hclosed⟩

/-- **No closing is slept through.** Between `now` and `next_end` nothing that is decided changes; so
`while_open`, waiting since `now`, goes on as soon as something it decided by has closed. `ran_out` has
exactly the scopes that are stored as open until an end that has passed. -/
theorem nothing_slept_through (names : Names) (s : Snapshot) (now : OffsetDateTime) :
    (∀ now', now.nanos ≤ now'.nanos → (∀ ends ∈ s.nextEnd now, now'.nanos < ends.nanos) →
      (∀ reached, permitted names s reached now' = permitted names s reached now) ∧
        s.anyOpen now' = s.anyOpen now) ∧
    (∀ (sh : Streams.Shared) (turn : Streams.Turn), sh.sweep = .waits turn now → turn.snapshot = s →
      now.nanos ≤ sh.clock.nanos →
      ((∃ reached, permitted names s reached sh.clock ≠ permitted names s reached now) ∨
        s.anyOpen sh.clock ≠ s.anyOpen now) →
      sh.supervise names = some { sh with sweep := .whileOpen turn.generation }) ∧
    ∀ scope, scope ∈ s.ranOut now ↔ (s.access.get scope).access ≠ .closed ∧
      ∃ ends, (s.access.get scope).access.closesAt = some ends ∧ ends.nanos ≤ now.nanos := by
  refine ⟨fun now' hclock hbefore =>
    ⟨fun reached => permitted_steady hclock hbefore, anyOpen_steady hclock hbefore⟩, ?_, fun scope => ?_⟩
  · rintro sh turn hwaits rfl hclock hchanged
    have hpassed : ∃ ends ∈ turn.snapshot.nextEnd now, ends.nanos ≤ sh.clock.nanos := by
      by_contra hnone
      have hbefore : ∀ ends ∈ turn.snapshot.nextEnd now, sh.clock.nanos < ends.nanos :=
        fun ends hends => not_le.1 fun hle => hnone ⟨ends, hends, hle⟩
      rcases hchanged with ⟨reached, hne⟩ | hne
      · exact hne (permitted_steady hclock hbefore)
      · exact hne (anyOpen_steady hclock hbefore)
    simp only [Streams.Shared.supervise, hwaits]
    exact if_pos (.inr hpassed)
  · rw [mem_ranOut, iff_and_self]
    rintro ⟨ends, hends, -⟩ hclosed
    rw [hclosed] at hends
    cases hends

/-- `while_open`, which has waited since the beginning when `lab` closes. -/
def labCloses : Streams.Shared where
  clock := ⟨2000000000, 0⟩
  snapshot := lab
  sweep := .waits ⟨1, 0, lab⟩ ⟨0, 0⟩

theorem nothing_slept_through_lab :
    lab.anyOpen ⟨1999999999, 0⟩ = lab.anyOpen ⟨0, 0⟩ ∧
    labCloses.supervise ⟨fun _ => [], fun _ => none⟩ = some { labCloses with sweep := .whileOpen 1 } ∧
    Scope.device "lab" ∈ lab.ranOut ⟨2000000000, 0⟩ :=
  ⟨((nothing_slept_through ⟨fun _ => [], fun _ => none⟩ lab ⟨0, 0⟩).1 ⟨1999999999, 0⟩ (by decide)
      (by decide)).2,
    (nothing_slept_through ⟨fun _ => [], fun _ => none⟩ lab ⟨0, 0⟩).2.1 labCloses ⟨1, 0, lab⟩ rfl rfl (by decide)
      (.inl ⟨⟨"10.0.0.5", .v4 0x0a000005, 22⟩, by decide⟩),
    ((nothing_slept_through ⟨fun _ => [], fun _ => none⟩ lab ⟨2000000000, 0⟩).2.2 (.device "lab")).2
      ⟨by decide, ⟨2000000000, 0⟩, by decide, by decide⟩⟩

end

end Connector
