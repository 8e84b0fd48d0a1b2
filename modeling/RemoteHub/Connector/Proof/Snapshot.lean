import RemoteHub.Connector.Access

/-!
# What is open, and until when

What is open stays so until its end and what has run out does not open again, so the scopes that are
open change only at `next_end` (`Snapshot.isOpen_until_nextEnd`). The end that `device_until` finds is
that of an open scope of the device.
-/

namespace Connector

/-! ## Ends -/

section
variable {α : Type} {x y : End} {f : α → End} {l : List α} {at' : Option OffsetDateTime}

theorem later_isSome : (later x y).isSome = true ↔ x.isSome = true ∨ y.isSome = true := by
  rcases x with _ | _ | x
  · simp [later]
  · rcases y with _ | _ | y <;> simp [later]
  · rcases y with _ | _ | y <;> simp [later]

theorem later_eq_some (h : later x y = some at') : x = some at' ∨ y = some at' := by
  rcases x with _ | _ | x
  · exact .inr h
  · left
    rcases y with _ | _ | y <;> exact h
  · rcases y with _ | _ | y
    · exact .inl h
    · exact .inr h
    · simp only [later] at h
      split at h
      · exact .inr h
      · exact .inl h

theorem foldl_later_isSome :
    (l.foldl (fun ends a => later ends (f a)) x).isSome = true ↔
      x.isSome = true ∨ ∃ a ∈ l, (f a).isSome = true := by
  induction l generalizing x with
  | nil => simp
  | cons a l ih =>
    rw [List.foldl_cons, ih, later_isSome]
    simp [or_assoc]

theorem foldl_later_eq_some (h : l.foldl (fun ends a => later ends (f a)) x = some at') :
    x = some at' ∨ ∃ a ∈ l, f a = some at' := by
  induction l generalizing x with
  | nil => exact .inl h
  | cons a l ih =>
    rcases ih h with h | ⟨b, hb, h⟩
    · rcases later_eq_some h with h | h
      · exact .inl h
      · exact .inr ⟨a, List.mem_cons_self, h⟩
    · exact .inr ⟨b, List.mem_cons_of_mem a hb, h⟩

end

/-! ## Snapshots -/

namespace Access

variable {a : Access} {now now' : OffsetDateTime}

/-- What has run out does not open again. -/
theorem isOpen_later (hclock : now.nanos ≤ now'.nanos) (h : a.isOpen now = false) :
    a.isOpen now' = false := by
  cases a with
  | closed => rfl
  | opened ends =>
    cases ends with
    | none => cases h
    | some ends =>
      simp only [isOpen, decide_eq_false_iff_not] at h ⊢
      omega

/-- What is open has been open since. -/
theorem isOpen_earlier (hclock : now.nanos ≤ now'.nanos) (h : a.isOpen now' = true) :
    a.isOpen now = true := by
  by_contra hclosed
  rw [Bool.not_eq_true] at hclosed
  rw [isOpen_later hclock hclosed] at h
  cases h

/-- What is open stays open until its end. -/
theorem isOpen_until (h : a.isOpen now = true)
    (hends : ∀ ends, a.closesAt = some ends → now'.nanos < ends.nanos) : a.isOpen now' = true := by
  rcases a with _ | _ | ends
  · cases h
  · rfl
  · exact decide_eq_true (hends ends rfl)

end Access

namespace AccessFile

variable {file : AccessFile} {stored : Stored} {scope : Scope}

theorem mem_inOrder {κ ν : Type} [DecidableEq κ] [LE κ] [DecidableLE κ] {m : HashMap κ ν}
    {e : κ × ν} : e ∈ inOrder m ↔ m.lookup e.1 = some e.2 := by
  rw [inOrder, List.mem_insertionSort, List.mem_map, HashMap.lookup_eq_some]
  constructor
  · rintro ⟨e', he, rfl⟩
    exact he
  · intro he
    exact ⟨_, he, rfl⟩

/-- `all` has each scope with what `get` gives. -/
theorem get_of_mem_all (h : (scope, stored) ∈ file.all) : file.get scope = stored := by
  rw [all, List.mem_cons, List.mem_append, List.mem_append] at h
  rcases h with h | (h | h) | h
  · cases h
    rfl
  · obtain ⟨e, he, heq⟩ := List.mem_map.1 h
    cases heq
    rw [get, mem_inOrder.1 he, Option.getD_some]
  · obtain ⟨e, he, heq⟩ := List.mem_map.1 h
    cases heq
    rw [get, mem_inOrder.1 he, Option.getD_some]
  · obtain ⟨e, he, heq⟩ := List.mem_map.1 h
    cases heq
    rw [get, mem_inOrder.1 he, Option.map_some, Option.getD_some]

/-- What is stored of a scope is in `all`. -/
theorem mem_all_of_ne (h : file.get scope ≠ {}) : (scope, file.get scope) ∈ file.all := by
  rw [all, List.mem_cons, List.mem_append, List.mem_append]
  cases scope with
  | network => exact .inl rfl
  | device name =>
    rw [get] at h ⊢
    cases hfound : file.devices.lookup name with
    | none =>
      rw [hfound] at h
      exact absurd rfl h
    | some stored =>
      exact .inr (.inl (.inl (List.mem_map.2 ⟨(name, stored), mem_inOrder.2 hfound, rfl⟩)))
  | group name =>
    rw [get] at h ⊢
    cases hfound : file.groups.lookup name with
    | none =>
      rw [hfound] at h
      exact absurd rfl h
    | some stored =>
      exact .inr (.inl (.inr (List.mem_map.2 ⟨(name, stored), mem_inOrder.2 hfound, rfl⟩)))
  | request id =>
    rw [get] at h ⊢
    cases hfound : file.requests.lookup id with
    | none =>
      rw [hfound] at h
      exact absurd rfl h
    | some grant =>
      exact .inr (.inr (List.mem_map.2 ⟨(id, grant), mem_inOrder.2 hfound, rfl⟩))

end AccessFile

namespace Snapshot

variable {s : Snapshot} {now now' : OffsetDateTime} {scope : Scope} {device : Device}
  {at' : Option OffsetDateTime}

theorem foldl_earliest (first : OffsetDateTime) (rest : List OffsetDateTime) :
    ∀ ends ∈ first :: rest,
      (rest.foldl (fun least at' => if at'.nanos < least.nanos then at' else least) first).nanos ≤
        ends.nanos := by
  induction rest generalizing first with
  | nil =>
    intro ends hends
    rw [List.mem_singleton.1 hends]
    exact le_rfl
  | cons next rest ih =>
    intro ends hends
    rw [List.foldl_cons]
    split
    · rename_i hnext
      rcases List.mem_cons.1 hends with rfl | hends
      · exact (ih next next List.mem_cons_self).trans hnext.le
      · exact ih next ends hends
    · rename_i hnext
      rcases List.mem_cons.1 hends with rfl | hends
      · exact ih ends ends List.mem_cons_self
      · rcases List.mem_cons.1 hends with rfl | hends
        · exact (ih first first List.mem_cons_self).trans (not_lt.1 hnext)
        · exact ih first ends (List.mem_cons_of_mem first hends)

theorem earliest_le {ends : OffsetDateTime} {all : List OffsetDateTime} (h : ends ∈ all) :
    ∃ least, earliest all = some least ∧ least.nanos ≤ ends.nanos := by
  cases all with
  | nil => cases h
  | cons first rest => exact ⟨_, rfl, foldl_earliest first rest ends h⟩

/-- No open scope closes before `next_end`. -/
theorem nextEnd_le {ends : OffsetDateTime} (hopen : (s.access.get scope).access.isOpen now = true)
    (hends : (s.access.get scope).access.closesAt = some ends) :
    ∃ least, s.nextEnd now = some least ∧ least.nanos ≤ ends.nanos := by
  have hne : s.access.get scope ≠ {} := by
    intro heq
    rw [heq] at hopen
    cases hopen
  refine earliest_le (List.mem_filterMap.2 ⟨_, List.mem_filter.2 ⟨AccessFile.mem_all_of_ne hne, hopen⟩, ?_⟩)
  exact hends

/-- An open scope is open until `next_end`. -/
theorem isOpen_until_nextEnd (hopen : (s.access.get scope).access.isOpen now = true)
    (hbefore : ∀ ends ∈ s.nextEnd now, now'.nanos < ends.nanos) :
    (s.access.get scope).access.isOpen now' = true := by
  refine Access.isOpen_until hopen fun ends hends => ?_
  obtain ⟨least, hleast, hle⟩ := nextEnd_le hopen hends
  exact (hbefore least hleast).trans_le hle

/-- A device is open while one of its scopes is. -/
theorem deviceUntil_isSome :
    (s.deviceUntil now device).isSome = true ↔
      ∃ scope ∈ scopes device, (s.access.get scope).access.isOpen now = true := by
  unfold deviceUntil
  refine (foldl_later_isSome (f := id)).trans ?_
  simp

/-- It ends with one of them. -/
theorem deviceUntil_eq_some (h : s.deviceUntil now device = some at') :
    ∃ scope ∈ scopes device, (s.access.get scope).access.isOpen now = true ∧
      (s.access.get scope).access.closesAt = at' := by
  rcases foldl_later_eq_some (f := id) h with h | ⟨ends, hends, h⟩
  · cases h
  · obtain ⟨access, haccess, rfl⟩ := List.mem_map.1 hends
    obtain ⟨hmem, hopen⟩ := List.mem_filter.1 haccess
    obtain ⟨scope, hscope, rfl⟩ := List.mem_map.1 hmem
    exact ⟨scope, hscope, hopen, Option.some.inj h⟩

theorem mem_openDevices :
    device ∈ s.openDevices now ↔ device ∈ s.inventory.devices ∧
      ∃ scope ∈ scopes device, (s.access.get scope).access.isOpen now = true := by
  rw [openDevices, List.mem_filter, deviceUntil_isSome]

theorem mem_openRequests {id : Model.Uuid} {grant : Grant} :
    (id, grant) ∈ s.openRequests now ↔
      s.access.requests.lookup id = some grant ∧ grant.stored.access.isOpen now = true := by
  rw [openRequests, List.mem_filter, AccessFile.mem_inOrder]

/-- What `ran_out` names is not open. -/
theorem not_open_of_ranOut (h : scope ∈ s.ranOut now) :
    (s.access.get scope).access.isOpen now = false := by
  obtain ⟨e, he, rfl⟩ := List.mem_map.1 h
  obtain ⟨he, hout⟩ := List.mem_filter.1 he
  rw [AccessFile.get_of_mem_all he]
  rw [Bool.and_eq_true, Bool.not_eq_true'] at hout
  exact hout.2

end Snapshot

end Connector
