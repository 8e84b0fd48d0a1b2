import RemoteHub.Connector.Proof.Access
import RemoteHub.Connector.Proof.Snapshot
import RemoteHub.Connector.Writers

/-!
# What is closed stays closed

Writers that load, change and write back whole files lose each other's changes. `Fresh` is what a rename
relies on: that the file is still the one that the call loaded. In every run whose renames meet it
(`closed_stays_closed`):

- what a call has closed, removed or added is closed until a later call opens it;
- the expiry closes only what has run out (`Shared.early` is empty).

The invariant is `Sound` of the shared state, `Ready` of the writers under way. `alone` says that a call
nobody interrupts does with the files what the command of `RemoteHub.Connector.Access` does.
-/

namespace Connector

open Model Except

theorem AccessFile.get_set_closed {file : AccessFile} {stored : Stored} {scope : Scope}
    (h : stored.access = .closed) : ((file.set stored scope).get scope).access = .closed := by
  cases scope with
  | request id => simp [set, get, h, AList.lookup_erase]
  | _ => simp [set, get, h]

namespace Writers

open Interleave

variable {lower : String → String} {s s' : Shared} {t : Task} {k : Nat} {f : Flight}
  {o : Option Flight}

/-! ## The invariant -/

/-- Every open device or group is on the list. -/
structure Listed (files : Files) : Prop where
  devices : ∀ name, (files.access.get (.device name)).access ≠ .closed →
    name ∈ files.inventory.devices.map (·.name)
  groups : ∀ name, (files.access.get (.group name)).access ≠ .closed →
    name ∈ files.inventory.groups

structure Sound (s : Shared) : Prop where
  shut : ∀ scope ∈ s.shut, (s.files.access.get scope).access = .closed
  listed : Listed s.files
  early : s.early = []

/-- Scopes that the expiry is to close have run out. -/
def Over (s : Shared) (scopes : List (Scope × Stored)) : Prop :=
  ∀ e ∈ scopes, e.2.access.isOpen s.clock = false

/-- The expiry closes a scope that has run out, and so have those after it. -/
def Task.Due (s : Shared) (t : Task) : Prop :=
  ∀ e, t.expiry = some e →
    (∃ scope, t.call = .change scope .closed .expiry) ∧ e.1.access.isOpen s.clock = false ∧ Over s e.2

/-- What a writer relies on: it writes what it makes of the file that it loaded. -/
def Ready (lower : String → String) (_ : Nat) (s : Shared) : Flight → Prop
  | .begins t | .listed t _ | .loaded t _ _ | .accessSaved t _ | .saved t => t.Due s
  | .accessWritten t list loaded file =>
    t.Due s ∧ ∃ now, accessOf list loaded now t.call = .ok file
  | .listWritten t loaded list => t.Due s ∧ inventoryOf lower loaded t.call = .ok list
  | .reload expiry | .reloading expiry _ => ∀ scopes, expiry = some scopes → Over s scopes
  | .expiring scopes => Over s scopes
  | .follow | .following _ | .judging => True

theorem Over.mono {scopes : List (Scope × Stored)} (h : Over s scopes)
    (hclock : s.clock.nanos ≤ s'.clock.nanos) : Over s' scopes :=
  fun e he => Access.isOpen_later hclock (h e he)

theorem Task.Due.mono (h : t.Due s) (hclock : s.clock.nanos ≤ s'.clock.nanos) : t.Due s' :=
  fun e he =>
    have ⟨hcall, hout, hover⟩ := h e he
    ⟨hcall, Access.isOpen_later hclock hout, hover.mono hclock⟩

/-- A writer relies on nothing of the shared state but the clock. -/
theorem Ready.mono (h : Ready lower k s f) (hclock : s.clock.nanos ≤ s'.clock.nanos) :
    Ready lower k s' f := by
  cases f with
  | begins | listed | loaded | accessSaved | saved => exact Task.Due.mono h hclock
  | accessWritten | listWritten => exact ⟨h.1.mono hclock, h.2⟩
  | reload | reloading => exact fun scopes he => (h scopes he).mono hclock
  | expiring => exact Over.mono h hclock
  | follow | following | judging => trivial

theorem Task.Due.finish (h : t.Due s) : ∀ g, (s.finish t).2 = some g → Ready lower k s g := by
  intro g hg
  obtain ⟨e, he, rfl⟩ := Option.map_eq_some_iff.1 hg
  exact (h e he).2.2

/-! ## Renames -/

/-- A device or group that the call opens is on the list, and the expiry finds its scope as it judged
it. -/
def Task.asJudged (t : Task) (list : Inventory) (file : AccessFile) : Bool :=
  match t.call, t.expiry with
  | .change scope (.opened _) _, _ => known list file scope
  | .change scope .closed _, some e => file.get scope = e.1
  | _, _ => true

/-- What the call removes from the list is closed. -/
def Task.leavesClosed (t : Task) (file : AccessFile) : Bool :=
  match t.call with
  | .removeDevice name => (file.get (.device name)).access = .closed
  | .removeGroup name => (file.get (.group name)).access = .closed
  | _ => true

/-- What a rename relies on: what it puts in place is what the call has written, the file is the one
that it has loaded, and the other file is as the call takes it to be. -/
def Fresh (s : Shared) : Flight → Prop
  | .accessWritten t _ loaded file =>
    s.newAccess = some file ∧ s.files.access = loaded ∧ t.asJudged s.files.inventory loaded = true
  | .listWritten t loaded list =>
    s.newInventory = some list ∧ s.files.inventory = loaded ∧ t.leavesClosed s.files.access = true
  | _ => True

instance (s : Shared) : (f : Flight) → Decidable (Fresh s f)
  | .accessWritten t _ loaded file =>
    inferInstanceAs (Decidable (s.newAccess = some file ∧ s.files.access = loaded ∧
      t.asJudged s.files.inventory loaded = true))
  | .listWritten t loaded list =>
    inferInstanceAs (Decidable (s.newInventory = some list ∧ s.files.inventory = loaded ∧
      t.leavesClosed s.files.access = true))
  | .begins _ | .listed _ _ | .loaded _ _ _ | .accessSaved _ _ | .saved _ | .reload _
  | .reloading _ _ | .follow | .following _ | .judging | .expiring _ => .isTrue trivial

theorem Listed.set {files : Files} {stored : Stored} {scope : Scope} (h : Listed files)
    (hscope : stored.access = .closed ∨ known files.inventory files.access scope = true) :
    Listed { files with access := files.access.set stored scope } := by
  have hknown : ∀ scope', ((files.access.set stored scope).get scope').access ≠ .closed →
      scope' = scope → known files.inventory files.access scope = true := by
    rintro scope' hopen rfl
    refine hscope.resolve_left fun hclosed => hopen (AccessFile.get_set_closed hclosed)
  refine ⟨fun name hopen => ?_, fun name hopen => ?_⟩
  · by_cases heq : Scope.device name = scope
    · have hlisted := hknown _ hopen heq
      rw [← heq] at hlisted
      exact Inventory.device_isSome.1 hlisted
    · rw [AccessFile.get_set_ne heq] at hopen
      exact h.devices name hopen
  · by_cases heq : Scope.group name = scope
    · have hlisted := hknown _ hopen heq
      rw [← heq] at hlisted
      exact Inventory.hasGroup_iff.1 hlisted
    · rw [AccessFile.get_set_ne heq] at hopen
      exact h.groups name hopen

/-- A file in which every scope is closed or as before. -/
theorem Listed.closes {files : Files} {access : AccessFile} (h : Listed files)
    (hget : ∀ scope, (access.get scope).access = (files.access.get scope).access ∨
      (access.get scope).access = .closed) : Listed { files with access } := by
  have hopened : ∀ scope, (access.get scope).access ≠ .closed →
      (files.access.get scope).access ≠ .closed := by
    intro scope hopen hclosed
    rcases hget scope with heq | heq
    · exact hopen (heq.trans hclosed)
    · exact hopen heq
  exact ⟨fun name hopen => h.devices name (hopened _ hopen),
    fun name hopen => h.groups name (hopened _ hopen)⟩

/-- What the expiry closes has run out. -/
theorem earlyBy_eq (hs : Sound s) (hdue : t.Due s)
    (hjudged : ∀ scope who e, t.call = .change scope .closed who → t.expiry = some e →
      s.files.access.get scope = e.1) : s.earlyBy t = [] := by
  unfold Shared.earlyBy
  split
  · rename_i e scope access who hexpiry hcall
    obtain ⟨⟨scope', hcall'⟩, hout, -⟩ := hdue e hexpiry
    rw [hcall] at hcall'
    cases hcall'
    rw [hjudged scope .expiry e hcall hexpiry, hout]
    exact hs.early
  · exact hs.early

/-- What is stored of a closed scope other than those of `shut` is as before. -/
theorem shut_cons {file file' : AccessFile} {scope : Scope} {shut : List Scope}
    (h : ∀ scope ∈ shut, (file.get scope).access = .closed)
    (hscope : (file'.get scope).access = .closed)
    (hothers : ∀ scope', scope' ≠ scope → file'.get scope' = file.get scope') :
    ∀ scope' ∈ scope :: shut, (file'.get scope').access = .closed := by
  intro scope' hmem
  by_cases heq : scope' = scope
  · rw [heq]
    exact hscope
  · rw [hothers scope' heq]
    exact h scope' ((List.mem_cons.1 hmem).resolve_left heq)

theorem shut_filter {file file' : AccessFile} {scope : Scope} {shut : List Scope}
    (h : ∀ scope ∈ shut, (file.get scope).access = .closed)
    (hothers : ∀ scope', scope' ≠ scope → file'.get scope' = file.get scope') :
    ∀ scope' ∈ shut.filter (· ≠ scope), (file'.get scope').access = .closed := by
  intro scope' hmem
  obtain ⟨hmem, hne⟩ := List.mem_filter.1 hmem
  rw [hothers scope' (of_decide_eq_true hne)]
  exact h scope' hmem

/-- Where every scope is closed or as before, all that was closed is. -/
theorem shut_closes {file file' : AccessFile} {shut : List Scope}
    (h : ∀ scope ∈ shut, (file.get scope).access = .closed)
    (hget : ∀ scope, (file'.get scope).access = (file.get scope).access ∨
      (file'.get scope).access = .closed) :
    ∀ scope ∈ shut, (file'.get scope).access = .closed := by
  intro scope hmem
  rcases hget scope with heq | heq
  · rw [heq]
    exact h scope hmem
  · exact heq

/-- **What a call makes of the access file** keeps what is closed, with the files as loaded. -/
theorem accessOf_keeps {list : Inventory} {file : AccessFile} {now : OffsetDateTime} (hs : Sound s)
    (h : accessOf list s.files.access now t.call = .ok file)
    (hopens : ∀ scope ends who, t.call = .change scope (.opened ends) who →
      known s.files.inventory s.files.access scope = true) :
    (∀ scope ∈ s.shutBy t.call, (file.get scope).access = .closed) ∧
      Listed { s.files with access := file } := by
  cases hcall : t.call with
  | change scope access who =>
    rw [hcall] at h
    obtain ⟨-, rfl⟩ := changed_eq_ok h
    cases access with
    | closed =>
      exact ⟨shut_cons hs.shut (AccessFile.get_set_closed rfl)
        (fun _ hne => AccessFile.get_set_ne hne), hs.listed.set (.inl rfl)⟩
    | opened ends =>
      exact ⟨shut_filter hs.shut
        (fun _ hne => AccessFile.get_set_ne hne), hs.listed.set (.inr (hopens scope ends who hcall))⟩
  | approve request ends who =>
    rw [hcall] at h
    cases h
    exact ⟨shut_filter hs.shut
      (fun _ hne => approved_get_ne hne), hs.listed.devices, hs.listed.groups⟩
  | removeDevice name =>
    rw [hcall] at h
    cases h
    have hget : ∀ scope,
        (({ s.files.access with devices := s.files.access.devices.erase name } : AccessFile).get
          scope).access = (s.files.access.get scope).access ∨
        (({ s.files.access with devices := s.files.access.devices.erase name } : AccessFile).get
          scope).access = .closed := by
      intro scope
      rw [AccessFile.get_erase_device]
      split
      · exact .inr rfl
      · exact .inl rfl
    exact ⟨shut_closes hs.shut hget, hs.listed.closes hget⟩
  | removeGroup name =>
    rw [hcall] at h
    cases h
    have hget : ∀ scope,
        (({ s.files.access with groups := s.files.access.groups.erase name } : AccessFile).get
          scope).access = (s.files.access.get scope).access ∨
        (({ s.files.access with groups := s.files.access.groups.erase name } : AccessFile).get
          scope).access = .closed := by
      intro scope
      rw [AccessFile.get_erase_group]
      split
      · exact .inr rfl
      · exact .inl rfl
    exact ⟨shut_closes hs.shut hget, hs.listed.closes hget⟩
  | addDevice device =>
    rw [hcall] at h
    cases h
    exact ⟨hs.shut, hs.listed⟩
  | addGroup name =>
    rw [hcall] at h
    cases h
    exact ⟨hs.shut, hs.listed⟩

/-- **What a call makes of the list**: what it adds or removes is closed, and every open device and
group is on the new list. -/
theorem inventoryOf_keeps {list : Inventory} (h : Listed s.files)
    (hlist : inventoryOf lower s.files.inventory t.call = .ok list)
    (hdevice : ∀ name, t.call = .removeDevice name →
      (s.files.access.get (.device name)).access = .closed)
    (hgroup : ∀ name, t.call = .removeGroup name →
      (s.files.access.get (.group name)).access = .closed) :
    (∀ scope ∈ membership t.call, (s.files.access.get scope).access = .closed) ∧
      Listed { s.files with inventory := list } := by
  cases hcall : t.call with
  | change scope access who =>
    rw [hcall] at hlist
    cases hlist
    exact ⟨nofun, h⟩
  | approve request ends who =>
    rw [hcall] at hlist
    cases hlist
    exact ⟨nofun, h⟩
  | addDevice device =>
    rw [hcall] at hlist
    obtain ⟨hnew, -, hgroups, -⟩ := Inventory.addDevice_eq_ok hlist
    refine ⟨?_, ?_, ?_⟩
    · intro scope hscope
      cases hscope
      by_contra hopen
      exact hnew (h.devices device.name hopen)
    · intro name hopen
      exact (addDevice_names hlist).2 (.inr (h.devices name hopen))
    · intro name hopen
      rw [hgroups]
      exact h.groups name hopen
  | addGroup name =>
    rw [hcall] at hlist
    obtain ⟨name', hname, hlist⟩ := bind_eq_ok.1 hlist
    obtain ⟨hnew, hdevices, hperm⟩ := Inventory.addGroup_eq_ok hlist
    refine ⟨?_, ?_, ?_⟩
    · intro scope hscope
      rw [membership, hname] at hscope
      cases hscope
      by_contra hopen
      exact hnew (h.groups name' hopen)
    · intro name hopen
      rw [hdevices]
      exact h.devices name hopen
    · intro name hopen
      exact hperm.mem_iff.2 (List.mem_cons_of_mem _ (h.groups name hopen))
  | removeDevice name =>
    rw [hcall] at hlist
    have hclosed := hdevice name hcall
    refine ⟨?_, ?_, ?_⟩
    · intro scope hscope
      cases hscope
      exact hclosed
    · intro name' hopen
      refine removeDevice_names hlist ?_ (h.devices name' hopen)
      rintro rfl
      exact hopen hclosed
    · obtain ⟨_, _, _, -, -, rfl⟩ := Inventory.removeDevice_eq_ok hlist
      exact h.groups
  | removeGroup name =>
    rw [hcall] at hlist
    have hclosed := hgroup name hcall
    obtain rfl := Inventory.removeGroup_eq_ok hlist
    refine ⟨?_, ?_, ?_⟩
    · intro scope hscope
      cases hscope
      exact hclosed
    · intro name' hopen
      rw [List.map_map]
      exact h.devices name' hopen
    · intro name' hopen
      refine List.mem_filter.2 ⟨h.groups name' hopen, decide_eq_true ?_⟩
      rintro rfl
      exact hopen hclosed

/-! ## Steps -/

/-- What a step of a writer leaves. -/
structure Kept (lower : String → String) (k : Nat) (s : Shared) (r : Shared × Option Flight) :
    Prop where
  sound : Sound r.1
  ready : ∀ g, r.2 = some g → Ready lower k r.1 g
  clock : r.1.clock = s.clock

theorem Kept.finish (hs : Sound s) (h : t.Due s) : Kept lower k s (s.finish t) where
  sound := hs
  ready := h.finish
  clock := rfl

theorem Kept.goOn (hs : Sound s) (h : Ready lower k s f) : Kept lower k s (s, some f) where
  sound := hs
  ready g hg := by
    cases hg
    exact h
  clock := rfl

theorem renameAccess_ok {list : Inventory} {loaded file : AccessFile} (hs : Sound s)
    (hready : Ready lower k s (.accessWritten t list loaded file))
    (hfresh : Fresh s (.accessWritten t list loaded file)) (h : s.renameAccess t = some s') :
    Sound s' ∧ s'.clock = s.clock := by
  obtain ⟨hnew, rfl, hcall⟩ := hfresh
  obtain ⟨hdue, now, hfile⟩ := hready
  obtain ⟨_, haccess, rfl⟩ := Option.map_eq_some_iff.1 h
  rw [hnew] at haccess
  cases haccess
  have hkeeps : (∀ scope ∈ s.shutBy t.call, (file.get scope).access = .closed) ∧
      Listed { s.files with access := file } := by
    refine accessOf_keeps hs hfile fun scope ends who heq => ?_
    rw [Task.asJudged, heq] at hcall
    exact hcall
  have hearly : s.earlyBy t = [] := by
    refine earlyBy_eq hs hdue fun scope who e heq hexpiry => ?_
    rw [Task.asJudged, heq, hexpiry] at hcall
    exact of_decide_eq_true hcall
  exact ⟨⟨hkeeps.1, hkeeps.2, hearly⟩, rfl⟩

theorem renameInventory_ok {loaded list : Inventory} (hs : Sound s)
    (hready : Ready lower k s (.listWritten t loaded list))
    (hfresh : Fresh s (.listWritten t loaded list)) (h : s.renameInventory t = some s') :
    Sound s' ∧ s'.clock = s.clock := by
  obtain ⟨hnew, rfl, hcall⟩ := hfresh
  obtain ⟨-, hlist⟩ := hready
  obtain ⟨_, hinventory, rfl⟩ := Option.map_eq_some_iff.1 h
  rw [hnew] at hinventory
  cases hinventory
  have hkeeps : (∀ scope ∈ membership t.call, (s.files.access.get scope).access = .closed) ∧
      Listed { s.files with inventory := list } := by
    refine inventoryOf_keeps hs.listed hlist (fun name heq => ?_) fun name heq => ?_
    · rw [Task.leavesClosed, heq] at hcall
      exact of_decide_eq_true hcall
    · rw [Task.leavesClosed, heq] at hcall
      exact of_decide_eq_true hcall
  refine ⟨⟨fun scope hscope => ?_, hkeeps.2, hs.early⟩, rfl⟩
  rcases List.mem_append.1 hscope with hscope | hscope
  · exact hkeeps.1 scope (Option.mem_toList.1 hscope)
  · exact hs.shut scope hscope

/-- What a new snapshot decides does not matter to the files. -/
theorem Sound.gate (hs : Sound s) (gate : Snapshot) : Sound { s with gate } :=
  ⟨hs.shut, hs.listed, hs.early⟩

theorem Over.ranOut : Over s ((s.gate.ranOut s.clock).map fun scope => (scope, s.gate.access.get scope)) := by
  intro e he
  obtain ⟨scope, hscope, rfl⟩ := List.mem_map.1 he
  exact Snapshot.not_open_of_ranOut hscope

/-- Each step of a writer, if it is `Fresh`. -/
theorem step_kept (hs : Sound s) (hready : Ready lower k s f) (hfresh : Fresh s f) :
    Kept lower k s (f.step lower s) := by
  cases f with
  | begins t =>
    simp only [Flight.step]
    split
    · exact .goOn hs hready
    · exact .goOn hs hready
  | listed t list =>
    simp only [Flight.step]
    split
    · exact .finish hs hready
    · split
      · exact .goOn hs hready
      · exact .goOn hs hready
  | loaded t list file =>
    simp only [Flight.step]
    split
    · exact .finish hs hready
    · rename_i access haccess
      refine ⟨⟨hs.shut, hs.listed, hs.early⟩, fun g hg => ?_, rfl⟩
      cases hg
      exact ⟨hready, s.clock, haccess⟩
  | accessWritten t list loaded file =>
    simp only [Flight.step]
    split
    · exact .finish hs hready.1
    · rename_i s' h
      obtain ⟨hs', hclock⟩ := renameAccess_ok hs hready hfresh h
      refine ⟨hs', fun g hg => ?_, hclock⟩
      cases hg
      have hdue : t.Due s' := hready.1.mono (congrArg OffsetDateTime.nanos hclock).ge
      split
      · exact hdue
      · exact hdue
  | accessSaved t list =>
    simp only [Flight.step]
    split
    · exact .finish hs hready
    · rename_i inventory hlist
      refine ⟨⟨hs.shut, hs.listed, hs.early⟩, fun g hg => ?_, rfl⟩
      cases hg
      exact ⟨hready, hlist⟩
  | listWritten t loaded list =>
    simp only [Flight.step]
    split
    · exact .finish hs hready.1
    · rename_i s' h
      obtain ⟨hs', hclock⟩ := renameInventory_ok hs hready hfresh h
      refine ⟨hs', fun g hg => ?_, hclock⟩
      cases hg
      exact hready.1.mono (congrArg OffsetDateTime.nanos hclock).ge
  | saved t =>
    simp only [Flight.step]
    split
    · refine .goOn hs fun scopes hscopes => ?_
      obtain ⟨e, he, rfl⟩ := Option.map_eq_some_iff.1 hscopes
      exact (hready e he).2.2
    · exact .finish hs hready
  | reload expiry => exact .goOn hs hready
  | reloading expiry access =>
    refine ⟨hs.gate _, fun g hg => ?_, rfl⟩
    obtain ⟨scopes, hscopes, rfl⟩ := Option.map_eq_some_iff.1 hg
    exact hready scopes hscopes
  | follow => exact .goOn hs trivial
  | following access =>
    refine ⟨hs.gate _, fun g hg => ?_, rfl⟩
    cases hg
    trivial
  | judging => exact .goOn hs Over.ranOut
  | expiring scopes =>
    cases scopes with
    | nil => exact ⟨hs, ready_of_none, rfl⟩
    | cons e rest =>
      refine .goOn hs fun e' he' => ?_
      cases he'
      exact ⟨⟨e.1, rfl⟩, hready e List.mem_cons_self, fun e' he' => hready e' (List.mem_cons_of_mem _ he')⟩

theorem fail_kept (hs : Sound s) (hready : Ready lower k s f) : Kept lower k s (f.fail s) := by
  cases f with
  | begins | listed | loaded | accessSaved | saved => exact .finish hs hready
  | accessWritten | listWritten => exact .finish hs hready.1
  | reload | reloading =>
    refine ⟨hs, fun g hg => ?_, rfl⟩
    obtain ⟨scopes, hscopes, rfl⟩ := Option.map_eq_some_iff.1 hg
    exact hready scopes hscopes
  | follow | following | judging | expiring => exact ⟨hs, ready_of_none, rfl⟩

/-- Every step of a writer that does not fail is `Fresh`. -/
def Undisturbed (w : World Shared Flight) : Event Flight Outside → Prop
  | .next k => ∀ f ∈ w.flights.lookup k, k ∈ w.shared.failing ∨ Fresh w.shared f
  | _ => True

theorem next_kept (hs : Sound s) (hready : Ready lower k s f) (hfresh : k ∈ s.failing ∨ Fresh s f)
    {r : Shared × Option Flight} (h : f.next lower k s = some r) : Kept lower k s r := by
  unfold Flight.next at h
  split at h
  · cases h
    have hkept : Kept lower k { s with failing := s.failing.erase k }
        (f.fail { s with failing := s.failing.erase k }) :=
      fail_kept ⟨hs.shut, hs.listed, hs.early⟩ (hready.mono le_rfl)
    exact ⟨hkept.sound, hkept.ready, hkept.clock⟩
  · rename_i hgoes
    cases h
    exact step_kept hs hready (hfresh.resolve_left hgoes)

theorem ready_of_isNew (h : f.isNew = true) : Ready lower k s f := by
  cases f with
  | begins t =>
    intro e he
    rw [Flight.isNew, Option.isNone_iff_eq_none] at h
    rw [h] at he
    cases he
  | reload expiry =>
    intro scopes he
    rw [Flight.isNew, Option.isNone_iff_eq_none] at h
    rw [h] at he
    cases he
  | follow => trivial
  | _ => cases h

theorem outside_kept {e : Outside} (hs : Sound s) (h : s.outside e = some s') :
    Sound s' ∧ s.clock.nanos ≤ s'.clock.nanos := by
  cases e with
  | tick clock =>
    simp only [Shared.outside] at h
    split at h
    · rename_i hclock
      cases h
      exact ⟨⟨hs.shut, hs.listed, hs.early⟩, hclock⟩
    · cases h
  | fail k =>
    cases h
    exact ⟨⟨hs.shut, hs.listed, hs.early⟩, le_rfl⟩

theorem world_step {w w' : World Shared Flight} {ev : Event Flight Outside}
    (hw : Holds Sound (Ready lower) w) (hC : Undisturbed w ev)
    (hstep : step (system lower) w ev = some w') : Holds Sound (Ready lower) w' := by
  refine hw.step hstep (fun k f hf => ready_of_isNew hf) ?_ ?_
  · intro k f s o he hf hn
    subst he
    have hkept : Kept lower k w.shared (s, o) := next_kept hw.shared (hw.flights k f hf) (hC f hf) hn
    exact ⟨hkept.sound, hkept.ready, fun k' g _ hg => (hw.flights k' g hg).mono (congrArg OffsetDateTime.nanos hkept.clock).ge⟩
  · intro e s _ ho
    obtain ⟨hs, hclock⟩ := outside_kept hw.shared ho
    exact ⟨hs, fun k g hg => (hw.flights k g hg).mono hclock⟩

/-- **What is closed stays closed**: over every interleaving from empty files whose renames are
`Fresh`, every scope closed, removed or added and not opened since is closed, and the expiry has closed
nothing that was open. -/
theorem closed_stays_closed (lower : String → String) (clock : OffsetDateTime)
    {es : List (Event Flight Outside)} {w : World Shared Flight}
    (hr : Run.run (step (system lower)) (World.quiet { clock }) es = some w)
    (hm : Run.Meets (step (system lower)) Undisturbed (World.quiet { clock }) es) :
    (∀ scope ∈ w.shared.shut, (w.shared.files.access.get scope).access = .closed) ∧
      w.shared.early = [] := by
  have hstart : Holds Sound (Ready lower) (World.quiet { clock } : World Shared Flight) := by
    refine .quiet ⟨nofun, ⟨fun name hopen => ?_, fun name hopen => ?_⟩, rfl⟩
    · exact absurd rfl hopen
    · exact absurd rfl hopen
  have hw : Holds Sound (Ready lower) w :=
    Run.inv_of_meets (I := fun _ w => Holds Sound (Ready lower) w) hstart
      (fun _ _ _ _ _ hC hs ht => world_step ht hC hs) hm hr
  exact ⟨hw.shared.shut, hw.shared.early⟩

instance (w : World Shared Flight) (ev : Event Flight Outside) : Decidable (Undisturbed w ev) :=
  match ev with
  | .next k =>
    inferInstanceAs (Decidable (∀ f ∈ w.flights.lookup k, k ∈ w.shared.failing ∨ Fresh w.shared f))
  | .start _ _ | .outside _ => .isTrue trivial

/-! ## One writer alone -/

/-- Writer `k` alone comes to a world with `P`. -/
def Comes (lower : String → String) (k : Nat) (w : World Shared Flight)
    (P : World Shared Flight → Prop) : Prop :=
  ∃ n w', Run.run (step (system lower)) w (List.replicate n (.next k)) = some w' ∧ P w'

theorem Comes.here {w : World Shared Flight} {P : World Shared Flight → Prop} (h : P w) :
    Comes lower k w P := ⟨0, w, rfl, h⟩

theorem Comes.next {w : World Shared Flight} {P : World Shared Flight → Prop}
    (hf : w.flights.lookup k = some f) (hk : k ∉ w.shared.failing)
    (h : Comes lower k ⟨(f.step lower w.shared).1, put w.flights k (f.step lower w.shared).2⟩ P) :
    Comes lower k w P := by
  obtain ⟨n, w', hr, hw'⟩ := h
  refine ⟨n + 1, w', ?_, hw'⟩
  have hstep : step (system lower) w (.next k) =
      some ⟨(f.step lower w.shared).1, put w.flights k (f.step lower w.shared).2⟩ := by
    simp [step, hf, system, Flight.next, hk]
  rw [List.replicate_succ, Run.run, hstep]
  exact hr

/-- The call is at its end, and the files are `files`. -/
def Ends (k : Nat) (t : Task) (files : Files) (w : World Shared Flight) : Prop :=
  w.shared.files = files ∧
    (w.flights.lookup k = some (.saved t) ∨ w.flights.lookup k = t.expiry.map fun e => .expiring e.2)

theorem Comes.finish {w : World Shared Flight} {flights : HashMap Nat Flight} :
    Comes lower k ⟨(w.shared.finish t).1, put flights k (w.shared.finish t).2⟩
      (Ends k t w.shared.files) := by
  refine .here ⟨rfl, .inr ?_⟩
  unfold Shared.finish
  cases t.expiry with
  | none => exact AList.lookup_erase _ _
  | some e => exact AList.lookup_insert _

/-- From where the access is loaded, the call that writes it. -/
theorem comes_loaded {w : World Shared Flight} {list : Inventory} {P : World Shared Flight → Prop}
    (hf : w.flights.lookup k = some (.loaded t list w.shared.files.access))
    (hk : k ∉ w.shared.failing) {access : AccessFile}
    (haccess : accessOf list w.shared.files.access w.shared.clock t.call = .ok access)
    (h : ∀ w' : World Shared Flight, w'.shared.files = { w.shared.files with access } →
      w'.shared.failing = w.shared.failing →
      w'.flights.lookup k =
        some (if writesInventory t.call then .accessSaved t list else .saved t) →
      Comes lower k w' P) : Comes lower k w P := by
  refine .next hf hk ?_
  simp only [Flight.step, haccess, put]
  refine .next (AList.lookup_insert _) hk ?_
  simp only [Flight.step, Shared.renameAccess, Option.map_some, put]
  exact h _ rfl rfl (AList.lookup_insert _)

/-- From where the access is saved, the call that writes the list. -/
theorem comes_accessSaved {w : World Shared Flight} {list inventory : Inventory}
    (hf : w.flights.lookup k = some (.accessSaved t list)) (hk : k ∉ w.shared.failing)
    (hlist : inventoryOf lower list t.call = .ok inventory) :
    Comes lower k w (Ends k t { w.shared.files with inventory }) := by
  refine .next hf hk ?_
  simp only [Flight.step, hlist, put]
  refine .next (AList.lookup_insert _) hk ?_
  simp only [Flight.step, Shared.renameInventory, Option.map_some, put]
  exact .here ⟨rfl, .inl (AList.lookup_insert _)⟩

/-- A call that stops where it judges the list. -/
theorem comes_refused {w : World Shared Flight} {e : InventoryError}
    (hf : w.flights.lookup k = some (.listed t w.shared.files.inventory))
    (hk : k ∉ w.shared.failing) (hlist : inventoryOf lower w.shared.files.inventory t.call = .error e) :
    Comes lower k w (Ends k t w.shared.files) := by
  refine .next hf hk ?_
  simp only [Flight.step, hlist]
  exact .finish

/-- A call that writes both files, the access first. -/
theorem comes_removed {w : World Shared Flight} {inventory : Inventory} {access : AccessFile}
    (hf : w.flights.lookup k = some (.listed t w.shared.files.inventory))
    (hk : k ∉ w.shared.failing) (hwrites : writesAccess t.call = true)
    (hwrites' : writesInventory t.call = true)
    (hlist : inventoryOf lower w.shared.files.inventory t.call = .ok inventory)
    (haccess : accessOf w.shared.files.inventory w.shared.files.access w.shared.clock t.call =
      .ok access) :
    Comes lower k w (Ends k t ⟨access, inventory⟩) := by
  refine .next hf hk ?_
  simp only [Flight.step, hlist, hwrites, if_true, put]
  refine comes_loaded (AList.lookup_insert _) hk haccess fun w' hfiles hk' hat => ?_
  rw [hwrites', if_pos rfl] at hat
  have hends := comes_accessSaved hat (by rw [hk']; exact hk) hlist
  rw [hfiles] at hends
  exact hends

/-- A call that writes the list only. -/
theorem comes_added {w : World Shared Flight} {inventory : Inventory}
    (hf : w.flights.lookup k = some (.listed t w.shared.files.inventory))
    (hk : k ∉ w.shared.failing) (hwrites : writesAccess t.call = false)
    (hlist : inventoryOf lower w.shared.files.inventory t.call = .ok inventory) :
    Comes lower k w (Ends k t { w.shared.files with inventory }) := by
  refine .next hf hk ?_
  simp only [Flight.step, hlist, hwrites, put]
  exact comes_accessSaved (AList.lookup_insert _) hk hlist

/-- **A call alone** makes of the files what its command does. -/
theorem alone {w : World Shared Flight} (hf : w.flights.lookup k = some (.begins t))
    (hk : k ∉ w.shared.failing) :
    Comes lower k w
      (Ends k t ((t.call.run lower w.shared.clock).outcome w.shared.files []).2) := by
  refine .next hf hk ?_
  cases hcall : t.call with
  | approve request ends who =>
    simp only [Flight.step, hcall, put]
    refine comes_loaded (AList.lookup_insert _) hk (by rw [hcall, accessOf]) fun w' hfiles _ hat => ?_
    rw [hcall] at hat
    exact .here ⟨hfiles, .inl hat⟩
  | change scope access who =>
    simp only [Flight.step, hcall, put]
    refine .next (AList.lookup_insert _) hk ?_
    simp only [Flight.step, hcall, inventoryOf, writesAccess, if_true, put, Call.run, Connector.change,
      outcome_loadInventory, outcome_loadAccess]
    cases hchanged : changed w.shared.files.inventory w.shared.files.access scope access who
        w.shared.clock with
    | error e =>
      refine .next (AList.lookup_insert _) hk ?_
      simp only [Flight.step, hcall, accessOf, hchanged]
      exact .finish
    | ok access =>
      refine comes_loaded (AList.lookup_insert _) hk (by rw [hcall, accessOf, hchanged])
        fun w' hfiles _ hat => ?_
      rw [hcall] at hat
      exact .here ⟨hfiles, .inl hat⟩
  | addDevice device =>
    simp only [Flight.step, hcall, put, Call.run, Connector.addDevice, outcome_loadInventory]
    cases hlist : w.shared.files.inventory.addDevice lower device with
    | error e => exact comes_refused (AList.lookup_insert _) hk (by rw [hcall, inventoryOf, hlist])
    | ok list =>
      exact comes_added (AList.lookup_insert _) hk (by rw [hcall, writesAccess])
        (by rw [hcall, inventoryOf, hlist])
  | addGroup name =>
    simp only [Flight.step, hcall, put, Call.run, Connector.addGroup]
    cases hname : validName name with
    | error e =>
      exact comes_refused (AList.lookup_insert _) hk (by rw [hcall, inventoryOf, hname]; rfl)
    | ok name' =>
      cases hlist : w.shared.files.inventory.addGroup lower name' with
      | error e =>
        rw [outcome_lift_ok, outcome_loadInventory, hlist]
        exact comes_refused (AList.lookup_insert _) hk (by rw [hcall, inventoryOf, hname]; exact hlist)
      | ok list =>
        rw [outcome_lift_ok, outcome_loadInventory, hlist]
        exact comes_added (AList.lookup_insert _) hk (by rw [hcall, writesAccess])
          (by rw [hcall, inventoryOf, hname]; exact hlist)
  | removeDevice name =>
    simp only [Flight.step, hcall, put, Call.run, Connector.removeDevice, outcome_loadInventory]
    cases hlist : w.shared.files.inventory.removeDevice name with
    | error e => exact comes_refused (AList.lookup_insert _) hk (by rw [hcall, inventoryOf, hlist])
    | ok list =>
      exact comes_removed (AList.lookup_insert _) hk (by rw [hcall]; rfl) (by rw [hcall]; rfl)
        (by rw [hcall, inventoryOf, hlist])
        (by rw [hcall, accessOf])
  | removeGroup name =>
    simp only [Flight.step, hcall, put, Call.run, Connector.removeGroup, outcome_loadInventory]
    cases hlist : w.shared.files.inventory.removeGroup name with
    | error e => exact comes_refused (AList.lookup_insert _) hk (by rw [hcall, inventoryOf, hlist])
    | ok list =>
      exact comes_removed (AList.lookup_insert _) hk (by rw [hcall]; rfl) (by rw [hcall]; rfl)
        (by rw [hcall, inventoryOf, hlist])
        (by rw [hcall, accessOf])

/-! ## Runs -/

def web (call : Call) : Flight := .begins { call, reloads := true }

/-- Twelve o'clock on some day, and an hour later. -/
def noon : OffsetDateTime := ⟨43200000000000, 0⟩

def later : OffsetDateTime := ⟨46800000000000, 0⟩

/-- The network is opened until later, a group is added, and the network closed by hand. -/
def inTurn : List (Event Flight Outside) :=
  [.start 0 (web (.change .network (.opened (some later)) .commandLine))] ++
    List.replicate 7 (.next 0) ++
  [.start 1 (web (.addGroup "cameras"))] ++ List.replicate 7 (.next 1) ++
  [.start 2 (web (.change .network .closed .commandLine))] ++ List.replicate 7 (.next 2)

theorem closed_stays_closed_in_turn :
    ∃ w, Run.run (step (system id)) (World.quiet { clock := noon }) inTurn = some w ∧
      w.shared.shut = [.network, .group "cameras"] ∧
      (∀ scope ∈ w.shared.shut, (w.shared.files.access.get scope).access = .closed) ∧
      w.shared.early = [] := by
  have hrun : (Run.run (step (system id)) (World.quiet { clock := noon }) inTurn).map
      (fun w => w.shared.shut) = some [.network, .group "cameras"] := by decide
  obtain ⟨w, hr, hshut⟩ := Option.map_eq_some_iff.1 hrun
  exact ⟨w, hr, hshut, closed_stays_closed id noon hr (by decide)⟩

/-- While a group is closed, the network is closed too, after the access has been loaded. -/
def lostClose : List (Event Flight Outside) :=
  [.start 0 (web (.addGroup "cameras"))] ++ List.replicate 7 (.next 0) ++
  [.start 1 (web (.change .network (.opened (some later)) .commandLine))] ++
    List.replicate 7 (.next 1) ++
  [.start 2 (web (.change (.group "cameras") .closed .commandLine))] ++ List.replicate 2 (.next 2) ++
  [.start 3 (web (.change .network .closed .commandLine))] ++ List.replicate 7 (.next 3) ++
  List.replicate 5 (.next 2)

/-- The network is open again, and nobody has opened it. -/
theorem close_is_lost :
    ¬∀ (es : List (Event Flight Outside)) (w : World Shared Flight),
      Run.run (step (system id)) (World.quiet { clock := noon }) es = some w →
      (∀ scope ∈ w.shared.shut, (w.shared.files.access.get scope).access = .closed) ∧
        w.shared.early = [] := by
  intro hall
  have hrun : (Run.run (step (system id)) (World.quiet { clock := noon }) lostClose).map
      (fun w => (w.shared.shut, w.shared.files.access.network.access)) =
      some ([.group "cameras", .network, .group "cameras"], .opened (some later)) := by
    decide
  obtain ⟨w, hr, hw⟩ := Option.map_eq_some_iff.1 hrun
  rw [Prod.mk.injEq] at hw
  have hclosed : w.shared.files.access.network.access = .closed :=
    (hall _ w hr).1 .network (by rw [hw.1]; decide)
  rw [hw.2] at hclosed
  cases hclosed

end Writers

end Connector
