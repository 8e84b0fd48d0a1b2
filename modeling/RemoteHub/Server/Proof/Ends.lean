import RemoteHub.Server.Moves
import RemoteHub.Server.Proof.Queries

/-!
# What ends

The recursive queries end where the folders form a tree (`folderConnector_isSome`,
`foldersBelow_isSome`, `Ends.devicesBelow`); `devices_below` of a folder in a loop does not
(`foldersBelow_of_loop`). The other checks of a move end anyway.
-/

namespace Server

open Model Except

variable {db : Db}

/-! ## Queries end -/

namespace Db

/-- Both trees are trees. -/
def Acyclic (db : Db) : Prop :=
  Chain.Acyclic db.folderParent ∧ Chain.Acyclic db.collectionParent

theorem mem_folders_of_parent {x : Uuid} (h : (db.folderParent x).isSome) :
    x ∈ db.folders.keys.toFinset := by
  obtain ⟨y, hy⟩ := Option.isSome_iff_exists.1 h
  obtain ⟨row, hrow, -⟩ := Option.bind_eq_some_iff.1 hy
  rw [List.mem_toFinset, ← AList.mem_keys]
  exact AList.lookup_isSome.1 (by rw [hrow]; rfl)

/-- Ranks of the folders, each above that of the parent. -/
theorem exists_folderRank (h : Chain.Acyclic db.folderParent) :
    ∃ r : Uuid → Nat, (∀ x, r x < db.folderRounds) ∧
      ∀ x y, db.folderParent x = some y → r y < r x := by
  obtain ⟨r, hle, hlt⟩ := h.exists_rank db.folders.keys.toFinset fun x hx => mem_folders_of_parent hx
  refine ⟨r, fun x => ?_, hlt⟩
  have hcard := List.toFinset_card_le db.folders.keys
  have hx := hle x
  unfold folderRounds
  omega

theorem folderConnectorFrom_isSome {r : Uuid → Nat}
    (hr : ∀ x y, db.folderParent x = some y → r y < r x) {n : Nat} {x : Uuid} (hn : r x < n) :
    (db.folderConnectorFrom n (some x)).isSome := by
  induction n generalizing x with
  | zero => omega
  | succ n ih =>
    unfold folderConnectorFrom
    cases hrow : db.folders.lookup x with
    | none => rfl
    | some row =>
      cases hc : row.connectorId with
      | some c => simp [hc]
      | none =>
        simp only [hc]
        cases hp : row.parentId with
        | none => cases n <;> rfl
        | some y =>
          have hlt : r y < r x := by
            apply hr
            unfold folderParent
            rw [hrow]
            exact hp
          exact ih (by omega)

theorem folderConnector_isSome (h : Chain.Acyclic db.folderParent) (folder : Uuid) :
    (db.folderConnector folder).isSome := by
  obtain ⟨r, hlt, hr⟩ := exists_folderRank h
  exact folderConnectorFrom_isSome hr (hlt folder)

/-- Level `m` has folders of rank `m` at least. -/
theorem belowFrom_isSome {r : Uuid → Nat} (hlt : ∀ x, r x < db.folderRounds)
    (hr : ∀ x y, db.folderParent x = some y → r y < r x) {n m : Nat} {frontier below : List Uuid}
    (hm : ∀ b ∈ frontier, m ≤ r b) (hn : db.folderRounds ≤ m + n) :
    (db.belowFrom n frontier below).isSome := by
  induction n generalizing m frontier below with
  | zero =>
    cases frontier with
    | nil => rfl
    | cons b bs =>
      have hb := hm b (by simp)
      have hlt := hlt b
      omega
  | succ n ih =>
    cases frontier with
    | nil => rfl
    | cons b bs =>
      show (db.belowFrom n (db.foldersIn (b :: bs)) (below ++ b :: bs)).isSome = true
      refine ih (m := m + 1) ?_ (by omega)
      intro x hx
      obtain ⟨c, hc, hxc⟩ := mem_foldersIn.1 hx
      have hmc := hm c hc
      have hcx := hr x c hxc
      omega

theorem foldersBelow_isSome (h : Chain.Acyclic db.folderParent) (folder : Uuid) :
    (db.foldersBelow folder).isSome := by
  obtain ⟨r, hlt, hr⟩ := exists_folderRank h
  exact belowFrom_isSome hlt hr (m := 0) (fun b _ => Nat.zero_le _) (by omega)

theorem belowFrom_of_loop {n : Nat} {frontier below : List Uuid} {b : Uuid} (hb : b ∈ frontier)
    (hloop : Chain.StrictlyAbove db.folderParent b b) : db.belowFrom n frontier below = none := by
  induction n generalizing frontier below b with
  | zero =>
    cases frontier with
    | nil => cases hb
    | cons c cs => rfl
  | succ n ih =>
    cases frontier with
    | nil => cases hb
    | cons c cs =>
      -- the level below has the next folder of the loop
      obtain ⟨a, hab, ha⟩ := hloop.exists_below
      exact ih (mem_foldersIn.2 ⟨b, hb, hab⟩) ha

/-- `devices_below` goes round a loop forever. -/
theorem foldersBelow_of_loop {folder : Uuid} (hmem : folder ∈ db.folders)
    (hloop : Chain.StrictlyAbove db.folderParent folder folder) : db.foldersBelow folder = none := by
  unfold foldersBelow
  rw [if_pos hmem]
  exact belowFrom_of_loop (List.mem_singleton.2 rfl) hloop

end Db

/-! ## Statements end -/

/-- The statements end, with an answer or a refusal. -/
def Ends {α : Type} (a : Answer α) : Prop := a ≠ .error .endless

theorem Ends.ok {α : Type} (a : α) : Ends (.ok a) := by
  intro h
  cases h

theorem Ends.bind {α β : Type} {x : Answer α} {g : α → Answer β} (hx : Ends x)
    (hg : ∀ a, Ends (g a)) : Ends (x >>= g) := by
  cases x with
  | ok a => exact hg a
  | error e =>
    intro h
    cases h
    exact hx rfl

theorem Ends.refuse {bad : Prop} [Decidable bad] {p : Problem} :
    Ends (Except.refuse bad (.problem p)) := by
  unfold Except.refuse
  split
  · intro h
    cases h
  · exact .ok ()

theorem Ends.mapM {α β : Type} {g : α → Answer β} (hg : ∀ a, Ends (g a)) (xs : List α) :
    Ends (xs.mapM g) := by
  induction xs with
  | nil => exact .ok []
  | cons x xs ih =>
    rw [List.mapM_cons]
    exact (hg x).bind fun _ => ih.bind fun _ => .ok _

theorem Ends.of_isSome {α : Type} {o : Option α} (h : o.isSome) : Ends (Db.ends o) := by
  obtain ⟨a, ha⟩ := Option.isSome_iff_exists.1 h
  rw [ha]
  exact .ok a

theorem Ends.require {catalog : Catalog} {subject : Subject} {needed : Role} {object : ObjectId} :
    Ends (require catalog subject needed object) := by
  unfold Server.require
  intro h
  split at h
  · split at h <;> cases h
  · cases h

theorem Ends.name {value field : String} : Ends (name value field) :=
  Ends.refuse.bind fun _ => .ok _

theorem Ends.nameChange {value : Option String} {field : String} :
    Ends (value.mapM (Server.name · field)) := by
  cases value with
  | none => exact .ok none
  | some value => exact Ends.name.bind fun _ => .ok _

theorem Ends.requireMove {catalog : Catalog} {subject : Subject} {id : Uuid}
    {target : Option (Option Uuid)} : Ends (requireMove catalog subject id target) := by
  cases target with
  | none => exact .ok ()
  | some target =>
    refine Ends.bind ?_ fun _ => .refuse
    cases target with
    | none => exact .refuse
    | some parent => exact .require

theorem Ends.requireCollectionMove {catalog : Catalog} {subject : Subject} {id : Uuid}
    {target : Option (Option Uuid)} : Ends (requireCollectionMove catalog subject id target) := by
  cases target with
  | none => exact .ok ()
  | some target =>
    cases target with
    | none => exact .refuse
    | some parent => exact Ends.require.bind fun _ => .refuse

theorem Ends.check {catalog : Catalog} {subject : Subject} (move : Move) :
    Ends (move.check db catalog subject) := by
  cases move with
  | folder id change =>
    refine Ends.require.bind fun _ => ?_
    refine Ends.nameChange.bind fun _ => ?_
    refine Ends.requireMove.bind fun _ => ?_
    exact Ends.refuse.bind fun _ => .ok _
  | collection id change =>
    refine Ends.require.bind fun _ => ?_
    refine Ends.nameChange.bind fun _ => ?_
    exact Ends.requireCollectionMove.bind fun _ => .ok _

theorem Ends.constraints {name : Option String} (move : Move) : Ends (move.constraints db name) := by
  cases move with
  | folder id change =>
    simp only [Move.constraints]
    cases db.folders.lookup id with
    | none => exact .ok ()
    | some row =>
      refine Ends.refuse.bind fun _ => ?_
      refine Ends.refuse.bind fun _ => ?_
      exact Ends.refuse.bind fun _ => .refuse
  | collection id change =>
    simp only [Move.constraints]
    cases db.collections.lookup id with
    | none => exact .ok ()
    | some row =>
      refine Ends.refuse.bind fun _ => ?_
      exact Ends.refuse.bind fun _ => .refuse

theorem Ends.devicesBelow (h : Chain.Acyclic db.folderParent) (folder : Uuid) :
    Ends (db.devicesBelow folder) := by
  refine (Ends.of_isSome (Db.foldersBelow_isSome h folder)).bind fun below => Ends.mapM ?_ _
  intro e
  refine Ends.bind (.of_isSome ?_) fun _ => .ok _
  unfold Db.reachedThrough Db.deviceConnector
  cases e.2.connectorMode with
  | inherit => exact Db.folderConnector_isSome h _
  | direct => rfl
  | connector => rfl

theorem exists_error_of_mapM {α β : Type} {g : α → Answer β} {xs : List α} {e : Failure}
    (h : xs.mapM g = .error e) : ∃ x ∈ xs, g x = .error e := by
  induction xs with
  | nil => cases h
  | cons x xs ih =>
    rw [List.mapM_cons] at h
    cases hx : g x with
    | error e' =>
      rw [hx] at h
      cases h
      exact ⟨x, List.mem_cons_self, hx⟩
    | ok y =>
      rw [hx] at h
      cases hxs : xs.mapM g with
      | error e' =>
        change xs.mapM g >>= _ = _ at h
        rw [hxs] at h
        cases h
        obtain ⟨z, hz, hgz⟩ := ih hxs
        exact ⟨z, List.mem_cons_of_mem x hz, hgz⟩
      | ok ys =>
        change xs.mapM g >>= _ = _ at h
        rw [hxs] at h
        cases h

theorem endless_of_ends {α β : Type} {o : Option α} {g : α → Answer β} {e : Failure}
    (h : Db.ends o >>= g = .error e) : e = .endless ∨ ∃ a, o = some a ∧ g a = .error e := by
  cases o with
  | none =>
    cases h
    exact .inl rfl
  | some a => exact .inr ⟨a, rfl, h⟩

/-- `devices_below` answers or goes round. -/
theorem Db.endless_of_devicesBelow {folder : Uuid} {e : Failure}
    (h : db.devicesBelow folder = .error e) : e = .endless := by
  rcases endless_of_ends h with he | ⟨below, -, h⟩
  · exact he
  · obtain ⟨d, -, hd⟩ := exists_error_of_mapM h
    rcases endless_of_ends hd with he | ⟨c, -, hc⟩
    · exact he
    · cases hc

end Server
