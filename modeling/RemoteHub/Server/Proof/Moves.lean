import RemoteHub.Server.Proof.Ends
import RemoteHub.Server.Proof.Requests

/-!
# Moves and the trees

A request that nothing interrupts does what `Db.updateFolder` says (`run_updateFolder`). Interleaved
ones are another matter: each is checked on a catalog loaded before its transaction.

`World.fresh`: the new parent of a move is, in what is committed when the request reads the tree
again or commits, still not the moved folder or below it. Then, and only then, the trees stay trees
over a whole run (`trees_stay_trees`). Two moves that cross between check and commit close a loop
(`crossing_moves`).
-/

namespace Server

open Model Except

variable {db : Db}

namespace Moves

/-! ## A request alone -/

section
variable {db' : Db} {clock : Int} {k : Nat} {f f' : Flight}

/-- The request `k` in flight, and no other. -/
def alone (db : Db) (clock : Int) (k : Nat) (f : Flight) : World :=
  ⟨db, clock, AList.singleton k f⟩

theorem waits_alone : (alone db clock k f).waits f = false := by
  cases f <;> simp [World.waits, alone, Flight.updates, Flight.locks]

theorem step_alone : (alone db clock k f).step (.next k) =
    match f.statement db clock with
    | .ok (db', some f') => some (alone db' clock k f')
    | .ok (db', none) => some ⟨db', clock, ∅⟩
    | .error (.problem _) => some ⟨db, clock, ∅⟩
    | .error .endless => none := by
  have hf : (alone db clock k f).flights.lookup k = some f :=
    HashMap.lookup_eq_some.2 (List.mem_singleton.2 rfl)
  have herase : (AList.singleton k f : HashMap Nat Flight).erase k = ∅ :=
    AList.ext (List.kerase_cons_eq rfl)
  simp only [World.step, hf, Option.bind_some, World.next, waits_alone]
  simp only [alone, herase, AList.insert_singleton_eq]
  rfl

theorem run_alone {es : List Event} (h : f.statement db clock = .ok (db', some f')) :
    Run.run World.step (alone db clock k f) (.next k :: es) =
      Run.run World.step (alone db' clock k f') es := by
  rw [Run.run, step_alone, h]
  rfl

/-- `load` reads the catalog of the state. -/
theorem run_load {subject : Subject} {move : Move} {n : Nat} :
    Run.run World.step (alone db clock k (.loading subject move {})) (List.replicate (n + 7) (.next k))
      = Run.run World.step (alone db clock k (.loading subject move
        { todo := [], objects := db.objects, now := clock, grants := db.grantList }))
        (List.replicate n (.next k)) := by
  iterate 7 rw [List.replicate_succ, run_alone rfl]
  rfl

/-- **Statement by statement and at once**: a request that nothing interrupts does what
`update_folder` does in one piece. -/
theorem run_updateFolder {subject : Subject} {id : Uuid} {input : FolderChange}
    (h : db.updateFolder ⟨subject, clock⟩ id input = .ok db') :
    Run.run World.step ⟨db, clock, ∅⟩
      (.start k subject (.folder id input) :: List.replicate 13 (.next k)) =
      some ⟨db', clock, ∅⟩ := by
  obtain ⟨_, hmanage, h⟩ := bind_eq_ok.1 h
  obtain ⟨name, hname, h⟩ := bind_eq_ok.1 h
  obtain ⟨_, hmove, h⟩ := bind_eq_ok.1 h
  obtain ⟨_, hconnector, h⟩ := bind_eq_ok.1 h
  obtain ⟨before, hbefore, h⟩ := bind_eq_ok.1 h
  obtain ⟨row, hrow, h⟩ := bind_eq_ok.1 h
  obtain ⟨_, hcheck, h⟩ := bind_eq_ok.1 h
  obtain ⟨after, hafter, h⟩ := bind_eq_ok.1 h
  obtain ⟨_, hrefused, h⟩ := bind_eq_ok.1 h
  obtain ⟨_, hreach, h⟩ := bind_eq_ok.1 h
  cases h
  rw [Db.fetchOne_eq_ok] at hrow
  have happly : (Move.folder id input).apply db name =
      { db with folders := db.folders.insert id (input.apply name row) } := by
    simp only [Move.apply, HashMap.modify, hrow]
  have hbegun : (Flight.loading subject (.folder id input)
      { todo := [], objects := db.objects, now := clock, grants := db.grantList }).statement db
        clock = .ok (db, some (.begun subject (.folder id input) (db.catalog clock) name)) := by
    have hchecked : (Move.folder id input).check db (db.catalog clock) subject = .ok name := by
      simp only [Move.check, hmanage, hname, hmove, hconnector]
      rfl
    show (Move.folder id input).check db (db.catalog clock) subject >>= _ = _
    rw [hchecked]
    rfl
  have hcounted : (Flight.begun subject (.folder id input) (db.catalog clock) name).statement db
      clock = .ok (db, some (.counted subject id input (db.catalog clock) name before)) := by
    simp only [Flight.statement, hbefore]
    rfl
  have hupdated : (Flight.counted subject id input (db.catalog clock) name before).statement db
      clock = .ok (db, some (.updated subject id input (db.catalog clock) name before)) := by
    simp only [Flight.statement, Move.constraints, hrow, Option.elim_some, hcheck]
    rfl
  have hcompared : (Flight.updated subject id input (db.catalog clock) name before).statement db
      clock = .ok (db, some (.compared id input name ((Db.retargeted before after).map (·.id)))) := by
    simp only [Flight.statement, happly, hafter]
    show refuse _ _ >>= _ = _
    rw [hrefused]
    rfl
  have hsettled : (Flight.compared id input name ((Db.retargeted before after).map (·.id))).statement
      db clock = .ok (db, some (.settled (.folder id input) name
        ((Db.retargeted before after).map (·.id)))) := by
    simp only [Flight.statement, happly]
    rw [hreach]
    rfl
  show Run.run World.step (alone db clock k (.loading subject (.folder id input) {}))
    (List.replicate (6 + 7) (.next k)) = _
  rw [run_load, List.replicate_succ, run_alone hbegun, List.replicate_succ, run_alone hcounted,
    List.replicate_succ, run_alone hupdated, List.replicate_succ, run_alone hcompared,
    List.replicate_succ, run_alone hsettled, List.replicate_one, Run.run, step_alone]
  simp only [Flight.statement, happly]
  rfl

end

end Moves

/-! ## A move and the trees -/

section
variable {ρ : Type} {t : Table ρ} {parent : ρ → Option Uuid} {g : ρ → ρ} {id : Uuid}
  {next : Option (Option Uuid)}

/-- The links of a table's rows. -/
def links (t : Table ρ) (parent : ρ → Option Uuid) (x : Uuid) : Option Uuid :=
  (t.lookup x).bind parent

theorem links_modify_ne {x : Uuid} (hx : x ≠ id) :
    links t parent x = links (t.modify id g) parent x := by
  unfold links
  rw [HashMap.lookup_modify, if_neg hx]

theorem links_modify_self (hg : ∀ row, parent (g row) = next.getD (parent row)) (hmem : id ∈ t) :
    links (t.modify id g) parent id = next.getD (links t parent id) := by
  obtain ⟨row, hrow⟩ := Option.isSome_iff_exists.1 (AList.lookup_isSome.2 hmem)
  unfold links
  rw [HashMap.lookup_modify, if_pos rfl, hrow]
  exact hg row

theorem links_modify_absent (hmem : id ∉ t) :
    links (t.modify id g) parent id = links t parent id := by
  unfold links
  rw [HashMap.lookup_modify, if_pos rfl, AList.lookup_eq_none.2 hmem]
  rfl

theorem acyclic_modify_iff (hg : ∀ row, parent (g row) = next.getD (parent row))
    (h : Chain.Acyclic (links t parent)) :
    Chain.Acyclic (links (t.modify id g) parent) ↔
      ¬(id ∈ t ∧ ∃ p, next.join = some p ∧ Chain.Above (links t parent) p id) :=
  Chain.acyclic_iff_of_changed h (fun _ hy => links_modify_ne hy) links_modify_absent
    (links_modify_self hg)

theorem loop_of_modify (hg : ∀ row, parent (g row) = next.getD (parent row)) (hmem : id ∈ t)
    {p : Uuid} (hp : next.join = some p) (habove : Chain.Above (links t parent) p id) :
    Chain.StrictlyAbove (links (t.modify id g) parent) id id := by
  refine Chain.strictlyAbove_iff.2 ⟨p, ?_, Chain.Above.of_agree (fun y hy => links_modify_ne hy) habove⟩
  rw [links_modify_self hg hmem]
  cases next with
  | none => cases hp
  | some link => exact hp

end

namespace Move

/-- The moved row is there, and its new parent is within it. -/
def closesLoop (db : Db) (now : Int) : Move → Bool
  | .folder id change =>
    decide (id ∈ db.folders) && change.parentId.join.any ((db.catalog now).isWithin · id)
  | .collection id change =>
    decide (id ∈ db.collections) &&
      change.parentId.join.any ((db.catalog now).isWithinCollection · id)

theorem folder_closesLoop_eq_false {now : Int} {id : Uuid} {change : FolderChange} :
    (Move.folder id change).closesLoop db now = false ↔
      ¬(id ∈ db.folders ∧ ∃ p, change.parentId.join = some p ∧ Chain.Above db.folderParent p id) := by
  unfold closesLoop
  rw [← Bool.not_eq_true]
  simp only [Bool.and_eq_true, decide_eq_true_eq, Option.any_eq_true, Db.isWithin_iff]

theorem collection_closesLoop_eq_false {now : Int} {id : Uuid} {change : CollectionChange} :
    (Move.collection id change).closesLoop db now = false ↔
      ¬(id ∈ db.collections ∧
        ∃ p, change.parentId.join = some p ∧ Chain.Above db.collectionParent p id) := by
  unfold closesLoop
  rw [← Bool.not_eq_true]
  simp only [Bool.and_eq_true, decide_eq_true_eq, Option.any_eq_true, Db.isWithinCollection_iff]

/-- **One move**: the trees stay trees exactly if it closes no loop. -/
theorem acyclic_apply_iff (now : Int) (name : Option String) (move : Move) (h : db.Acyclic) :
    (move.apply db name).Acyclic ↔ move.closesLoop db now = false := by
  cases move with
  | folder id change =>
    have hiff : Chain.Acyclic ((Move.folder id change).apply db name).folderParent ↔ _ :=
      acyclic_modify_iff (g := change.apply name) (fun _ => rfl) h.1
    rw [folder_closesLoop_eq_false]
    exact ⟨fun h' => hiff.1 h'.1, fun h' => ⟨hiff.2 h', h.2⟩⟩
  | collection id change =>
    have hiff : Chain.Acyclic ((Move.collection id change).apply db name).collectionParent ↔ _ :=
      acyclic_modify_iff (g := change.apply name) (fun _ => rfl) h.2
    rw [collection_closesLoop_eq_false]
    exact ⟨fun h' => hiff.1 h'.2, fun h' => ⟨h.1, hiff.2 h'⟩⟩

/-- `devices_below` of the moved folder only ends if the move closed no loop. -/
theorem not_closesLoop_of_devicesBelow {now : Int} {name : Option String} {id : Uuid}
    {change : FolderChange} {list : List Db.Reached}
    (h : ((Move.folder id change).apply db name).devicesBelow id = .ok list) :
    (Move.folder id change).closesLoop db now = false := by
  rw [folder_closesLoop_eq_false]
  intro hcloses
  obtain ⟨hmem, p, hp, habove⟩ := hcloses
  obtain ⟨below, hbelow, -⟩ := bind_eq_ok.1 h
  rw [Db.ends_eq_ok] at hbelow
  have hmem' : id ∈ ((Move.folder id change).apply db name).folders :=
    (HashMap.mem_modify db.folders id id (change.apply name)).2 hmem
  have hloop : Chain.StrictlyAbove ((Move.folder id change).apply db name).folderParent id id :=
    loop_of_modify (g := change.apply name) (fun _ => rfl) hmem hp habove
  rw [Db.foldersBelow_of_loop hmem' hloop] at hbelow
  cases hbelow

end Move

/-! ## Runs -/

/-- The move that the next statement reads in the tree or commits. -/
def Flight.exposes : Flight → Option Move
  | .updated _ id change _ _ _ => some (.folder id change)
  | .settled move _ _ => some move
  | _ => none

namespace Moves

variable {w w' : World}

/-- The move the next statement reads or commits closes no loop in what is committed by now. -/
def World.fresh (w : World) : Event → Bool
  | .next k => !((w.flights.lookup k).bind Flight.exposes).any (·.closesLoop w.db w.clock)
  | _ => true

theorem fresh_next_iff {k : Nat} {f : Flight} (hf : w.flights.lookup k = some f) :
    w.fresh (.next k) = true ↔
      ∀ move, f.exposes = some move → move.closesLoop w.db w.clock = false := by
  simp only [World.fresh, hf, Option.bind_some, Bool.not_eq_true']
  cases f.exposes <;> simp

/-- Only a commit writes. -/
theorem statement_ok {clock : Int} {f : Flight} {db' : Db} {f' : Option Flight}
    (h : f.statement db clock = .ok (db', f')) :
    db' = db ∨
      ∃ move name ids, f = .settled move name ids ∧ db' = (move.apply db name).forgetPins ids := by
  cases f with
  | settled move name ids =>
    cases h
    exact .inr ⟨move, name, ids, rfl, rfl⟩
  | loading subject move l =>
    simp only [Flight.statement] at h
    split at h
    · cases h
      exact .inl rfl
    · obtain ⟨_, -, h⟩ := bind_eq_ok.1 h
      cases h
      exact .inl rfl
  | begun subject move catalog name =>
    cases move with
    | folder id change =>
      obtain ⟨_, -, h⟩ := bind_eq_ok.1 h
      cases h
      exact .inl rfl
    | collection id change =>
      obtain ⟨_, -, h⟩ := bind_eq_ok.1 h
      cases h
      exact .inl rfl
  | counted subject id change catalog name before =>
    obtain ⟨_, -, h⟩ := bind_eq_ok.1 h
    cases h
    exact .inl rfl
  | updated subject id change catalog name before =>
    obtain ⟨_, -, h⟩ := bind_eq_ok.1 h
    obtain ⟨_, -, h⟩ := bind_eq_ok.1 h
    cases h
    exact .inl rfl
  | compared id change name retargeted =>
    obtain ⟨_, -, h⟩ := bind_eq_ok.1 h
    cases h
    exact .inl rfl

/-- What a statement that ends has read is no loop. -/
theorem closesLoop_of_ends {clock : Int} {f : Flight} {move : Move}
    (h : Ends (f.statement db clock)) (hmove : f.exposes = some move)
    (hf : ∀ name ids, f ≠ .settled move name ids) : move.closesLoop db clock = false := by
  cases f with
  | updated subject id change catalog name before =>
    cases hmove
    cases hafter : ((Move.folder id change).apply db name).devicesBelow id with
    | ok after => exact Move.not_closesLoop_of_devicesBelow hafter
    | error e =>
      cases Db.endless_of_devicesBelow hafter
      refine absurd ?_ h
      simp only [Flight.statement, hafter]
      rfl
  | settled move' name ids =>
    cases hmove
    exact absurd rfl (hf name ids)
  | loading _ _ _ => cases hmove
  | begun _ _ _ _ => cases hmove
  | counted _ _ _ _ _ _ => cases hmove
  | compared _ _ _ _ => cases hmove

/-- A statement that was run has ended, and what it left is committed. -/
theorem next_ok {k : Nat} {f : Flight} (h : w.next k f = some w') :
    Ends (f.statement w.db w.clock) ∧
      (w'.db = w.db ∨ ∃ f', f.statement w.db w.clock = .ok (w'.db, f')) := by
  unfold World.next at h
  split at h
  · cases h
  · cases hs : f.statement w.db w.clock with
    | error e =>
      rw [hs] at h
      cases e with
      | problem p =>
        cases h
        exact ⟨nofun, .inl rfl⟩
      | endless => cases h
    | ok result =>
      obtain ⟨db', f'⟩ := result
      rw [hs] at h
      cases f' with
      | none =>
        cases h
        exact ⟨.ok _, .inr ⟨none, rfl⟩⟩
      | some f' =>
        cases h
        exact ⟨.ok _, .inr ⟨some f', rfl⟩⟩

/-- What the next statement of a request leaves of the trees. -/
theorem next_cases {k : Nat} {f : Flight} (hf : w.flights.lookup k = some f)
    (h : w.next k f = some w') :
    (w'.db = w.db ∧ w.fresh (.next k) = true) ∨
      ∃ move name ids, f = .settled move name ids ∧
        w'.db = (move.apply w.db name).forgetPins ids := by
  obtain ⟨hends, hdb⟩ := next_ok h
  by_cases hsettled : ∃ move name ids, f = .settled move name ids
  · obtain ⟨move, name, ids, rfl⟩ := hsettled
    cases h
    exact .inr ⟨move, name, ids, rfl, rfl⟩
  · refine .inl ⟨?_, ?_⟩
    · rcases hdb with hdb | ⟨f', hs⟩
      · exact hdb
      · rcases statement_ok hs with hdb | ⟨move, name, ids, hs, -⟩
        · exact hdb
        · exact absurd ⟨move, name, ids, hs⟩ hsettled
    · rw [fresh_next_iff hf]
      intro move hm
      exact closesLoop_of_ends hends hm fun name ids hs => hsettled ⟨move, name, ids, hs⟩

/-- What a step leaves of the trees. -/
theorem step_cases {e : Event} (h : w.step e = some w') :
    (w'.db.folders = w.db.folders ∧ w'.db.collections = w.db.collections ∧ w.fresh e = true) ∨
      ∃ k move name ids, e = .next k ∧ w.flights.lookup k = some (.settled move name ids) ∧
        w'.db = (move.apply w.db name).forgetPins ids := by
  cases e with
  | start k subject move =>
    simp only [World.step] at h
    split at h
    · cases h
    · cases h
      exact .inl ⟨rfl, rfl, rfl⟩
  | tick clock =>
    cases h
    exact .inl ⟨rfl, rfl, rfl⟩
  | elsewhere devices credentials profiles grants connectors secretFields =>
    cases h
    exact .inl ⟨rfl, rfl, rfl⟩
  | next k =>
    obtain ⟨f, hf, h⟩ := Option.bind_eq_some_iff.1 h
    rcases next_cases hf h with ⟨hdb, hfresh⟩ | ⟨move, name, ids, rfl, hdb⟩
    · exact .inl ⟨by rw [hdb], by rw [hdb], hfresh⟩
    · exact .inr ⟨k, move, name, ids, rfl, hf, hdb⟩

theorem acyclic_congr {db' : Db} (hfolders : db'.folders = db.folders)
    (hcollections : db'.collections = db.collections) : db'.Acyclic ↔ db.Acyclic := by
  unfold Db.Acyclic Db.folderParent Db.collectionParent
  rw [hfolders, hcollections]

/-- **One step**: trees stay trees exactly if the step is fresh. -/
theorem fresh_iff_acyclic {e : Event} (h : w.step e = some w') (hi : w.db.Acyclic) :
    w.fresh e = true ↔ w'.db.Acyclic := by
  rcases step_cases h with ⟨hfolders, hcollections, hfresh⟩ | ⟨k, move, name, ids, rfl, hf, hdb⟩
  · rw [acyclic_congr hfolders hcollections]
    exact ⟨fun _ => hi, fun _ => hfresh⟩
  · have hpins : w'.db.Acyclic ↔ (move.apply w.db name).Acyclic := by
      rw [hdb]
      exact acyclic_congr rfl rfl
    rw [hpins, Move.acyclic_apply_iff w.clock name move hi]
    rw [fresh_next_iff hf]
    simp [Flight.exposes]

/-- A fresh statement ends. -/
theorem not_stalls {k : Nat} (hi : w.db.Acyclic) (hfresh : w.fresh (.next k) = true) :
    ¬w.Stalls k := by
  intro hstalls
  obtain ⟨f, hf, hendless⟩ := hstalls
  refine absurd hendless (show Ends _ from ?_)
  cases f with
  | loading subject move l =>
    simp only [Flight.statement]
    split
    · exact .ok _
    · exact (Ends.check move).bind fun _ => .ok _
  | begun subject move catalog name =>
    cases move with
    | folder id change => exact (Ends.devicesBelow hi.1 id).bind fun _ => .ok _
    | collection id change => exact (Ends.constraints _).bind fun _ => .ok _
  | counted subject id change catalog name before =>
    exact (Ends.constraints _).bind fun _ => .ok _
  | updated subject id change catalog name before =>
    have hno : (Move.folder id change).closesLoop w.db w.clock = false :=
      (fresh_next_iff hf).1 hfresh _ rfl
    have hview := (Move.acyclic_apply_iff w.clock name _ hi).2 hno
    exact (Ends.devicesBelow hview.1 id).bind fun _ => Ends.refuse.bind fun _ => .ok _
  | compared id change name retargeted => exact Ends.refuse.bind fun _ => .ok _
  | settled move name retargeted => exact .ok _

/-- **Trees stay trees** over a run exactly if every commit, and every query after an `UPDATE`, still
finds the new parent outside the moved folder; then the recursive queries end, in what is committed
and in the next statement of every request. -/
theorem trees_stay_trees (start w : World) (es : List Event) (hstart : start.db.Acyclic)
    (hrun : Run.run World.step start es = some w) :
    (Run.Meets World.step (fun w e => w.fresh e = true) start es ↔
        ∀ u, Run.Visits World.step start es u → u.db.Acyclic) ∧
      (Run.Meets World.step (fun w e => w.fresh e = true) start es →
        (∀ folder, (w.db.folderConnector folder).isSome ∧ (w.db.foldersBelow folder).isSome ∧
          (w.db.foldersUp folder).isSome) ∧
        ∀ k, w.fresh (.next k) = true → ¬w.Stalls k) := by
  have hiff := Run.meets_iff_visits (C := fun w e => w.fresh e = true) (I := fun w => w.db.Acyclic)
    (fun t e t' hs hi => fresh_iff_acyclic hs hi) hstart hrun
  refine ⟨hiff, fun hm => ?_⟩
  have hw : w.db.Acyclic := hiff.1 hm w (.last hrun)
  refine ⟨fun folder => ⟨?_, ?_, ?_⟩, fun k hk => not_stalls hw hk⟩
  · exact Db.folderConnector_isSome hw.1 folder
  · exact Db.foldersBelow_isSome hw.1 folder
  · exact Db.foldersUp_isSome folder

/-! ## Moves that cross -/

/-- Two folders, `1` and `3`, with one folder in each, and two collections. -/
def sites : World where
  db := {
    folders := .collect
      [(1, { parentId := none, name := "North", connectorId := none }),
        (2, { parentId := some 1, name := "Lab", connectorId := none }),
        (3, { parentId := none, name := "South", connectorId := none }),
        (4, { parentId := some 3, name := "Lab", connectorId := none })]
    collections := .collect
      [(5, { parentId := none, name := "Routers" }), (6, { parentId := none, name := "Switches" })] }

theorem sites_acyclic : sites.db.Acyclic := by
  have hfolders : ∀ e ∈ sites.db.folders.entries,
      e.2.parentId.all (fun p => decide (p.toNat < e.1.toNat)) = true := by decide
  have hcollections : ∀ e ∈ sites.db.collections.entries, e.2.parentId = none := by decide
  constructor
  · refine Chain.Acyclic.of_lt BitVec.toNat fun x y hxy => ?_
    obtain ⟨row, hrow, hp⟩ := Option.bind_eq_some_iff.1 hxy
    have hlt := hfolders ⟨x, row⟩ (HashMap.lookup_eq_some.1 hrow)
    rw [hp] at hlt
    simpa using hlt
  · refine Chain.Acyclic.of_lt BitVec.toNat fun x y hxy => ?_
    obtain ⟨row, hrow, hp⟩ := Option.bind_eq_some_iff.1 hxy
    have hnone := hcollections ⟨x, row⟩ (HashMap.lookup_eq_some.1 hrow)
    rw [hp] at hnone
    cases hnone

/-- Two administrators, statement by statement in turn. -/
def inTurn (first second : Move) : List Event :=
  [.start 0 ⟨∅, true⟩ first, .start 1 ⟨∅, true⟩ second] ++
    (List.replicate 13 [.next 0, .next 1]).flatten

/-- A folder moves into another one while one of its folders moves out. -/
theorem trees_stay_trees_two_moves :
    ∃ w, Run.run World.step sites (inTurn (.folder 1 { parentId := some (some 4) })
        (.folder 2 { parentId := some none })) = some w ∧
      w.db.folderParent 1 = some 4 ∧ w.db.folderParent 2 = none ∧ w.db.Acyclic := by
  have hrun : (Run.run World.step sites (inTurn (.folder 1 { parentId := some (some 4) })
      (.folder 2 { parentId := some none }))).map
        (fun w => (w.db.folderParent 1, w.db.folderParent 2)) = some (some 4, none) := by
    decide +kernel
  obtain ⟨w, hw, hparents⟩ := Option.map_eq_some_iff.1 hrun
  have hfresh : Run.Meets World.step (fun w e => w.fresh e = true) sites
      (inTurn (.folder 1 { parentId := some (some 4) }) (.folder 2 { parentId := some none })) := by
    decide +kernel
  rw [Prod.mk.injEq] at hparents
  exact ⟨w, hw, hparents.1, hparents.2,
    (trees_stay_trees sites w _ sites_acyclic hw).1.1 hfresh w (.last hw)⟩

/-- `1` goes below `4` while `3` goes below `2`, and one collection into the other and back: every
request is checked before the first one commits, and no request changes a row another one needs. -/
theorem crossing_moves :
    sites.db.Acyclic ∧
      (∃ w, Run.run World.step sites (inTurn (.folder 1 { parentId := some (some 4) })
          (.folder 3 { parentId := some (some 2) })) = some w ∧
        ¬w.db.Acyclic ∧ w.db.folderConnector 1 = none ∧ w.db.foldersBelow 1 = none) ∧
      ∃ w, Run.run World.step sites
          ([.start 0 ⟨∅, true⟩ (.collection 5 { parentId := some (some 6) }),
            .start 1 ⟨∅, true⟩ (.collection 6 { parentId := some (some 5) })] ++
            (List.replicate 8 [.next 0, .next 1]).flatten ++
            [.next 0, .next 0, .next 1, .next 1]) = some w ∧
        ¬w.db.Acyclic := by
  refine ⟨sites_acyclic, ?_, ?_⟩
  · have hrun : (Run.run World.step sites (inTurn (.folder 1 { parentId := some (some 4) })
        (.folder 3 { parentId := some (some 2) }))).map
          (fun w => (w.db.folderConnector 1, w.db.foldersBelow 1)) = some (none, none) := by
      decide +kernel
    obtain ⟨w, hw, hends⟩ := Option.map_eq_some_iff.1 hrun
    rw [Prod.mk.injEq] at hends
    refine ⟨w, hw, fun hacyclic => ?_, hends⟩
    have hsome := Db.folderConnector_isSome hacyclic.1 1
    rw [hends.1] at hsome
    cases hsome
  · have hrun : (Run.run World.step sites
        ([.start 0 ⟨∅, true⟩ (.collection 5 { parentId := some (some 6) }),
          .start 1 ⟨∅, true⟩ (.collection 6 { parentId := some (some 5) })] ++
          (List.replicate 8 [.next 0, .next 1]).flatten ++
          [.next 0, .next 0, .next 1, .next 1])).map
          (fun w => (w.db.collectionParent 5, w.db.collectionParent 6)) = some (some 6, some 5) := by
      decide
    obtain ⟨w, hw, hparents⟩ := Option.map_eq_some_iff.1 hrun
    rw [Prod.mk.injEq] at hparents
    refine ⟨w, hw, fun hacyclic => hacyclic.2 5 ?_⟩
    refine Chain.strictlyAbove_iff.2 ⟨6, hparents.1, ?_⟩
    exact Relation.ReflTransGen.single hparents.2

end Moves

end Server
