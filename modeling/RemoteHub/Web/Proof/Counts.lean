import RemoteHub.Web.Items
import RemoteHub.Web.Proof.Remember

/-!
# The sidebar's counts and the lists

`below` follows every node of an id (`Linked`), the counts the last one (`lastParent`): where ids are distinct
these are the same. `Recent` is cut to the twenty keys used most for the count, and for the list also to as
many keys as there are items.
-/

namespace Web.Items

open Rank (Pick Tables frequent addTo worth plainTables)
open Relation Chain

variable {Id : Type} [DecidableEq Id] {nodes : List (TreeNode Id)} {inside : List Id} {a b x : Id}

/-! ## What lies below -/

/-- A node `a` has the parent `b`. -/
def Linked (nodes : List (TreeNode Id)) (a b : Id) : Prop := ∃ node ∈ nodes, node.id = a ∧ node.parentId = some b

/-- The parent of the last node `a`. -/
def lastParent (nodes : List (TreeNode Id)) (a : Id) : Option Id :=
  (nodes.reverse.find? (·.id = a)).bind (·.parentId)

theorem linked_of_lastParent (h : lastParent nodes a = some b) : Linked nodes a b := by
  obtain ⟨node, hfind, hparent⟩ := Option.bind_eq_some_iff.1 h
  exact ⟨node, List.mem_reverse.1 (List.mem_of_find?_eq_some hfind), by simpa using List.find?_some hfind, hparent⟩

theorem linked_iff_of_nodup (hids : (nodes.map (·.id)).Nodup) : Linked nodes a b ↔ lastParent nodes a = some b := by
  refine ⟨?_, linked_of_lastParent⟩
  rintro ⟨node, hnode, rfl, hparent⟩
  rw [lastParent]
  cases hfind : nodes.reverse.find? (·.id = node.id) with
  | none => simpa using List.find?_eq_none.1 hfind node (List.mem_reverse.2 hnode)
  | some other =>
    have hother : other ∈ nodes := List.mem_reverse.1 (List.mem_of_find?_eq_some hfind)
    have hid : other.id = node.id := by simpa using List.find?_some hfind
    rw [List.inj_on_of_nodup_map hids hother hnode hid]
    exact hparent

theorem above_lastParent (h : Above (lastParent nodes) a b) : ReflTransGen (Linked nodes) a b :=
  ReflTransGen.mono (fun _ _ hstep => linked_of_lastParent hstep) a b h

theorem above_lastParent_iff (hids : (nodes.map (·.id)).Nodup) :
    Above (lastParent nodes) a b ↔ ReflTransGen (Linked nodes) a b :=
  ⟨above_lastParent, ReflTransGen.mono (fun _ _ hstep => (linked_iff_of_nodup hids).1 hstep) a b⟩

/-- A round finds what lies directly below. -/
theorem mem_grow_of_linked (h : Linked nodes a b) (hb : b ∈ inside) : a ∈ grow nodes inside := by
  obtain ⟨node, hnode, rfl, hparent⟩ := h
  have hkeep : ∀ (todo : List (TreeNode Id)) (now : List Id), ∀ y ∈ now, y ∈ grow todo now := by
    intro todo now y hy
    obtain ⟨new, hgrow, -⟩ := exists_grow todo now
    rw [hgrow]
    exact List.mem_append_left _ hy
  obtain ⟨before, after, rfl⟩ := List.append_of_mem hnode
  have hsplit : grow (before ++ node :: after) inside = grow after (grow [node] (grow before inside)) := by
    rw [grow, List.foldl_append]
    rfl
  rw [hsplit]
  refine hkeep _ _ _ ?_
  have hin : b ∈ grow before inside := hkeep _ _ _ hb
  rw [grow, List.foldl_cons, List.foldl_nil, hparent]
  split
  · exact List.mem_append_right _ (List.mem_singleton.2 rfl)
  · rename_i hnot
    by_contra hnew
    exact hnot ⟨by simpa using hin, hnew⟩

theorem of_mem_grow (h : a ∈ grow nodes inside) : ∃ y ∈ inside, ReflTransGen (Linked nodes) a y := by
  have hloop : ∀ (todo : List (TreeNode Id)) (now : List Id), (∀ node ∈ todo, node ∈ nodes) →
      (∀ z ∈ now, ∃ y ∈ inside, ReflTransGen (Linked nodes) z y) →
      ∀ z ∈ grow todo now, ∃ y ∈ inside, ReflTransGen (Linked nodes) z y := by
    intro todo
    induction todo with
    | nil => exact fun now _ hnow => hnow
    | cons node todo ih =>
      intro now htodo hnow
      rw [List.forall_mem_cons] at htodo
      rw [grow, List.foldl_cons]
      split
      · rename_i hadd
        refine ih _ htodo.2 fun z hz => ?_
        rcases List.mem_append.1 hz with hz | hz
        · exact hnow z hz
        · obtain ⟨p, hp, hin⟩ := (Option.any_eq_true _ _).1 hadd.1
          obtain ⟨y, hy, hpy⟩ := hnow p (of_decide_eq_true hin)
          refine ⟨y, hy, ReflTransGen.head ⟨node, htodo.1, (List.mem_singleton.1 hz).symm, hp⟩ hpy⟩
      · exact ih now htodo.2 hnow
  exact hloop nodes inside (fun _ h => h) (fun z hz => ⟨z, hz, .refl⟩) a h

theorem mem_belowFrom : x ∈ belowFrom nodes inside ↔ ∃ y ∈ inside, ReflTransGen (Linked nodes) x y := by
  fun_induction belowFrom nodes inside with
  | case1 inside _ ih =>
    rw [ih]
    constructor
    · rintro ⟨y, hy, hxy⟩
      obtain ⟨z, hz, hyz⟩ := of_mem_grow hy
      exact ⟨z, hz, hxy.trans hyz⟩
    · rintro ⟨y, hy, hxy⟩
      obtain ⟨new, hgrow, -⟩ := exists_grow nodes inside
      exact ⟨y, hgrow ▸ List.mem_append_left _ hy, hxy⟩
  | case2 inside hstop =>
    refine ⟨fun hx => ⟨x, hx, .refl⟩, ?_⟩
    rintro ⟨y, hy, hxy⟩
    -- a round without growth has everything below
    obtain ⟨new, hgrow, -⟩ := exists_grow nodes inside
    have hnew : new = [] := by
      rw [hgrow, List.length_append] at hstop
      exact List.length_eq_zero_iff.1 (by omega)
    rw [hnew, List.append_nil] at hgrow
    induction hxy using ReflTransGen.head_induction_on with
    | refl => exact hy
    | head hlink _ ih =>
      rw [← hgrow]
      exact mem_grow_of_linked hlink ih

/-- **`below` is what the links lead up from.** -/
theorem mem_below {id : Id} : x ∈ below nodes id ↔ ReflTransGen (Linked nodes) x id := by
  rw [below, mem_belowFrom]
  simp

/-! ## The counts -/

section
variable {folders collections : List (TreeNode Id)} {items : List (Item Id)}

/-- The nodes of one side. -/
def nodesOf (folders collections : List (TreeNode Id)) : Side → List (TreeNode Id)
  | .personal => folders
  | .shared => collections

theorem lookup_rows_eq [BEq (Side × Id)] [LawfulBEq (Side × Id)] (side side' : Side)
    (nodes : List (TreeNode Id)) (x : Id) :
    (nodes.map fun n => ((side, n.id), n.parentId.map (side, ·))).lookup (side', x) =
      if side = side' then (nodes.find? (·.id = x)).map (fun n => n.parentId.map (side, ·)) else none := by
  induction nodes with
  | nil => split <;> rfl
  | cons node nodes ih =>
    rw [List.map_cons, List.lookup_cons, ih, List.find?_cons]
    by_cases hside : side = side'
    · subst hside
      by_cases hid : node.id = x
      · simp [hid]
      · have hne : ((side, x) == (side, node.id)) = false := by
          rw [beq_eq_false_iff_ne]
          exact fun h => hid (congrArg Prod.snd h).symm
        rw [hne]
        simp [hid]
    · have hne : ((side', x) == (side, node.id)) = false := by
        rw [beq_eq_false_iff_ne]
        exact fun h => hside (congrArg Prod.fst h).symm
      rw [hne]
      simp [hside]

theorem lookup_parents (folders collections : List (TreeNode Id)) (side : Side) (x : Id) :
    ((parents folders collections).lookup (side, x)).join =
      (lastParent (nodesOf folders collections side) x).map (side, ·) := by
  let _ : BEq (Side × Id) := instBEqOfDecidableEq
  rw [parents, HashMap.lookup_collect, List.reverse_append, List.lookup_append, ← List.map_reverse,
    ← List.map_reverse, lookup_rows_eq, lookup_rows_eq]
  cases side with
  | personal =>
    simp only [reduceCtorEq, if_false, Option.none_or, if_true, lastParent, nodesOf]
    cases folders.reverse.find? (·.id = x) <;> rfl
  | shared =>
    simp only [reduceCtorEq, if_false, Option.or_none, if_true, lastParent, nodesOf]
    cases collections.reverse.find? (·.id = x) <;> rfl

/-- Where an item lies, as the counts have it. -/
def Place.start : Place Id → Option (Side × Id)
  | .personal folder => folder.map (.personal, ·)
  | .shared collection => some (.shared, collection)

theorem pathOf_spec (parent : HashMap (Side × Id) (Option (Side × Id))) (item : Item Id) :
    (pathOf parent item).Nodup ∧ ∀ y, y ∈ pathOf parent item ↔
      ∃ x, item.place.start = some x ∧ Above (fun x => (parent.lookup x).join) x y := by
  have hstart : pathOf parent item = (Chain.walk (fun x => (parent.lookup x).join) (parent.keys.length + 1) [] ∅
      item.place.start).getD [] := by
    unfold pathOf Place.start
    cases item.place <;> rfl
  have hends : (Chain.walk (fun x => (parent.lookup x).join) (parent.keys.length + 1) [] ∅
      item.place.start).isSome := by
    refine walk_isSome parent.keys.toFinset (fun x hx => ?_) ?_
    · rw [List.mem_toFinset]
      cases hlookup : parent.lookup x with
      | none => simp [hlookup] at hx
      | some p => exact AList.mem_keys.1 (AList.lookup_isSome.1 (by rw [hlookup]; rfl))
    · rw [Finset.sdiff_empty]
      exact Nat.succ_le_succ (List.toFinset_card_le _)
  obtain ⟨out, hout⟩ := Option.isSome_iff_exists.1 hends
  rw [hstart, hout, Option.getD_some]
  refine ⟨nodup_walk (fun x hx => absurd hx List.not_mem_nil) .nil hout, fun y => ?_⟩
  rw [mem_walk (fun x hx => absurd hx (Finset.notMem_empty x)) (fun x hx => absurd hx (Finset.notMem_empty x)) hout]
  simp

/-- **A folder or collection counts the items from which the parents lead to it.** -/
theorem mem_pathOf (item : Item Id) (side : Side) (id : Id) :
    (side, id) ∈ pathOf (parents folders collections) item ↔
      ∃ x, item.place.start = some (side, x) ∧ Above (lastParent (nodesOf folders collections side)) x id := by
  rw [(pathOf_spec _ item).2]
  constructor
  · rintro ⟨⟨side', x⟩, hstart, habove⟩
    obtain ⟨y, hy, habove⟩ := (above_map (e := (side', ·)) (lookup_parents folders collections side')).1 habove
    cases hy
    exact ⟨x, hstart, habove⟩
  · rintro ⟨x, hstart, habove⟩
    exact ⟨(side, x), hstart,
      (above_map (e := (side, ·)) (lookup_parents folders collections side)).2 ⟨id, rfl, habove⟩⟩

theorem lookup_count (path : List (Side × Id)) (counts : HashMap (Side × Id) Nat) (k : Side × Id) :
    ((path.foldl (fun counts x => counts.insert x ((counts.lookup x).getD 0 + 1)) counts).lookup k).getD 0 =
      (counts.lookup k).getD 0 + path.count k := by
  induction path generalizing counts with
  | nil => rfl
  | cons x path ih =>
    rw [List.foldl_cons, ih, HashMap.lookup_insert_eq, List.count_cons]
    by_cases hk : k = x
    · subst hk
      simp
      omega
    · simp [hk, Ne.symm hk]

theorem lookup_within (parent : HashMap (Side × Id) (Option (Side × Id))) (items : List (Item Id)) (k : Side × Id) :
    ((within parent items).lookup k).getD 0 = items.countP fun item => !item.deleted && k ∈ pathOf parent item := by
  have hloop : ∀ counts : HashMap (Side × Id) Nat, ((items.foldl (fun within item =>
      if item.deleted then within
      else (pathOf parent item).foldl (fun within x => within.insert x ((within.lookup x).getD 0 + 1)) within)
      counts).lookup k).getD 0 =
        (counts.lookup k).getD 0 + items.countP fun item => !item.deleted && k ∈ pathOf parent item := by
    induction items with
    | nil => exact fun counts => rfl
    | cons item items ih =>
      intro counts
      rw [List.foldl_cons, ih, List.countP_cons]
      cases hdeleted : item.deleted with
      | true => simp
      | false =>
        simp only [Bool.false_eq_true, if_false, lookup_count, (pathOf_spec parent item).1.count, Bool.not_false,
          Bool.true_and, decide_eq_true_eq]
        omega
  exact (hloop ∅).trans (by simp)

end

/-! ## Use -/

section
variable {R : Type}

theorem keys_addTo [Add R] [Zero R] (key : JsString) (more : R) (total : List (JsString × R)) (x : JsString) :
    x ∈ (addTo key more total).map (·.1) ↔ x = key ∨ x ∈ total.map (·.1) := by
  induction total with
  | nil => simp [addTo]
  | cons entry total ih =>
    rw [addTo]
    split
    · rename_i hkey
      simp [hkey]
    · rw [List.map_cons, List.mem_cons, ih, List.map_cons, List.mem_cons]
      exact or_left_comm

theorem nodup_addTo [Add R] [Zero R] (key : JsString) (more : R) {total : List (JsString × R)}
    (h : (total.map (·.1)).Nodup) :
    ((addTo key more total).map (·.1)).Nodup := by
  induction total with
  | nil => exact List.nodup_singleton key
  | cons entry total ih =>
    rw [List.map_cons, List.nodup_cons] at h
    rw [addTo]
    split
    · rename_i hkey
      rw [List.map_cons, List.nodup_cons, ← hkey]
      exact h
    · rename_i hkey
      rw [List.map_cons, List.nodup_cons, keys_addTo, not_or]
      exact ⟨⟨hkey, h.1⟩, ih h.2⟩

/-- **The keys used most come from one list without repetition**, cut at the number asked for. -/
theorem exists_frequent [Field R] [LinearOrder R] (tables : Tables R) (picks : List Pick) (now : Int) :
    ∃ keys : List JsString, keys.Nodup ∧ ∀ count, frequent tables picks now count = keys.take count := by
  have htotal : ∀ (picks : List Pick) (total : List (JsString × R)), (total.map (·.1)).Nodup →
      ((picks.foldl (fun total pick => addTo pick.key (worth tables now pick) total) total).map (·.1)).Nodup := by
    intro picks
    induction picks with
    | nil => exact fun _ h => h
    | cons pick picks ih => exact fun total h => ih _ (nodup_addTo pick.key _ h)
  let total : List (JsString × R) := picks.foldl (fun total pick => addTo pick.key (worth tables now pick) total) []
  have hsorted := (List.perm_insertionSort (fun a b : JsString × R => b.2 ≤ a.2) total).map (·.1)
  refine ⟨_, hsorted.nodup_iff.2 (htotal picks [] .nil), fun count => ?_⟩
  rw [frequent, List.map_take]

/-- Of a list without repetition, what two cuts have in common. -/
theorem notMem_drop_iff {α : Type} {l : List α} (h : l.Nodup) {n : Nat} {x : α} (hx : x ∈ l) :
    x ∉ l.drop n ↔ x ∈ l.take n := by
  have hsplit := List.take_append_drop n l
  rw [← hsplit] at h hx
  constructor
  · exact fun hdrop => (List.mem_append.1 hx).resolve_right hdrop
  · exact fun htake hdrop => (List.nodup_append.1 h).2.2 x htake x hdrop rfl

end

/-! ## The counts and the lists -/

theorem countP_eq_iff {α : Type} {p q : α → Bool} {l : List α} (h : ∀ x ∈ l, p x = true → q x = true) :
    l.countP p = l.countP q ↔ ∀ x ∈ l, q x = true → p x = true := by
  induction l with
  | nil => simp
  | cons x l ih =>
    rw [List.forall_mem_cons] at h ⊢
    have hle := List.countP_mono_left h.2
    rw [List.countP_cons, List.countP_cons, ← ih h.2]
    cases hp : p x with
    | true =>
      rw [h.1 hp]
      simp
    | false =>
      cases hq : q x with
      | false => simp
      | true =>
        simp only [Bool.false_eq_true, if_false, if_true]
        constructor
        · intro heq
          omega
        · exact fun hall => (hall.1 trivial).elim

omit [DecidableEq Id] in
theorem start_personal {place : Place Id} : place.start = some (.personal, x) ↔ place = .personal (some x) := by
  cases place with
  | personal folder => cases folder <;> simp [Place.start]
  | shared collection => simp [Place.start]

omit [DecidableEq Id] in
theorem start_shared {place : Place Id} : place.start = some (.shared, x) ↔ place = .shared x := by
  cases place with
  | personal folder => cases folder <;> simp [Place.start]
  | shared collection => simp [Place.start]

/-- What is counted in a folder or collection is all that lies below it, or not. -/
theorem counted_iff (folders collections : List (TreeNode Id)) (items : List (Item Id)) (side : Side) (id : Id) :
    (items.countP fun item => !item.deleted && (side, id) ∈ pathOf (parents folders collections) item) =
      (items.countP fun item => !item.deleted && item.place.start.any fun place =>
        place.1 = side ∧ place.2 ∈ below (nodesOf folders collections side) id) ↔
      ∀ item ∈ items, item.deleted = false → ∀ x, item.place.start = some (side, x) →
        ReflTransGen (Linked (nodesOf folders collections side)) x id →
        Above (lastParent (nodesOf folders collections side)) x id := by
  rw [countP_eq_iff]
  · refine forall₂_congr fun item _ => ?_
    simp only [Bool.and_eq_true, Bool.not_eq_true', Option.any_eq_true, decide_eq_true_eq, mem_pathOf, mem_below]
    constructor
    · intro h hdeleted x hx hlinked
      obtain ⟨-, y, hy, habove⟩ := h ⟨hdeleted, (side, x), hx, rfl, hlinked⟩
      cases hx.symm.trans hy
      exact habove
    · rintro h ⟨hdeleted, ⟨side', x⟩, hx, rfl, hlinked⟩
      exact ⟨hdeleted, x, hx, h hdeleted x hx hlinked⟩
  · intro item _
    simp only [Bool.and_eq_true, Bool.not_eq_true', Option.any_eq_true, decide_eq_true_eq, mem_pathOf, mem_below]
    rintro ⟨hdeleted, x, hx, habove⟩
    exact ⟨hdeleted, (side, x), hx, rfl, above_lastParent habove⟩

section
variable {R : Type} [Field R] [LinearOrder R]

/-- When the count of a scope is the length of its list: for `Recent`, none of the items used most lies
behind as many keys as there are items; for a folder or collection, the last node of each id leads to
it from where an item below it lies. -/
def Agrees (tables : Tables R) (items : List (Item Id)) (options : ListOptions Id) : Prop :=
  match options.scope with
  | .recent => ∀ item ∈ items, item.deleted = false →
      item.key ∉ (frequent tables options.picks options.now recentCount).drop items.length
  | .personal (some folder) => ∀ item ∈ items, item.deleted = false → ∀ x, item.place = .personal (some x) →
      ReflTransGen (Linked options.folders) x folder → Above (lastParent options.folders) x folder
  | .collection id => ∀ item ∈ items, item.deleted = false → ∀ x, item.place = .shared x →
      ReflTransGen (Linked options.collections) x id → Above (lastParent options.collections) x id
  | _ => True

theorem agrees_of_nodup {tables : Tables R} {items : List (Item Id)} {options : ListOptions Id}
    (hfolders : (options.folders.map (·.id)).Nodup) (hcollections : (options.collections.map (·.id)).Nodup)
    (hscope : options.scope ≠ .recent) : Agrees tables items options := by
  unfold Agrees
  split
  · exact absurd ‹_› hscope
  · exact fun item _ _ x _ h => (above_lastParent_iff hfolders).2 h
  · exact fun item _ _ x _ h => (above_lastParent_iff hcollections).2 h
  · trivial

variable (later : JsString → Nat → JsString) (tables : Tables R)
  (compareChanged : JsString → JsString → Ordering) (items : List (Item Id)) (options : ListOptions Id)

/-- How many items a list without a query has. -/
theorem length_listed (hquery : options.query.all isSpace = true) :
    (listed later tables compareChanged items options).length =
      items.countP fun item => inScope later item options.scope
        { folders := options.folders, collections := options.collections, today := options.today
          recent := (frequent tables options.picks options.now items.length).take recentCount }
        (reach options.scope
          { folders := options.folders, collections := options.collections, today := options.today
            recent := (frequent tables options.picks options.now items.length).take recentCount }) := by
  rw [listed, if_neg fun h => h hquery, List.countP_eq_length_filter]
  dsimp only
  split
  · rw [List.length_insertionSort]
  · rw [List.length_insertionSort]

/-- **When a scope's count is its list's length.** Only the count of `Recent` can differ as long as the ids
of the folders and those of the collections are distinct. -/
theorem counter_eq_iff (hquery : options.query.all isSpace = true) :
    (counter later tables items options.folders options.collections options.picks options.now options.today
        options.scope = (listed later tables compareChanged items options).length ↔ Agrees tables items options) ∧
      ((options.folders.map (·.id)).Nodup → (options.collections.map (·.id)).Nodup → options.scope ≠ .recent →
        Agrees tables items options) := by
  refine ⟨?_, agrees_of_nodup⟩
  rw [length_listed later tables compareChanged items options hquery]
  unfold Agrees counter
  cases hscope : options.scope with
  | all => exact iff_of_true List.countP_eq_length_filter.symm trivial
  | expiring => exact iff_of_true List.countP_eq_length_filter.symm trivial
  | bin side => exact iff_of_true List.countP_eq_length_filter.symm trivial
  | recent =>
    obtain ⟨keys, hnodup, hfrequent⟩ := exists_frequent tables options.picks options.now
    simp only [hfrequent]
    rw [← List.countP_eq_length_filter, eq_comm, List.take_take, Nat.min_comm, ← List.take_take]
    have hcut := hnodup.sublist (List.take_sublist recentCount keys)
    rw [countP_eq_iff]
    · refine forall₂_congr fun item _ => ?_
      cases hdeleted : item.deleted with
      | true => simp [inScope, hdeleted]
      | false =>
        simp only [inScope, hdeleted, Bool.false_eq_true, if_false, decide_eq_true_eq, true_implies]
        constructor
        · intro h hdrop
          exact (notMem_drop_iff hcut (List.mem_of_mem_drop hdrop)).2 (h (List.mem_of_mem_drop hdrop)) hdrop
        · exact fun h hin => (notMem_drop_iff hcut hin).1 h
    · intro item _ h
      cases hdeleted : item.deleted with
      | true => simp [inScope, hdeleted] at h
      | false =>
        simp only [inScope, hdeleted, Bool.false_eq_true, if_false, decide_eq_true_eq] at h ⊢
        exact List.mem_of_mem_take h
  | personal folder =>
    cases folder with
    | none => exact iff_of_true List.countP_eq_length_filter.symm trivial
    | some folder =>
      have hcounted := counted_iff options.folders options.collections items .personal folder
      simp only [start_personal] at hcounted
      simp only [lookup_within, reach]
      refine Iff.trans (Eq.congr_right (List.countP_congr fun item _ => ?_)) hcounted
      cases hplace : item.place with
      | personal place =>
        cases place <;> cases hdeleted : item.deleted <;> simp [inScope, hplace, hdeleted, Place.start, nodesOf]
      | shared place => cases hdeleted : item.deleted <;> simp [inScope, hplace, hdeleted, Place.start]
  | collection id =>
    have hcounted := counted_iff options.folders options.collections items .shared id
    simp only [start_shared] at hcounted
    simp only [lookup_within, reach]
    refine Iff.trans (Eq.congr_right (List.countP_congr fun item _ => ?_)) hcounted
    cases hplace : item.place with
    | personal place =>
      cases place <;> cases hdeleted : item.deleted <;> simp [inScope, hplace, hdeleted, Place.start]
    | shared place => cases hdeleted : item.deleted <;> simp [inScope, hplace, hdeleted, Place.start, nodesOf]

/-! ## One item, and two keys -/

/-- An entry, and options that list what was used. -/
def usedItem (key : JsString) : Item Nat :=
  { key, title := js "dc01", username := [], url := [], notes := [], path := [], tags := [], expires := none
    changed := none, deleted := false, place := .personal none }

def recentOptions (picks : List Pick) : ListOptions Nat :=
  { scope := .recent, sort := ⟨.title, false⟩, query := [], picks, now := 0, folders := [], collections := []
    today := js "2026-01-01" }

/-- Three entries, of which two were used. -/
theorem counter_eq_used :
    counter (fun day _ => day) plainTables [usedItem (js "a"), usedItem (js "b"), usedItem (js "c")] [] []
        [⟨js "c", [], 2, 0⟩, ⟨js "a", [], 1, 0⟩] 0 (js "2026-01-01") .recent =
      (listed (fun day _ => day) plainTables (fun _ _ => .eq)
        [usedItem (js "a"), usedItem (js "b"), usedItem (js "c")]
        (recentOptions [⟨js "c", [], 2, 0⟩, ⟨js "a", [], 1, 0⟩])).length := by
  refine (counter_eq_iff (fun day _ => day) plainTables (fun _ _ => .eq)
    [usedItem (js "a"), usedItem (js "b"), usedItem (js "c")]
    (recentOptions [⟨js "c", [], 2, 0⟩, ⟨js "a", [], 1, 0⟩]) rfl).1.2 ?_
  unfold Agrees
  have hkeys : ∀ key ∈ [js "a", js "b", js "c"],
      key ∉ (frequent plainTables [⟨js "c", [], 2, 0⟩, ⟨js "a", [], 1, 0⟩] 0 recentCount).drop 3 := by
    decide +kernel
  intro item hitem _
  refine hkeys item.key ?_
  exact List.mem_map_of_mem (f := Item.key) hitem

/-- The key used most is of an entry that is gone: the one entry left counts as recent, and is not listed. -/
theorem recent_lost : ¬∀ (items : List (Item Nat)) (options : ListOptions Nat), options.query.all isSpace = true →
    (options.folders.map (·.id)).Nodup → (options.collections.map (·.id)).Nodup →
    counter (fun day _ => day) plainTables items options.folders options.collections options.picks options.now
        options.today options.scope =
      (listed (fun day _ => day) plainTables (fun _ _ => .eq) items options).length := by
  intro h
  have hsame := h [usedItem (js "a")] (recentOptions [⟨js "gone", [], 2, 0⟩, ⟨js "a", [], 1, 0⟩]) rfl .nil .nil
  exact absurd hsame (by decide +kernel)

end

end Web.Items
