import RemoteHub.Lib.Chain
import RemoteHub.Lib.HashMap
import RemoteHub.Web.Rank

/-!
# The vault's list (`web/src/lib/vault/items.ts`)

Personal entries and shared credentials as one table, narrowed to the folder or view chosen. An id is the
text of a uuid, which is never empty: a test of its truth is one for `null`. The keys of the
sidebar's counts, ids with `p:` or `s:` in front, are pairs of a side and an id.

Parameters are `later`, the day so many days after one, and `compareChanged`, the order of times.
-/

namespace Web.Items

open Rank (Pick Tables frequent Searchable tenths)

/-- A personal folder or a collection. -/
structure TreeNode (Id : Type) where
  id : Id
  parentId : Option Id
  name : JsString
  deriving DecidableEq

/-- A node of the sidebar's outline, with how deep it sits. -/
structure OutlineNode (Id : Type) where
  id : Id
  name : JsString
  depth : Nat
  deriving DecidableEq

section
variable {Id : Type} [DecidableEq Id]

/-! ## Trees -/

/-- The nodes directly below `parent`, by name; those whose parent is none of them for `null`. -/
def nodesBelow (compare : JsString → JsString → Ordering) (nodes : List (TreeNode Id)) (parent : Option Id) :
    List (TreeNode Id) :=
  let ids := nodes.map (·.id)
  (nodes.filter fun node =>
    match parent with
    | none => node.parentId.all (· ∉ ids)
    | some parent => node.parentId = some parent).insertionSort fun a b => compare a.name b.name ≠ .gt

/-- `visit`, at most `fuel` levels of it; `none` when they do not suffice. -/
def visit (compare : JsString → JsString → Ordering) (nodes : List (TreeNode Id)) :
    Nat → Option Id → Nat → List (OutlineNode Id) → Option (List (OutlineNode Id))
  | 0, _, _, _ => none
  | fuel + 1, parent, depth, out =>
    (nodesBelow compare nodes parent).foldlM (fun out node =>
      -- A loop in the data would recurse forever.
      if out.any (·.id = node.id) then some out
      else visit compare nodes fuel (some node.id) (depth + 1) (out ++ [⟨node.id, node.name, depth⟩])) out

/-- Nodes of a tree in reading order: each followed by what is below it. -/
def outline (compare : JsString → JsString → Ordering) (nodes : List (TreeNode Id)) :
    Option (List (OutlineNode Id)) :=
  visit compare nodes (nodes.length + 1) none 0 []

/-- One round of `below`. -/
def grow (nodes : List (TreeNode Id)) (inside : List Id) : List Id :=
  nodes.foldl (fun inside node =>
    if node.parentId.any (· ∈ inside) ∧ node.id ∉ inside then inside ++ [node.id] else inside) inside

/-- A round adds ids of nodes. -/
theorem exists_grow (nodes : List (TreeNode Id)) (inside : List Id) :
    ∃ new, grow nodes inside = inside ++ new ∧ ∀ x ∈ new, x ∉ inside ∧ ∃ node ∈ nodes, node.id = x := by
  have hloop : ∀ (todo : List (TreeNode Id)) (new : List Id), (∀ node ∈ todo, node ∈ nodes) →
      (∀ x ∈ new, x ∉ inside ∧ ∃ node ∈ nodes, node.id = x) →
      ∃ new', grow todo (inside ++ new) = inside ++ new' ∧ ∀ x ∈ new', x ∉ inside ∧ ∃ node ∈ nodes, node.id = x := by
    intro todo
    induction todo with
    | nil => exact fun new _ hnew => ⟨new, rfl, hnew⟩
    | cons node todo ih =>
      intro new htodo hnew
      rw [List.forall_mem_cons] at htodo
      rw [grow, List.foldl_cons]
      split
      · rename_i hadd
        rw [List.append_assoc]
        refine ih (new ++ [node.id]) htodo.2 fun x hx => ?_
        rcases List.mem_append.1 hx with hx | hx
        · exact hnew x hx
        · rw [List.mem_singleton.1 hx]
          exact ⟨fun hin => hadd.2 (List.mem_append_left _ hin), node, htodo.1, rfl⟩
      · exact ih new htodo.2 hnew
  have hstart := hloop nodes [] (fun _ h => h) fun x hx => absurd hx List.not_mem_nil
  rwa [List.append_nil] at hstart

theorem length_outside_lt {nodes : List (TreeNode Id)} {inside : List Id}
    (h : inside.length < (grow nodes inside).length) :
    (nodes.filter (·.id ∉ grow nodes inside)).length < (nodes.filter (·.id ∉ inside)).length := by
  obtain ⟨new, hgrow, hnew⟩ := exists_grow nodes inside
  rw [hgrow] at h ⊢
  obtain ⟨x, new, rfl⟩ : ∃ x new', new = x :: new' := by
    cases new with
    | nil => simp at h
    | cons x new => exact ⟨x, new, rfl⟩
  obtain ⟨hx, node, hnode, rfl⟩ := hnew x List.mem_cons_self
  have hsub : (nodes.filter (·.id ∉ inside ++ node.id :: new)) =
      (nodes.filter (·.id ∉ inside)).filter (·.id ∉ node.id :: new) := by
    rw [List.filter_filter]
    refine List.filter_congr fun m _ => ?_
    simp only [List.mem_append, not_or, Bool.decide_and]
    exact Bool.and_comm _ _
  rw [hsub, List.length_filter_lt_length_iff_exists]
  exact ⟨node, List.mem_filter.2 ⟨hnode, decide_eq_true hx⟩, by simp⟩

/-- The loop of `below`. -/
def belowFrom (nodes : List (TreeNode Id)) (inside : List Id) : List Id :=
  if inside.length < (grow nodes inside).length then belowFrom nodes (grow nodes inside) else inside
termination_by (nodes.filter (·.id ∉ inside)).length
decreasing_by exact length_outside_lt ‹_›

/-- A folder and every folder below it, by id; works for either tree. -/
def below (nodes : List (TreeNode Id)) (id : Id) : List Id := belowFrom nodes [id]

end

/-! ## Items -/

inductive Side
  | personal | shared
  deriving DecidableEq

/-- Where an item lies: its source, and the folder or collection; and what the counts go by. -/
inductive Place (Id : Type)
  | personal (folder : Option Id)
  | shared (collection : Id)
  deriving DecidableEq

structure Item (Id : Type) where
  /-- What picks remember it by. -/
  key : JsString
  title : JsString
  username : JsString
  url : JsString
  notes : JsString
  /-- `where`: the path of the folder or collection it lies in. -/
  path : JsString
  tags : List JsString
  /-- `YYYY-MM-DD`; none: never runs out. -/
  expires : Option JsString
  /-- RFC 3339: when it was last changed. -/
  changed : Option JsString
  /-- In a recycle bin. -/
  deleted : Bool
  place : Place Id
  deriving DecidableEq

/-- `source`. -/
def Item.side {Id : Type} (item : Item Id) : Side :=
  match item.place with
  | .personal _ => .personal
  | .shared _ => .shared

/-- Where the owner looks. -/
inductive Scope (Id : Type)
  | all
  | recent
  | expiring
  | personal (folder : Option Id)
  | collection (id : Id)
  | bin (side : Side)
  deriving DecidableEq

/-- How many recently used entries "Recent" shows. -/
def recentCount : Nat := 20

/-- How many days ahead "expiring" looks. -/
def soon : Nat := 14

structure Context (Id : Type) where
  folders : List (TreeNode Id)
  collections : List (TreeNode Id)
  recent : List JsString
  today : JsString

section
variable {Id : Type} [DecidableEq Id] (later : JsString → Nat → JsString)

/-- Whether it has run out or will within `soon` days of `day`. -/
def isExpiring (item : Item Id) (day : JsString) : Bool :=
  item.expires.any fun expires => expires ≠ [] ∧ expires ≤ later day soon

/-- The folders or collections `scope` reaches down to; none for a scope that is none. -/
def reach (scope : Scope Id) (context : Context Id) : Option (List Id) :=
  match scope with
  | .personal (some folder) => some (below context.folders folder)
  | .collection id => some (below context.collections id)
  | _ => none

/-- Whether `item` belongs in `scope`. -/
def inScope (item : Item Id) (scope : Scope Id) (context : Context Id) (inside : Option (List Id)) : Bool :=
  match scope with
  | .bin side => item.deleted && item.side = side
  | scope =>
    if item.deleted then false
    else match scope with
      | .all => true
      | .recent => item.key ∈ context.recent
      | .expiring => isExpiring later item context.today
      | .personal none => item.side = .personal
      | .personal (some _) =>
        match item.place with
        | .personal folder => folder.any fun folder => inside.any (folder ∈ ·)
        | .shared _ => false
      | .collection _ =>
        match item.place with
        | .personal _ => false
        | .shared collection => inside.any (collection ∈ ·)
      | .bin _ => false

inductive Column
  | title | username | url | notes | changed
  deriving DecidableEq

/-- `sort`. -/
structure ColumnSort where
  column : Column
  descending : Bool

structure ListOptions (Id : Type) where
  scope : Scope Id
  sort : ColumnSort
  query : JsString
  picks : List Pick
  now : Int
  folders : List (TreeNode Id)
  collections : List (TreeNode Id)
  today : JsString

/-- `text` of `listed`. -/
def Item.text (item : Item Id) : Column → JsString
  | .title => item.title
  | .username => item.username
  | .url => item.url
  | .notes => item.notes
  | .changed => item.changed.getD []

variable {R : Type} [Field R] [LinearOrder R] (tables : Tables R) (compareChanged : JsString → JsString → Ordering)

/-- The order of the column chosen. -/
def before (sort : ColumnSort) (a b : Item Id) : Bool :=
  let compared := match sort.column with
    | .changed => compareChanged (a.text .changed) (b.text .changed)
    | column => tables.compare (a.text column) (b.text column)
  (if sort.descending then compared.swap else compared).then (tables.compare a.title b.title) ≠ .gt

/-- The items to list: with a query, what matches it best first, across the whole vault but its bins;
otherwise those in `scope`, sorted by the column chosen. "Recent" keeps the order of use. -/
def listed (items : List (Item Id)) (options : ListOptions Id) : List (Item Id) :=
  if ¬options.query.all isSpace then
    let searchable (item : Item Id) : Searchable R (Item Id) :=
      { key := item.key, name := item.title, item
        fields := [⟨item.title, 1⟩, ⟨item.username, tenths 8⟩, ⟨item.url, tenths 7⟩,
          ⟨[32].intercalate item.tags, tenths 7⟩, ⟨item.notes, tenths 5⟩, ⟨item.path, tenths 4⟩] }
    Rank.rank tables ((items.filter (!·.deleted)).map searchable) options.query options.picks options.now
  else
    let order := frequent tables options.picks options.now items.length
    let context : Context Id :=
      { folders := options.folders, collections := options.collections, recent := order.take recentCount
        today := options.today }
    let inside := reach options.scope context
    let shown := items.filter fun item => inScope later item options.scope context inside
    if options.scope = .recent then shown.insertionSort fun a b => order.idxOf a.key ≤ order.idxOf b.key
    else shown.insertionSort fun a b => before tables compareChanged options.sort a b

/-! ## Counts -/

/-- What each folder and collection lies in: `parent` of `counter`, where the last of several nodes
counts. -/
def parents (folders collections : List (TreeNode Id)) : HashMap (Side × Id) (Option (Side × Id)) :=
  .collect (folders.map (fun f => ((.personal, f.id), f.parentId.map (.personal, ·))) ++
    collections.map fun c => ((.shared, c.id), c.parentId.map (.shared, ·)))

/-- The folders and collections an item counts in: the one it lies in and those above, each once. -/
def pathOf (parent : HashMap (Side × Id) (Option (Side × Id))) (item : Item Id) : List (Side × Id) :=
  let start := match item.place with
    | .personal folder => folder.map (.personal, ·)
    | .shared collection => some (.shared, collection)
  (Chain.walk (fun at_ => (parent.lookup at_).join) (parent.keys.length + 1) [] ∅ start).getD []

/-- `within`. -/
def within (parent : HashMap (Side × Id) (Option (Side × Id))) (items : List (Item Id)) :
    HashMap (Side × Id) Nat :=
  items.foldl (fun within item =>
    if item.deleted then within
    else (pathOf parent item).foldl (fun within at_ => within.insert at_ ((within.lookup at_).getD 0 + 1)) within) ∅

/-- How many items each scope holds, for the sidebar. -/
def counter (items : List (Item Id)) (folders collections : List (TreeNode Id)) (picks : List Pick) (now : Int)
    (today : JsString) : Scope Id → Nat :=
  let inside : Context Id :=
    { folders, collections, recent := frequent tables picks now recentCount, today }
  let counts := within (parents folders collections) items
  fun scope =>
    match scope with
    | .personal (some folder) => (counts.lookup (.personal, folder)).getD 0
    | .collection id => (counts.lookup (.shared, id)).getD 0
    | scope => (items.filter fun item => inScope later item scope inside none).length

end

end Web.Items
