import RemoteHub.Lib.Split
import RemoteHub.Web.Kdbx

/-!
# What a KeePass file gives back

`restored` is what an entry becomes on the way through a file. Names without line breaks make different
keys of different paths, so each entry lies in the group of its path (`Writing.Sound`), and a file has
what its entries become, in some order (`items_perm`).
-/

namespace Web.Kdbx

open RoseTree

section
variable {Instant : Type} {lower : String → String} {calendar : Calendar Instant}

/-! ## Maps -/

section
variable {α : Type} {m : List (String × α)} {key key' : String} {value : α}

theorem mapSet_new (h : key ∉ m.map (·.1)) : mapSet m key value = m ++ [(key, value)] := if_neg h

theorem mapGet_append_new (h : key ∉ m.map (·.1)) : mapGet (m ++ [(key, value)]) key' =
    if key' = key then some value else mapGet m key' := by
  induction m with
  | nil =>
    by_cases heq : key' = key
    · simp [mapGet, heq]
    · simp [mapGet, heq, Ne.symm heq]
  | cons e m ih =>
    rw [List.map_cons, List.mem_cons, not_or] at h
    have hrest := ih h.2
    by_cases he : e.1 = key'
    · have hne : key' ≠ key := fun heq => h.1 (heq ▸ he.symm)
      simp [mapGet, he, hne]
    · have hcons : ∀ l : List (String × α), mapGet (e :: l) key' = mapGet l key' := by
        intro l
        rw [mapGet, List.find?_cons_of_neg (by simpa using he)]
        rfl
      rw [List.cons_append, hcons, hcons, hrest]

theorem replace_new (h : key ∉ m.map (·.1)) : m.map (fun e => if e.1 = key then (key, value) else e) = m := by
  refine (List.map_congr_left fun e he => ?_).trans (List.map_id m)
  have hmem : e.1 ∈ m.map (·.1) := List.mem_map_of_mem he
  refine if_neg fun heq : e.1 = key => h ?_
  rw [← heq]
  exact hmem

theorem mapSet_append {l : List (String × α)} (h : key ∉ m.map (·.1)) :
    mapSet (m ++ l) key value = m ++ mapSet l key value := by
  by_cases hl : key ∈ l.map (·.1)
  · have hall : key ∈ (m ++ l).map (·.1) := by
      rw [List.map_append]
      exact List.mem_append_right _ hl
    rw [mapSet, mapSet, if_pos hl, if_pos hall, List.map_append, replace_new h]
  · have hall : key ∉ (m ++ l).map (·.1) := by
      rw [List.map_append]
      exact fun hmem => (List.mem_append.1 hmem).elim h hl
    rw [mapSet_new hl, mapSet_new hall, List.append_assoc]

theorem mapGet_mapSet : mapGet (mapSet m key value) key' = if key' = key then some value else mapGet m key' := by
  by_cases h : key ∈ m.map (·.1)
  · rw [mapSet, if_pos h]
    induction m with
    | nil => exact absurd h List.not_mem_nil
    | cons e m ih =>
      have hcons : ∀ (e : String × α) (l : List (String × α)),
          mapGet (e :: l) key' = if e.1 = key' then some e.2 else mapGet l key' := by
        intro e l
        by_cases he : e.1 = key' <;> simp [mapGet, he]
      rw [List.map_cons, hcons, hcons]
      by_cases he : e.1 = key
      · rw [if_pos he]
        by_cases hkey : key' = key
        · rw [if_pos hkey, if_pos hkey.symm]
        · rw [if_neg hkey, if_neg (Ne.symm hkey), if_neg fun h => hkey (h.symm.trans he)]
          by_cases hrest : key ∈ m.map (·.1)
          · rw [ih hrest, if_neg hkey]
          · rw [replace_new hrest]
      · have hrest : key ∈ m.map (·.1) := by
          rw [List.map_cons, List.mem_cons] at h
          exact h.resolve_left (Ne.symm he)
        rw [if_neg he, ih hrest]
        by_cases hkey : key' = key
        · rw [if_pos hkey, if_pos hkey, if_neg fun h => he (h.trans hkey)]
        · rw [if_neg hkey, if_neg hkey]
  · rw [mapSet_new h, mapGet_append_new h]

theorem mapGet_append (h : key ∈ m.map (·.1)) (l : List (String × α)) : mapGet (m ++ l) key = mapGet m key := by
  have hfound : (m.find? (·.1 = key)).isSome = true := by
    rw [List.find?_isSome]
    obtain ⟨e, he, hname⟩ := List.mem_map.1 h
    exact ⟨e, he, decide_eq_true hname⟩
  obtain ⟨e, he⟩ := Option.isSome_iff_exists.1 hfound
  rw [mapGet, mapGet, List.find?_append, he]
  rfl

/-- Keys that are all new come at the end, in their order. -/
theorem foldl_mapSet {β : Type} {name : β → String} {data : β → α} {xs : List β}
    (h : (m.map (·.1) ++ xs.map name).Nodup) :
    xs.foldl (fun m x => mapSet m (name x) (data x)) m = m ++ xs.map fun x => (name x, data x) := by
  induction xs generalizing m with
  | nil => exact (List.append_nil m).symm
  | cons x xs ih =>
    have hnew : name x ∉ m.map (·.1) := fun hmem =>
      (List.nodup_append.1 h).2.2 _ hmem _ List.mem_cons_self rfl
    rw [List.foldl_cons, mapSet_new hnew, ih, List.append_assoc]
    · rfl
    · rw [List.map_append, List.append_assoc]
      exact h

theorem mapGet_isSome : (mapGet m key).isSome = true ↔ key ∈ m.map (·.1) := by
  rw [mapGet, Option.isSome_map, List.find?_isSome, List.mem_map]
  simp

end

/-! ## Groups -/

/-- A path as the vault's folders make them: names without control characters. -/
def Named (path : List String) : Prop :=
  ∀ name ∈ path, name ≠ "" ∧ ∀ c ∈ name.toList, Text.isControl c = false

theorem groupKey_inj {rev rev' : List String} (h : Named rev.reverse) (h' : Named rev'.reverse)
    (hkey : groupKey rev = groupKey rev') : rev = rev' := by
  have hbreak : ∀ path, Named path → ∀ name ∈ path, name ≠ "" ∧ '\n' ∉ name.toList := by
    intro path hpath name hname
    refine ⟨(hpath name hname).1, fun hc => ?_⟩
    have hcontrol := (hpath name hname).2 _ hc
    exact absurd hcontrol (by decide)
  have hpaths := Text.intercalate_inj (c := '\n') (hbreak _ h) (hbreak _ h') hkey
  exact List.reverse_inj.1 hpaths

/-- Whether a group is the recycle bin of a new file. -/
def isBin (group : Group Instant) : Bool := some group.uuid = some 1

/-- The file that is written has the recycle bin of a new one, and the groups are where their paths
lead. -/
structure Writing.Sound (w : Writing Instant) : Prop where
  bin : w.db.recycleBin = some 1
  drawn : 2 ≤ w.db.drawn
  top : mapGet w.groups "" = some []
  reached : ∀ rev addr, Named rev.reverse → mapGet w.groups (groupKey rev) = some addr →
    ∃ group, Reaches isBin Group.name w.db.root addr rev.reverse group

variable {w : Writing Instant} {rev : List String} {item : Item}

theorem items_eq {db : Db Instant} (h : db.recycleBin = some 1) : db.items lower calendar =
    db.root.walk isBin Group.name (fun path group => group.entries.map (readEntry lower calendar path)) [] := by
  rw [Db.items, h]
  rfl

theorem sound_create (name : String) :
    Writing.Sound ({ db := .create name, groups := [("", [])] } : Writing Instant) := by
  refine ⟨rfl, Nat.le_refl 2, rfl, fun rev addr hnamed hget => ?_⟩
  have hkey : groupKey rev = groupKey [] := by
    have hmem := mapGet_isSome.1 (hget ▸ rfl : (mapGet [("", ([] : List Nat))] (groupKey rev)).isSome = true)
    exact List.mem_singleton.1 hmem
  have hnil := groupKey_inj hnamed (fun name h => absurd h List.not_mem_nil) hkey
  subst hnil
  cases hget
  exact ⟨_, .here rfl⟩

section
variable {above : List String} {parent : List Nat} {group : RoseTree (Group Instant)} {name : String}

theorem createGroup_items (hw : w.Sound)
    (hparent : Reaches isBin Group.name w.db.root parent above.reverse group) :
    ((w.db.createGroup parent name).1.items lower calendar).Perm (w.db.items lower calendar) := by
  have hbin : (w.db.createGroup parent name).1.recycleBin = some 1 := hw.bin
  rw [items_eq hw.bin, items_eq hbin]
  refine walk_modify [] hparent (keeps_push _) ?_
  rw [walk_push hparent.live_end, walk]
  simp [walkAll]

theorem createGroup_sound (hw : w.Sound)
    (hparent : Reaches isBin Group.name w.db.root parent above.reverse group)
    (hnamed : Named (name :: above).reverse) :
    Reaches isBin Group.name (w.db.createGroup parent name).1.root (w.db.createGroup parent name).2
        (name :: above).reverse (.node { uuid := w.db.drawn, name } []) ∧
      Writing.Sound ({ db := (w.db.createGroup parent name).1,
                       groups := mapSet w.groups (groupKey (name :: above)) (w.db.createGroup parent name).2 } :
        Writing Instant) := by
  have hlive : isBin (Group.mk w.db.drawn name [] : Group Instant) = false := by
    refine decide_eq_false fun h => ?_
    have huuid : w.db.drawn = 1 := Option.some.inj h
    have := hw.drawn
    omega
  have hchild : Reaches isBin Group.name (w.db.createGroup parent name).1.root (w.db.createGroup parent name).2
      (name :: above).reverse (.node { uuid := w.db.drawn, name } []) := by
    rw [Db.createGroup, hparent.subtree, List.reverse_cons]
    exact hparent.push hlive
  refine ⟨hchild, hw.bin, hw.drawn.trans (Nat.le_succ _), ?_, fun rev addr hrev hget => ?_⟩
  · rw [mapGet_mapSet, if_neg, hw.top]
    intro hkey
    have hnil : [] = name :: above := groupKey_inj (fun n h => absurd h List.not_mem_nil) hnamed hkey
    cases hnil
  · rw [mapGet_mapSet] at hget
    split at hget
    · rename_i hkey
      cases hget
      rw [groupKey_inj hrev hnamed hkey]
      exact ⟨_, hchild⟩
    · obtain ⟨s, hs⟩ := hw.reached rev addr hrev hget
      exact hs.modify (keeps_push _) fun t => List.prefix_append _ _

end

/-- `groupOf` finds the group of a path, or makes it, and the file has the entries it had. -/
theorem groupOf_sound (hw : w.Sound) (hnamed : Named rev.reverse) :
    (groupOf w rev).1.Sound ∧
      (∃ group, Reaches isBin Group.name (groupOf w rev).1.db.root (groupOf w rev).2 rev.reverse group) ∧
      ((groupOf w rev).1.db.items lower calendar).Perm (w.db.items lower calendar) := by
  induction rev with
  | nil =>
    have htop : mapGet w.groups (groupKey []) = some [] := hw.top
    have hgroup : groupOf w [] = (w, []) := by rw [groupOf, htop]; rfl
    rw [hgroup]
    exact ⟨hw, hw.reached [] [] hnamed htop, .refl _⟩
  | cons name above ih =>
    have habove : Named above.reverse := fun n hn => hnamed n (by
      rw [List.reverse_cons]
      exact List.mem_append_left _ hn)
    rw [groupOf]
    cases hknown : mapGet w.groups (groupKey (name :: above)) with
    | some known => exact ⟨hw, hw.reached _ known hnamed hknown, .refl _⟩
    | none =>
      obtain ⟨hsound, ⟨parent, hparent⟩, hperm⟩ := ih habove
      obtain ⟨hchild, hsound'⟩ := createGroup_sound hsound hparent hnamed
      refine ⟨hsound', ⟨_, hchild⟩, ?_⟩
      exact (createGroup_items hsound hparent).trans hperm

/-! ## Entries -/

/-- What an entry becomes on the way through a file. -/
def restored (lower : String → String) (calendar : Calendar Instant) (item : Item) : Item :=
  readEntry lower calendar item.path (writeEntry calendar item)

theorem keeps_addEntry (entry : Entry Instant) : Keeps isBin Group.name
    fun t => .node { t.value with entries := t.value.entries ++ [entry] } t.children :=
  fun _ => ⟨rfl, rfl⟩

/-- A round of the loop adds what the entry becomes. -/
theorem add_sound (hw : w.Sound) (hnamed : Named item.path) : (w.add calendar item).Sound ∧
    ((w.add calendar item).db.items lower calendar).Perm
      (restored lower calendar item :: w.db.items lower calendar) := by
  have hrev : item.path.reverse.reverse = item.path := List.reverse_reverse _
  obtain ⟨hsound, ⟨group, hgroup⟩, hperm⟩ := groupOf_sound hw
    (hrev.symm ▸ hnamed)
  rw [hrev] at hgroup
  have hkeeps := keeps_addEntry (writeEntry calendar item)
  have hbin : (w.add calendar item).db.recycleBin = some 1 := hsound.bin
  constructor
  · refine ⟨hsound.bin, hsound.drawn, hsound.top, fun rev addr hrev hget => ?_⟩
    obtain ⟨s, hs⟩ := hsound.reached rev addr hrev hget
    exact hs.modify hkeeps fun t => List.prefix_refl _
  · refine List.Perm.trans ?_ (hperm.cons _)
    rw [items_eq hbin, items_eq hsound.bin]
    refine walk_modify [restored lower calendar item] hgroup hkeeps ?_
    obtain ⟨a, ts⟩ := group
    have hlive : isBin a = false := hgroup.live_end
    have hlive' : isBin { a with entries := a.entries ++ [writeEntry calendar item] } = false := hlive
    rw [value, children, walk, walk, hlive, hlive', if_neg (by decide), if_neg (by decide), List.map_append,
      List.nil_append, List.map_singleton, ← List.append_assoc]
    exact (List.perm_append_comm).append_right _

theorem foldl_add {items : List Item} (hw : w.Sound) (hnamed : ∀ item ∈ items, Named item.path) :
    ((items.foldl (Writing.add calendar) w).db.items lower calendar).Perm
      (items.map (restored lower calendar) ++ w.db.items lower calendar) := by
  induction items generalizing w with
  | nil => exact .refl _
  | cons item items ih =>
    obtain ⟨hsound, hperm⟩ := add_sound hw (hnamed item List.mem_cons_self)
    have hrest := ih hsound fun item h => hnamed item (List.mem_cons_of_mem _ h)
    exact (hrest.trans (hperm.append_left _)).trans List.perm_middle

/-- A file gives back what each of its entries becomes. -/
theorem items_perm {web : Sealing Instant} {items : List Item} {password name : String}
    (hload : web.load (web.save (build calendar items name) password) password = some (build calendar items name))
    (hnamed : ∀ item ∈ items, Named item.path) :
    ∃ back, readKdbx lower calendar web (writeKdbx calendar web items password name) password = some back ∧
      back.Perm (items.map (restored lower calendar)) := by
  refine ⟨_, by rw [readKdbx, writeKdbx, hload, Option.map_some], ?_⟩
  have hperm : ((build calendar items name).items lower calendar).Perm
      (items.map (restored lower calendar) ++ (Db.create name : Db Instant).items lower calendar) :=
    foldl_add (sound_create name) hnamed
  have hempty : (Db.create name : Db Instant).items lower calendar = [] := rfl
  rwa [hempty, List.append_nil] at hperm

end

end Web.Kdbx
