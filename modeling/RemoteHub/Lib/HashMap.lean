import Mathlib.Data.List.AList
import Mathlib.Data.List.Induction

/-!
# Hash maps

A hash map is Mathlib's `AList`: distinct keys, each with its value, in some order that no result
may depend on. `collect` builds one from rows as `into_iter().collect()` does: of several rows with
the same key the last one counts (`lookup_collect`). `pushAt` is `entry(k).or_default().push(v)` on
a map to lists, `modify` changes the value under a key and leaves a map without it alone.
-/

/-- A map from `κ` to `ν`. -/
abbrev HashMap (κ ν : Type) := AList (fun _ : κ => ν)

namespace HashMap

variable {κ ν : Type} [DecidableEq κ]

/-- Equality that evaluates. -/
instance [DecidableEq ν] : DecidableEq (HashMap κ ν) := fun m m' =>
  decidable_of_iff (m.entries = m'.entries) AList.ext_iff.symm

/-- The map of the rows: `into_iter().collect()`. -/
def collect (rows : List (κ × ν)) : HashMap κ ν :=
  rows.foldl (fun m row => m.insert row.1 row.2) ∅

/-- `entry(k).or_default().push(v)`. -/
def pushAt (m : HashMap κ (List ν)) (k : κ) (v : ν) : HashMap κ (List ν) :=
  m.insert k ((m.lookup k).getD [] ++ [v])

/-- Changes the value under `k`, if there is one. -/
def modify (m : HashMap κ ν) (k : κ) (g : ν → ν) : HashMap κ ν :=
  match m.lookup k with
  | some v => m.insert k (g v)
  | none => m

theorem lookup_insert_eq (m : HashMap κ ν) (a k : κ) (b : ν) :
    (m.insert a b).lookup k = if k = a then some b else m.lookup k := by
  split
  · subst k; exact AList.lookup_insert m
  · exact AList.lookup_insert_ne ‹_›

theorem of_lookup_erase {m : HashMap κ ν} {a k : κ} {v : ν} (h : (m.erase a).lookup k = some v) :
    k ≠ a ∧ m.lookup k = some v := by
  by_cases hk : k = a
  · subst hk
    rw [AList.lookup_erase] at h
    cases h
  · rw [AList.lookup_erase_ne hk] at h
    exact ⟨hk, h⟩

theorem lookup_modify (m : HashMap κ ν) (a k : κ) (g : ν → ν) :
    (m.modify a g).lookup k = if k = a then (m.lookup k).map g else m.lookup k := by
  unfold modify
  cases ha : m.lookup a with
  | none =>
    by_cases h : k = a
    · subst h; simp [ha]
    · simp [h]
  | some v =>
    rw [lookup_insert_eq]
    by_cases h : k = a
    · subst h; simp [ha]
    · simp [h]

theorem mem_modify (m : HashMap κ ν) (a k : κ) (g : ν → ν) : k ∈ m.modify a g ↔ k ∈ m := by
  rw [← AList.lookup_isSome, ← AList.lookup_isSome, lookup_modify]
  split <;> simp

/-- A key that is there keeps its place: the map has as many rows as before. -/
theorem length_keys_insert {m : HashMap κ ν} {a : κ} (h : a ∈ m) (b : ν) :
    (m.insert a b).keys.length = m.keys.length := by
  rw [AList.keys_insert, List.length_cons, List.length_erase_of_mem (AList.mem_keys.1 h)]
  have := List.length_pos_of_mem (AList.mem_keys.1 h)
  omega

theorem lookup_eq_some {m : HashMap κ ν} {k : κ} {v : ν} :
    m.lookup k = some v ↔ (⟨k, v⟩ : Sigma fun _ : κ => ν) ∈ m.entries :=
  AList.mem_lookup_iff

/-- Rows with distinct keys. -/
theorem lookup_rows {rows : List (κ × ν)} (h : (rows.map (·.1)).Nodup) {k : κ} {v : ν} :
    rows.lookup k = some v ↔ (k, v) ∈ rows := by
  induction rows with
  | nil => simp
  | cons row rows ih =>
    obtain ⟨a, b⟩ := row
    obtain ⟨hnot, hnodup⟩ := List.nodup_cons.1 h
    rw [List.lookup_cons, List.mem_cons, Prod.mk.injEq]
    by_cases hk : k = a
    · subst hk
      have hrest : (k, v) ∉ rows := fun hmem => hnot (List.mem_map.2 ⟨(k, v), hmem, rfl⟩)
      simp [hrest, eq_comm]
    · rw [beq_eq_false_iff_ne.2 hk]
      simp [hk, ih hnodup]

theorem collect_append_singleton (rows : List (κ × ν)) (row : κ × ν) :
    collect (rows ++ [row]) = (collect rows).insert row.1 row.2 := by
  simp [collect]

/-- The last row with a key is its value. -/
theorem lookup_collect (rows : List (κ × ν)) (k : κ) :
    (collect rows).lookup k = rows.reverse.lookup k := by
  induction rows using List.reverseRecOn with
  | nil => rfl
  | append_singleton rows row ih =>
    obtain ⟨a, b⟩ := row
    rw [collect_append_singleton, lookup_insert_eq, ih, List.reverse_append, List.reverse_singleton,
      List.singleton_append, List.lookup_cons]
    by_cases h : k = a
    · simp [h]
    · rw [if_neg h, beq_eq_false_iff_ne.2 h]

theorem mem_collect (rows : List (κ × ν)) (k : κ) : k ∈ collect rows ↔ k ∈ rows.map (·.1) := by
  induction rows using List.reverseRecOn with
  | nil => simp [collect]
  | append_singleton rows row ih =>
    rw [collect_append_singleton, AList.mem_insert, ih]
    simp [or_comm]

/-- The map of the keys of `l` for which `g` has a value. -/
theorem lookup_collect_filterMap (l : List κ) (g : κ → Option ν) (k : κ) :
    (collect (l.filterMap fun k => (g k).map (k, ·))).lookup k =
      if k ∈ l then g k else none := by
  induction l using List.reverseRecOn with
  | nil => rfl
  | append_singleton l a ih =>
    rw [List.filterMap_append, List.filterMap_cons, List.filterMap_nil]
    cases ha : g a with
    | none =>
      simp only [Option.map_none, List.append_nil, ih, List.mem_append, List.mem_singleton]
      by_cases hka : k = a
      · subst hka; simp [ha]
      · simp [hka]
    | some b =>
      simp only [Option.map_some, collect_append_singleton, lookup_insert_eq, ih, List.mem_append,
        List.mem_singleton]
      by_cases hka : k = a
      · subst hka; simp [ha]
      · simp [hka]

/-- The rows of a map, each value read by `g`, collected again. -/
theorem lookup_collect_entries {μ : Type} (m : HashMap κ ν) (g : ν → μ) (k : κ) :
    (collect (m.entries.map fun e => (e.1, g e.2))).lookup k = (m.lookup k).map g := by
  have hrow : (m.entries.map fun e => (e.1, g e.2)) =
      m.keys.filterMap fun k => ((m.lookup k).map g).map (k, ·) := by
    rw [AList.keys, List.keys, List.filterMap_map, ← List.filterMap_eq_map]
    refine List.filterMap_congr fun e he => ?_
    simp [Function.comp, lookup_eq_some.2 (show (⟨e.1, e.2⟩ : Sigma fun _ : κ => ν) ∈ _ from he)]
  rw [hrow, lookup_collect_filterMap]
  split
  · rfl
  · rename_i hn
    rw [AList.lookup_eq_none.2 hn, Option.map_none]

/-- The rows of a map that are not in `p`, collected again: `DELETE ... WHERE p`. -/
theorem lookup_collect_where (m : HashMap κ ν) (p : κ → ν → Prop) [∀ k, DecidablePred (p k)] (k : κ) :
    (collect (m.entries.filterMap fun e => if p e.1 e.2 then none else some (e.1, e.2))).lookup k =
      (m.lookup k).filter fun v => ¬p k v := by
  have hrow : (m.entries.filterMap fun e => if p e.1 e.2 then none else some (e.1, e.2)) =
      m.keys.filterMap fun k => ((m.lookup k).filter fun v => ¬p k v).map (k, ·) := by
    rw [AList.keys, List.keys, List.filterMap_map]
    refine List.filterMap_congr fun e he => ?_
    have hvalue := lookup_eq_some.2 (show (⟨e.1, e.2⟩ : Sigma fun _ : κ => ν) ∈ _ from he)
    by_cases hp : p e.1 e.2 <;> simp [Function.comp, hp, hvalue, Option.filter]
  rw [hrow, lookup_collect_filterMap]
  split
  · rfl
  · rename_i hn
    rw [AList.lookup_eq_none.2 hn, Option.filter_none]

/-- `DELETE ... WHERE p`, where `p` speaks of the keys. -/
theorem lookup_collect_unless (m : HashMap κ ν) (p : κ → Prop) [DecidablePred p] (k : κ) :
    (collect (m.entries.filterMap fun e => if p e.1 then none else some (e.1, e.2))).lookup k =
      if p k then none else m.lookup k := by
  rw [lookup_collect_where m (fun k _ => p k) k]
  cases m.lookup k with
  | none => simp
  | some v => by_cases hp : p k <;> simp [hp]

/-- `DELETE ... WHERE p`, where `p` speaks of the values. -/
theorem lookup_collect_filter (m : HashMap κ ν) (p : ν → Prop) [DecidablePred p] (k : κ) :
    (collect (m.entries.filterMap fun e => if p e.2 then none else some (e.1, e.2))).lookup k =
      (m.lookup k).filter fun v => ¬p v :=
  lookup_collect_where m (fun _ v => p v) k

theorem lookup_foldl_erase (m : HashMap κ ν) (keys : List κ) (k : κ) :
    (keys.foldl (fun m key => m.erase key) m).lookup k = if k ∈ keys then none else m.lookup k := by
  induction keys generalizing m with
  | nil => rfl
  | cons key keys ih =>
    rw [List.foldl_cons, ih]
    by_cases hk : k = key
    · subst hk
      simp
    · simp [hk, AList.lookup_erase_ne hk]

/-- Erases the keys. -/
def eraseAll (m : HashMap κ ν) (keys : List κ) : HashMap κ ν :=
  keys.foldl (fun m key => m.erase key) m

theorem lookup_eraseAll (m : HashMap κ ν) (keys : List κ) (k : κ) :
    (m.eraseAll keys).lookup k = if k ∈ keys then none else m.lookup k :=
  lookup_foldl_erase m keys k

theorem of_lookup_eraseAll {m : HashMap κ ν} {keys : List κ} {k : κ} {v : ν}
    (h : (m.eraseAll keys).lookup k = some v) : k ∉ keys ∧ m.lookup k = some v := by
  rw [lookup_eraseAll] at h
  split at h
  · cases h
  · exact ⟨‹_›, h⟩

/-- Changes the values at the keys. -/
def modifyAll (m : HashMap κ ν) (keys : List κ) (g : ν → ν) : HashMap κ ν :=
  keys.foldl (fun m key => m.modify key g) m

/-- A change that is not another one when made again. -/
theorem lookup_modifyAll (m : HashMap κ ν) (keys : List κ) {g : ν → ν} (hg : ∀ v, g (g v) = g v) (k : κ) :
    (m.modifyAll keys g).lookup k = if k ∈ keys then (m.lookup k).map g else m.lookup k := by
  unfold modifyAll
  induction keys generalizing m with
  | nil => rfl
  | cons key keys ih =>
    rw [List.foldl_cons, ih, lookup_modify]
    by_cases hk : k = key
    · subst hk
      cases m.lookup k with
      | none => simp
      | some v => simp [hg]
    · simp [hk]

/-- The keys of the values that `p` says: `SELECT id ... WHERE p`. -/
def keysWhere (m : HashMap κ ν) (p : ν → Prop) [DecidablePred p] : List κ :=
  (m.entries.filter fun e => p e.2).map (·.1)

theorem mem_keysWhere {m : HashMap κ ν} {p : ν → Prop} [DecidablePred p] {k : κ} :
    k ∈ m.keysWhere p ↔ ∃ v, m.lookup k = some v ∧ p v := by
  unfold keysWhere
  simp only [List.mem_map, List.mem_filter, decide_eq_true_eq]
  constructor
  · rintro ⟨e, ⟨he, hp⟩, rfl⟩
    exact ⟨e.2, lookup_eq_some.2 he, hp⟩
  · rintro ⟨v, hv, hp⟩
    exact ⟨⟨k, v⟩, ⟨lookup_eq_some.1 hv, hp⟩, rfl⟩

omit [DecidableEq κ] in
theorem nodup_keysWhere (m : HashMap κ ν) (p : ν → Prop) [DecidablePred p] : (m.keysWhere p).Nodup := by
  have hkeys : (m.entries.map (·.1)).Nodup := m.nodupKeys
  exact hkeys.sublist (List.filter_sublist.map _)

/-- What `pushAt` leaves at a key. -/
theorem getD_lookup_pushAt (m : HashMap κ (List ν)) (a k : κ) (v : ν) :
    ((m.pushAt a v).lookup k).getD [] = (m.lookup k).getD [] ++ (if k = a then [v] else []) := by
  rw [pushAt, lookup_insert_eq]
  by_cases h : k = a
  · subst k; simp
  · simp [h]

end HashMap
