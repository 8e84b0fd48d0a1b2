import Mathlib.Logic.Relation
import Mathlib.Data.Finset.Card

/-!
# Chains of a partial function

`f : α → Option α` gives every element at most one element directly above it (a parent, a
container). `Above f a b`: `b` is `a` or is reached from `a` by going up; `StrictlyAbove f a b`:
by going up at least once.

`walk f n path seen next` is the loop that goes up until the chain ends or comes back to something
it has seen, with at most `n` rounds:

* `mem_walk`: a finished walk lists exactly what it listed before and what lies above `next`,
  cyclic chains included (`Closed`: the invariant of the loop's `seen`).
* `walk_isSome`: as many rounds as there are elements with something above them, and one more, are
  enough.
* `walk_mono`: further rounds change nothing.

`Acyclic f`: nothing lies above itself. Putting `a` below `p` keeps it so unless `p` is `a` or lies
below it (`acyclic_iff_of_moved`); where `f` is acyclic on finitely many elements, going up and going
down end (`Acyclic.exists_rank`).
-/

namespace Chain

open Relation

variable {α : Type*} {f : α → Option α}

/-- `b` is directly above `a`. -/
def Up (f : α → Option α) (a b : α) : Prop := f a = some b

/-- `b` is `a` or lies above it. -/
def Above (f : α → Option α) : α → α → Prop := ReflTransGen (Up f)

/-- `b` lies above `a`: one or more times up. -/
def StrictlyAbove (f : α → Option α) : α → α → Prop := TransGen (Up f)

theorem Above.refl (a : α) : Above f a a := ReflTransGen.refl

theorem Above.trans {a b c : α} (h : Above f a b) (h' : Above f b c) : Above f a c :=
  ReflTransGen.trans h h'

/-- What lies strictly above `a` is above the element directly above it. -/
theorem strictlyAbove_iff {a b : α} : StrictlyAbove f a b ↔ ∃ c, f a = some c ∧ Above f c b :=
  TransGen.head'_iff

theorem above_iff_eq_or {a b : α} : Above f a b ↔ b = a ∨ StrictlyAbove f a b :=
  reflTransGen_iff_eq_or_transGen

/-- A set that holds `a` and what is directly above each of its elements holds all above `a`. -/
theorem Above.closed {P : α → Prop} (hP : ∀ x y, P x → f x = some y → P y) {a b : α}
    (h : Above f a b) (ha : P a) : P b := by
  induction h with
  | refl => exact ha
  | tail _ hbc ih => exact hP _ _ ih hbc

/-- Two functions that agree on a set closed under the first have the same chains there. -/
theorem Above.congr {g : α → Option α} {P : α → Prop} (hP : ∀ x y, P x → f x = some y → P y)
    (hfg : ∀ x, P x → f x = g x) {a b : α} (h : Above f a b) (ha : P a) : Above g a b := by
  have key : P b ∧ Above g a b := by
    induction h with
    | refl => exact ⟨ha, .refl a⟩
    | tail _ hbc ih =>
      refine ⟨hP _ _ ih.1 hbc, ReflTransGen.tail ih.2 ?_⟩
      rw [Up, ← hfg _ ih.1]
      exact hbc
  exact key.2

/-- A chain that does not pass `a` is the same in a function that differs only at `a`. -/
theorem Above.congr_of_not_above {g : α → Option α} {a : α} (hfg : ∀ y, y ≠ a → f y = g y) {x y : α}
    (hx : ¬Above f x a) (h : Above f x y) : Above g x y := by
  refine h.congr (P := fun z => ¬Above f z a) ?_ ?_ hx
  · intro z w hz hzw hw
    exact hz (ReflTransGen.head hzw hw)
  · intro z hz
    apply hfg
    rintro rfl
    exact hz (.refl z)

/-- Whether a chain leads to `a` does not depend on what is above `a`. -/
theorem Above.of_agree {g : α → Option α} {a : α} (hfg : ∀ y, y ≠ a → f y = g y) {x : α}
    (h : Above f x a) : Above g x a := by
  induction h using ReflTransGen.head_induction_on with
  | refl => exact .refl a
  | @head x y hxy _ ih =>
    by_cases hx : x = a
    · subst hx
      exact .refl x
    · refine ReflTransGen.head ?_ ih
      rw [Up, ← hfg x hx]
      exact hxy

/-- Links added to a chain keep what it leads to. -/
theorem Above.mono {g : α → Option α} (hfg : ∀ x y, f x = some y → g x = some y) {x y : α}
    (h : Above f x y) : Above g x y :=
  ReflTransGen.mono (fun a b hab => hfg a b hab) x y h

/-- Chains of a function on part of a type. -/
theorem above_map {β : Type*} {g : β → Option β} {e : α → β} (he : ∀ x, g (e x) = (f x).map e)
    {x : α} {b : β} : Above g (e x) b ↔ ∃ y, b = e y ∧ Above f x y := by
  constructor
  · intro h
    induction h with
    | refl => exact ⟨x, rfl, .refl x⟩
    | tail _ hbc ih =>
      obtain ⟨y, rfl, hy⟩ := ih
      rw [Up, he, Option.map_eq_some_iff] at hbc
      obtain ⟨z, hz, rfl⟩ := hbc
      exact ⟨z, rfl, ReflTransGen.tail hy hz⟩
  · rintro ⟨y, rfl, hy⟩
    refine ReflTransGen.lift e ?_ x y hy
    intro a c hac
    show g (e a) = some (e c)
    rw [he, show f a = some c from hac]
    rfl

/-! ## Acyclic chains -/

/-- Nothing lies above itself. -/
def Acyclic (f : α → Option α) : Prop := ∀ a, ¬StrictlyAbove f a a

theorem Acyclic.of_lt (r : α → Nat) (h : ∀ x y, f x = some y → r y < r x) : Acyclic f := by
  have hlt : ∀ a b, StrictlyAbove f a b → r b < r a := by
    intro a b hab
    induction hab with
    | single hb => exact h _ _ hb
    | tail _ hbc ih => exact (h _ _ hbc).trans ih
  intro a ha
  exact absurd (hlt a a ha) (Nat.lt_irrefl _)

/-- Links taken away close no loop. -/
theorem Acyclic.mono {g : α → Option α} (hg : Acyclic g)
    (hfg : ∀ x y, f x = some y → g x = some y) : Acyclic f := by
  intro a ha
  exact hg a (TransGen.mono (fun x y hxy => hfg x y hxy) a a ha)

/-- All above an element of a loop is in the loop. -/
theorem StrictlyAbove.loop {a b : α} (ha : StrictlyAbove f a a) (hab : Above f a b) :
    StrictlyAbove f b b := by
  induction hab with
  | refl => exact ha
  | @tail b c _ hbc ih =>
    obtain ⟨c', hc', hcb⟩ := strictlyAbove_iff.1 ih
    rw [show f b = some c from hbc] at hc'
    cases hc'
    exact TransGen.tail' hcb hbc

/-- An element of a loop has one of the loop below it. -/
theorem StrictlyAbove.exists_below {a : α} (ha : StrictlyAbove f a a) :
    ∃ c, f c = some a ∧ StrictlyAbove f c c := by
  obtain ⟨c, hac, hca⟩ := TransGen.tail'_iff.1 ha
  exact ⟨c, hca, TransGen.head' hca hac⟩

/-- **Moves**: what is put below `p` closes a loop exactly if `p` lies within it. -/
theorem acyclic_iff_of_moved {g : α → Option α} {a p : α} (hf : Acyclic f)
    (hfg : ∀ y, y ≠ a → f y = g y) (ha : g a = some p) : Acyclic g ↔ ¬Above f p a := by
  constructor
  · intro hg hpa
    exact hg a (strictlyAbove_iff.2 ⟨p, ha, Above.of_agree hfg hpa⟩)
  · intro hpa x hx
    by_cases hxa : Above g x a
    · -- the loop passes `a`, and from there goes up to `p`
      obtain ⟨p', hp', hp'a⟩ := strictlyAbove_iff.1 (hx.loop hxa)
      rw [ha] at hp'
      cases hp'
      exact hpa (Above.of_agree (fun y hy => (hfg y hy).symm) hp'a)
    · -- the loop was there before
      obtain ⟨y, hy, hyx⟩ := strictlyAbove_iff.1 hx
      have hgf : ∀ y, y ≠ a → g y = f y := fun y hy => (hfg y hy).symm
      have hne : x ≠ a := by
        intro h
        subst h
        exact hxa (.refl x)
      have hya : ¬Above g y a := fun h => hxa (ReflTransGen.head hy h)
      refine hf x (strictlyAbove_iff.2 ⟨y, ?_, Above.congr_of_not_above hgf hya hyx⟩)
      rw [hfg x hne]
      exact hy

/-- A change of what is above `a`, if `a` is there at all. -/
theorem acyclic_iff_of_changed {g : α → Option α} {a : α} {present : Prop} {next : Option (Option α)}
    (hf : Acyclic f) (hfg : ∀ y, y ≠ a → f y = g y) (habsent : ¬present → g a = f a)
    (hpresent : present → g a = next.getD (f a)) :
    Acyclic g ↔ ¬(present ∧ ∃ p, next.join = some p ∧ Above f p a) := by
  have hsame : g a = f a → Acyclic g := by
    intro ha
    refine hf.mono fun x y hxy => ?_
    by_cases hx : x = a
    · subst hx
      rw [← ha, hxy]
    · rw [hfg x hx, hxy]
  by_cases hp : present
  · have ha := hpresent hp
    cases next with
    | none => simp [hsame ha]
    | some link =>
      cases link with
      | none =>
        have hg : Acyclic g := by
          refine hf.mono fun x y hxy => ?_
          rw [hfg x ?_, hxy]
          intro hx
          rw [hx, ha] at hxy
          cases hxy
        simp [hg]
      | some p =>
        rw [acyclic_iff_of_moved hf hfg ha]
        simp [hp]
  · simp [hsame (habsent hp), hp]

/-- **Going up and going down end**: ranks that fall on the way up, of at most the number of elements
that have something above them. -/
theorem Acyclic.exists_rank (h : Acyclic f) (D : Finset α) (hD : ∀ x, (f x).isSome → x ∈ D) :
    ∃ r : α → Nat, (∀ x, r x ≤ D.card) ∧ ∀ x y, f x = some y → r y < r x := by
  classical
  refine ⟨fun x => (D.filter fun z => Above f x z).card, fun x => Finset.card_filter_le _ _, ?_⟩
  intro x y hxy
  refine Finset.card_lt_card ⟨?_, ?_⟩
  · intro z hz
    rw [Finset.mem_filter] at hz ⊢
    exact ⟨hz.1, ReflTransGen.head hxy hz.2⟩
  · intro hsub
    have hx : x ∈ D.filter fun z => Above f x z :=
      Finset.mem_filter.2 ⟨hD x (by rw [hxy]; rfl), .refl x⟩
    have hyx := (Finset.mem_filter.1 (hsub hx)).2
    exact h x (strictlyAbove_iff.2 ⟨y, hxy, hyx⟩)

/-! ## The walk -/

/-- The loop's invariant: what lies directly above something seen was seen or comes next. -/
def Closed (f : α → Option α) (seen : Finset α) (next : Option α) : Prop :=
  ∀ x ∈ seen, ∀ y, f x = some y → y ∈ seen ∨ next = some y

/-- When the loop breaks, everything above what it saw was seen. -/
theorem Closed.above {seen : Finset α} {x y : α} (h : Closed f seen (some x)) (hx : x ∈ seen)
    (hy : Above f x y) : y ∈ seen := by
  refine hy.closed (P := (· ∈ seen)) (fun a b ha hab => ?_) hx
  rcases h a ha b hab with h | h
  · exact h
  · cases h
    exact hx

section
variable [DecidableEq α]

/-- `while let Some(x) = next { if !seen.insert(x) { break; } path.push(x); next = f(x); }`, then
`path`; `none` when `n` rounds did not suffice. -/
def walk (f : α → Option α) : Nat → List α → Finset α → Option α → Option (List α)
  | _, path, _, none => some path
  | 0, _, _, some _ => none
  | n + 1, path, seen, some x =>
    if x ∈ seen then some path else walk f n (path ++ [x]) (insert x seen) (f x)

theorem walk_none (n : Nat) (path : List α) (seen : Finset α) :
    walk f n path seen none = some path := by
  cases n <;> rfl

/-- What was listed before the loop stays in front. -/
theorem walk_append (n : Nat) (path path' : List α) (seen : Finset α) (next : Option α) :
    walk f n (path ++ path') seen next = (walk f n path' seen next).map (path ++ ·) := by
  induction n generalizing path' seen next with
  | zero => cases next <;> rfl
  | succ n ih =>
    cases next with
    | none => rfl
    | some x =>
      simp only [walk, List.append_assoc]
      split
      · rfl
      · exact ih (path' ++ [x]) (insert x seen) (f x)

theorem walk_mono {n m : Nat} (hnm : n ≤ m) {path out : List α} {seen : Finset α} {next : Option α}
    (h : walk f n path seen next = some out) : walk f m path seen next = some out := by
  induction n generalizing m path seen next with
  | zero =>
    cases next with
    | none => rwa [walk_none] at h ⊢
    | some x => cases h
  | succ n ih =>
    obtain ⟨m, rfl⟩ : ∃ k, m = k + 1 := ⟨m - 1, by omega⟩
    cases next with
    | none => exact h
    | some x =>
      simp only [walk] at h ⊢
      split
      · rwa [if_pos ‹_›] at h
      · rw [if_neg ‹_›] at h
        exact ih (by omega) h

/-- **The walk ends**: one round for each element of `D \ seen`, where `D` holds everything that
has something above it, and one for the last element. -/
theorem walk_isSome (D : Finset α) (hD : ∀ x, (f x).isSome → x ∈ D) {n : Nat} {path : List α}
    {seen : Finset α} {next : Option α} (hn : (D \ seen).card + 1 ≤ n) :
    (walk f n path seen next).isSome := by
  induction n generalizing path seen next with
  | zero => omega
  | succ n ih =>
    cases next with
    | none => rfl
    | some x =>
      simp only [walk]
      split
      · rfl
      · rename_i hx
        cases hfx : f x with
        | none => rw [walk_none]; rfl
        | some y =>
          have hxD : x ∈ D \ seen := Finset.mem_sdiff.2 ⟨hD x (by rw [hfx]; rfl), hx⟩
          have hlt : (D \ insert x seen).card < (D \ seen).card := by
            rw [Finset.sdiff_insert]
            exact Finset.card_erase_lt_of_mem hxD
          exact ih (by omega)

/-- A round with something new keeps the invariant. -/
theorem Closed.insert {seen : Finset α} {x : α} (h : Closed f seen (some x)) :
    Closed f (insert x seen) (f x) := by
  intro z hz y hy
  rcases Finset.mem_insert.1 hz with rfl | hz
  · exact .inr hy
  · rcases h z hz y hy with h | h
    · exact .inl (Finset.mem_insert_of_mem h)
    · cases h
      exact .inl (Finset.mem_insert_self _ _)

/-- What is listed is new, if what was listed before was seen. -/
theorem nodup_walk {n : Nat} {path out : List α} {seen : Finset α} {next : Option α}
    (hs : ∀ x ∈ path, x ∈ seen) (hpath : path.Nodup) (h : walk f n path seen next = some out) : out.Nodup := by
  induction n generalizing path seen next with
  | zero =>
    cases next with
    | none =>
      cases h
      exact hpath
    | some x => cases h
  | succ n ih =>
    cases next with
    | none =>
      cases h
      exact hpath
    | some x =>
      simp only [walk] at h
      split at h
      · cases h
        exact hpath
      · rename_i hx
        refine ih (fun y hy => ?_) ?_ h
        · rcases List.mem_append.1 hy with hy | hy
          · exact Finset.mem_insert_of_mem (hs y hy)
          · rw [List.mem_singleton.1 hy]
            exact Finset.mem_insert_self _ _
        · refine List.nodup_append.2 ⟨hpath, List.nodup_singleton x, fun y hy z hz hyz => ?_⟩
          rw [hyz, List.mem_singleton.1 hz] at hy
          exact hx (hs x hy)

/-- **What a finished walk lists**: what was listed before, and `next` with everything above it. -/
theorem mem_walk {n : Nat} {path out : List α} {seen : Finset α} {next : Option α}
    (hc : Closed f seen next) (hs : ∀ x ∈ seen, x ∈ path)
    (h : walk f n path seen next = some out) (y : α) :
    y ∈ out ↔ y ∈ path ∨ ∃ x, next = some x ∧ Above f x y := by
  induction n generalizing path seen next with
  | zero =>
    cases next with
    | none => rw [walk_none] at h; cases h; simp
    | some x => cases h
  | succ n ih =>
    cases next with
    | none => rw [walk_none] at h; cases h; simp
    | some x =>
      simp only [walk] at h
      split at h
      · cases h
        refine ⟨.inl, ?_⟩
        rintro (hy | ⟨x', hx', hy⟩)
        · exact hy
        · cases hx'
          exact hs y (hc.above ‹_› hy)
      · have hs' : ∀ z ∈ insert x seen, z ∈ path ++ [x] := by
          intro z hz
          rcases Finset.mem_insert.1 hz with rfl | hz
          · simp
          · simp [hs z hz]
        rw [ih hc.insert hs' h]
        simp only [List.mem_append, List.mem_singleton, Option.some.injEq, exists_eq_left']
        rw [above_iff_eq_or, strictlyAbove_iff, or_assoc]

end

end Chain
