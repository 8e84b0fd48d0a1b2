import RemoteHub.Lib.Chain

/-!
# The nearest element above that has a value

On the chains of `f : α → Option α` (`Chain`), `g : α → Option β` gives some elements a value.
`Nearest f g start out`: `out` is the value of the nearest element above `start`, or `start` itself,
that has one; `none` when none has.

* `nearest_of_value`, `nearest_of_none`: one step up, on chains without loops.
* `Path f start l`: `l` lists the chain from `start` on to its end; the loop `walk` gives it
  (`Acyclic.path_walk`), and its first element with a value is the nearest (`Path.nearest`).
* Moves: `f'` differs from `f` above `a` only, where `next` lies now. `above_of_moved` says what is above
  an element after the move, `nearest_of_moved` what is passed on to it.
-/

namespace Chain

open Relation

variable {α β : Type*} {f f' : α → Option α} {g : α → Option β}

/-- What lies above an element lies in one line. -/
theorem Above.total {a b c : α} (hb : Above f a b) (hc : Above f a c) : Above f b c ∨ Above f c b :=
  ReflTransGen.total_of_right_unique (fun _ _ _ hy hz => Option.some.inj (hy.symm.trans hz)) hb hc

theorem Above.antisymm (hf : Acyclic f) {a b : α} (hab : Above f a b) (hba : Above f b a) : a = b := by
  rcases above_iff_eq_or.1 hab with h | h
  · exact h.symm
  · exact (hf a (TransGen.trans_left h hba)).elim

/-- The value of the nearest element above `start`, or `start` itself, that has one. -/
def Nearest (f : α → Option α) (g : α → Option β) (start : Option α) : Option β → Prop
  | some b => ∃ a ∈ start, ∃ y, Above f a y ∧ g y = some b ∧
      ∀ z, Above f a z → StrictlyAbove f z y → g z = none
  | none => ∀ a ∈ start, ∀ y, Above f a y → g y = none

theorem Nearest.unique {start : Option α} {out out' : Option β} (h : Nearest f g start out)
    (h' : Nearest f g start out') : out = out' := by
  cases out with
  | none =>
    cases out' with
    | none => rfl
    | some b' =>
      obtain ⟨a, ha, y, hy, hb, -⟩ := h'
      rw [h a ha y hy] at hb
      cases hb
  | some b =>
    obtain ⟨a, ha, y, hy, hb, hbefore⟩ := h
    cases out' with
    | none =>
      rw [h' a ha y hy] at hb
      cases hb
    | some b' =>
      obtain ⟨a', ha', y', hy', hb', hbefore'⟩ := h'
      cases ha.symm.trans ha'
      -- one of them lies above the other
      have hsame : y = y' := by
        rcases hy.total hy' with hyy | hyy
        · rcases above_iff_eq_or.1 hyy with heq | hlt
          · exact heq.symm
          · rw [hbefore' y hy hlt] at hb
            cases hb
        · rcases above_iff_eq_or.1 hyy with heq | hlt
          · exact heq
          · rw [hbefore y' hy' hlt] at hb'
            cases hb'
      rw [← hb, ← hb', hsame]

theorem nearest_none {out : Option β} : Nearest f g none out ↔ out = none := by
  cases out <;> simp [Nearest]

theorem nearest_of_value (hf : Acyclic f) {a : α} {b : β} (hb : g a = some b) {out : Option β} :
    Nearest f g (some a) out ↔ out = some b := by
  have hown : Nearest f g (some a) (some b) := by
    refine ⟨a, rfl, a, .refl a, hb, fun z hz hza => ?_⟩
    exact (hf a (TransGen.trans_right hz hza)).elim
  constructor
  · intro h
    exact h.unique hown
  · rintro rfl
    exact hown

theorem nearest_of_none {a : α} (ha : g a = none) {out : Option β} :
    Nearest f g (some a) out ↔ Nearest f g (f a) out := by
  cases out with
  | none =>
    constructor
    · intro h p hp y hy
      exact h a rfl y (ReflTransGen.head hp hy)
    · rintro h _ ⟨⟩ y hy
      rcases above_iff_eq_or.1 hy with rfl | hy
      · exact ha
      · obtain ⟨p, hp, hy⟩ := strictlyAbove_iff.1 hy
        exact h p hp y hy
  | some b =>
    constructor
    · rintro ⟨_, ⟨⟩, y, hy, hb, hbefore⟩
      rcases above_iff_eq_or.1 hy with rfl | hy
      · rw [ha] at hb
        cases hb
      · obtain ⟨p, hp, hy⟩ := strictlyAbove_iff.1 hy
        exact ⟨p, hp, y, hy, hb, fun z hz => hbefore z (ReflTransGen.head hp hz)⟩
    · rintro ⟨p, hp, y, hy, hb, hbefore⟩
      refine ⟨a, rfl, y, ReflTransGen.head hp hy, hb, fun z hz hzy => ?_⟩
      rcases above_iff_eq_or.1 hz with rfl | hz
      · exact ha
      · obtain ⟨p', hp', hz⟩ := strictlyAbove_iff.1 hz
        cases hp.symm.trans hp'
        exact hbefore z hz hzy

/-! ## The chain as a list -/

/-- `l` is the chain from `start` on, nearest first, to its end. -/
inductive Path (f : α → Option α) : Option α → List α → Prop
  | nil : Path f none []
  | cons {x : α} {l : List α} (h : Path f (f x) l) : Path f (some x) (x :: l)

theorem Path.mem_iff {start : Option α} {l : List α} (h : Path f start l) (y : α) :
    y ∈ l ↔ ∃ x ∈ start, Above f x y := by
  induction h with
  | nil => simp
  | @cons x l _ ih =>
    have hx : (∃ z ∈ some x, Above f z y) ↔ Above f x y := by simp
    rw [List.mem_cons, ih, hx, above_iff_eq_or, strictlyAbove_iff]
    rfl

/-- **The first element with a value on the way up is the nearest one.** -/
theorem Path.nearest (hf : Acyclic f) {start : Option α} {l : List α} (h : Path f start l)
    {out : Option β} : Nearest f g start out ↔ l.findSome? g = out := by
  induction h with
  | nil => rw [nearest_none, List.findSome?_nil, eq_comm]
  | @cons x l _ ih =>
    cases hx : g x with
    | some b => rw [nearest_of_value hf hx, List.findSome?_cons, hx, eq_comm]
    | none => rw [nearest_of_none hx, ih, List.findSome?_cons, hx]

/-- The same chain in other terms, where `e` keeps what is directly above. -/
theorem Path.map {γ : Type*} {f₂ : γ → Option γ} {e : α → γ} {P : α → Prop}
    (hP : ∀ x y, P x → f x = some y → P y) (he : ∀ x, P x → f₂ (e x) = (f x).map e)
    {start : Option α} {l : List α} (h : Path f start l) (hstart : ∀ x ∈ start, P x) :
    Path f₂ (start.map e) (l.map e) := by
  induction h with
  | nil => exact .nil
  | @cons x l _ ih =>
    refine .cons ?_
    rw [he x (hstart x rfl)]
    exact ih fun y hy => hP x y (hstart x rfl) hy

/-- The loop reads `f` only at what it goes through. -/
theorem walk_congr [DecidableEq α] {P : α → Prop} (hP : ∀ x y, P x → f x = some y → P y)
    (hsame : ∀ x, P x → f x = f' x) {n : Nat} {path : List α} {seen : Finset α} {start : Option α}
    (hstart : ∀ x ∈ start, P x) : walk f n path seen start = walk f' n path seen start := by
  induction n generalizing path seen start with
  | zero => cases start <;> rfl
  | succ n ih =>
    cases start with
    | none => rfl
    | some x =>
      have hx := hstart x rfl
      rw [walk, walk, ← hsame x hx]
      split
      · rfl
      · exact ih fun y hy => hP x y hx hy

/-- **The loop goes up to the end**: on chains without loops nothing is seen again. -/
theorem Acyclic.path_walk [DecidableEq α] (hf : Acyclic f) {n : Nat} {path out : List α}
    {seen : Finset α} {start : Option α} (hbelow : ∀ y ∈ seen, ∀ x ∈ start, StrictlyAbove f y x)
    (h : walk f n path seen start = some out) : ∃ l, out = path ++ l ∧ Path f start l := by
  induction n generalizing path seen start with
  | zero =>
    cases start with
    | none =>
      cases h
      exact ⟨[], (List.append_nil _).symm, .nil⟩
    | some x => cases h
  | succ n ih =>
    cases start with
    | none =>
      cases h
      exact ⟨[], (List.append_nil _).symm, .nil⟩
    | some x =>
      have hnew : x ∉ seen := fun hx => hf x (hbelow x hx x rfl)
      rw [walk, if_neg hnew] at h
      have hbelow' : ∀ y ∈ insert x seen, ∀ z ∈ f x, StrictlyAbove f y z := by
        intro y hy z hz
        rcases Finset.mem_insert.1 hy with rfl | hy
        · exact TransGen.single hz
        · exact TransGen.tail (hbelow y hy x rfl) hz
      obtain ⟨l, rfl, hl⟩ := ih hbelow' h
      exact ⟨x :: l, by rw [List.append_assoc, List.singleton_append], .cons hl⟩

/-! ## After a move -/

section
variable {a : α} (hf : Acyclic f) (hf' : Acyclic f') (hsame : ∀ y, y ≠ a → f y = f' y)
  (hnext : ∀ p ∈ f' a, ¬Above f p a)

include hsame in
/-- What does not lie below the moved element is where it was. -/
theorem above_of_unmoved {x : α} (hx : ¬Above f x a) (y : α) : Above f' x y ↔ Above f x y := by
  have hsame' : ∀ z, z ≠ a → f' z = f z := fun z hz => (hsame z hz).symm
  have hx' : ¬Above f' x a := fun h => hx (h.of_agree hsame')
  exact ⟨Above.congr_of_not_above hsame' hx', Above.congr_of_not_above hsame hx⟩

include hf' hsame in
/-- Up to the moved element nothing changes. -/
theorem Above.before_move {x y : α} (hxy : Above f' x y) (hya : Above f' y a) : Above f x y := by
  induction hxy using ReflTransGen.head_induction_on with
  | refl => exact .refl y
  | @head x z hxz hzy ih =>
    have hx : x ≠ a := by
      rintro rfl
      exact hf' x (TransGen.head' hxz (hzy.trans hya))
    refine ReflTransGen.head ?_ ih
    rw [Up, hsame x hx]
    exact hxz

include hf hf' hsame hnext in
/-- **What is above after a move**: up to the moved element what was, and from there on what is above
its new place. -/
theorem above_of_moved {x : α} (hx : Above f x a) (y : α) :
    Above f' x y ↔ (Above f x y ∧ Above f y a) ∨ ∃ p ∈ f' a, Above f p y := by
  have hsame' : ∀ z, z ≠ a → f' z = f z := fun z hz => (hsame z hz).symm
  have hx' : Above f' x a := hx.of_agree hsame
  constructor
  · intro hy
    rcases hy.total hx' with hya | hay
    · exact .inl ⟨hy.before_move hf' hsame hya, hya.of_agree hsame'⟩
    · rcases above_iff_eq_or.1 hay with rfl | hay
      · exact .inl ⟨hx, .refl y⟩
      · obtain ⟨p, hp, hpy⟩ := strictlyAbove_iff.1 hay
        exact .inr ⟨p, hp, (above_of_unmoved hsame (hnext p hp) y).1 hpy⟩
  · rintro (⟨hy, hya⟩ | ⟨p, hp, hpy⟩)
    · exact hy.before_move hf hsame' hya
    · exact hx'.trans (ReflTransGen.head hp ((above_of_unmoved hsame (hnext p hp) y).2 hpy))

include hsame in
/-- What is passed on to an element that does not lie below the moved one. -/
theorem nearest_of_unmoved {x : α} (hx : ¬Above f x a) {out : Option β} :
    Nearest f' g (some x) out ↔ Nearest f g (some x) out := by
  have hstrict : ∀ z, Above f x z → ∀ y, StrictlyAbove f' z y ↔ StrictlyAbove f z y := by
    intro z hz y
    have hza : ¬Above f z a := fun h => hx (hz.trans h)
    have hne : z ≠ a := fun h => hza (h ▸ .refl z)
    rw [strictlyAbove_iff, strictlyAbove_iff, ← hsame z hne]
    refine exists_congr fun c => and_congr_right fun hc => ?_
    exact above_of_unmoved hsame (fun h => hza (ReflTransGen.head hc h)) y
  cases out with
  | none => simp only [Nearest, Option.mem_some_iff, forall_eq', above_of_unmoved hsame hx]
  | some b =>
    simp only [Nearest, Option.mem_some_iff, exists_eq_left', above_of_unmoved hsame hx]
    refine exists_congr fun y => and_congr_right fun _ => and_congr_right fun _ => ?_
    exact forall_congr' fun z => forall_congr' fun hz => by rw [hstrict z hz]

/-- The moved element is `x` or lies above it, and nothing up to it has a value. -/
def Through (f : α → Option α) (g : α → Option β) (a x : α) : Prop :=
  Above f x a ∧ ∀ y, Above f x y → Above f y a → g y = none

/-- What such an element passes on it has from above. -/
theorem Through.nearest {x : α} (h : Through f g a x) {out : Option β} :
    Nearest f g (some x) out ↔ Nearest f g (f a) out := by
  obtain ⟨hx, hnone⟩ := h
  induction hx using ReflTransGen.head_induction_on with
  | refl => exact nearest_of_none (hnone a (.refl a) (.refl a))
  | @head x z hxz hza ih =>
    rw [nearest_of_none (hnone x (.refl x) (ReflTransGen.head hxz hza)), show f x = some z from hxz]
    exact ih fun y hy => hnone y (ReflTransGen.head hxz hy)

include hf' hsame in
theorem Through.moved {x : α} (h : Through f g a x) : Through f' g a x := by
  have hsame' : ∀ z, z ≠ a → f' z = f z := fun z hz => (hsame z hz).symm
  refine ⟨h.1.of_agree hsame, fun y hy hya => h.2 y ?_ (hya.of_agree hsame')⟩
  exact hy.before_move hf' hsame hya

include hf' hsame hnext in
/-- **What is passed on after a move**, where it comes from above the moved element: what the new place
passes on. -/
theorem Through.nearest_moved {x : α} (h : Through f g a x) {out : Option β} :
    Nearest f' g (some x) out ↔ Nearest f g (f' a) out := by
  rw [(h.moved hf' hsame).nearest]
  cases hp : f' a with
  | none => rw [nearest_none, nearest_none]
  | some p => exact nearest_of_unmoved hsame (hnext p hp)

include hf hf' hsame in
/-- Elsewhere it is the same as before. -/
theorem nearest_of_not_through {x : α} (h : ¬Through f g a x) {out : Option β} :
    Nearest f' g (some x) out ↔ Nearest f g (some x) out := by
  by_cases hx : Above f x a
  · induction hx using ReflTransGen.head_induction_on with
    | refl =>
      cases hga : g a with
      | some b => rw [nearest_of_value hf' hga, nearest_of_value hf hga]
      | none =>
        refine (h ⟨.refl a, fun y hay hya => ?_⟩).elim
        rw [← hay.antisymm hf hya, hga]
    | @head x z hxz hza ih =>
      cases hgx : g x with
      | some b => rw [nearest_of_value hf' hgx, nearest_of_value hf hgx]
      | none =>
        have hne : x ≠ a := by
          rintro rfl
          exact hf x (TransGen.head' hxz hza)
        have hz : ¬Through f g a z := by
          rintro ⟨-, hnone⟩
          refine h ⟨ReflTransGen.head hxz hza, fun y hy hya => ?_⟩
          rcases above_iff_eq_or.1 hy with rfl | hy
          · exact hgx
          · obtain ⟨z', hz', hy⟩ := strictlyAbove_iff.1 hy
            cases Option.some.inj ((show f x = some z from hxz).symm.trans hz')
            exact hnone y hy hya
        rw [nearest_of_none hgx, nearest_of_none hgx, ← hsame x hne, show f x = some z from hxz]
        exact ih hz
  · exact nearest_of_unmoved hsame hx

end

end Chain
