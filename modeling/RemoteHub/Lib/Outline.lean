import RemoteHub.Lib.Nearest

/-!
# A forest in reading order

On the chains of `f : α → Option α` (`Chain`), `below p` lists what is directly below `p`, or what has
nothing above it for `none`, in the order chosen (`Children`). `Lists below d xs l`: `l` lists the elements of
`xs` at depth `d`, each followed by what is below it, one deeper.

* `Lists.mem_iff`: a list has what the elements listed are above of, all of it.
* `Lists.nodup`: nothing twice, where the chain above `xs` ends.
* `Lists.split`: what is below an element stands right after it, with nothing between.
* `Lists.parent`: an element that is not one of `xs` comes after the one directly above it, one deeper.
-/

namespace Chain

open Relation

variable {α : Type*} {f : α → Option α} {p : Option α} {path : List α}

/-! ## Chains that end -/

/-- A chain that ends does not come back. -/
theorem Path.not_loop (h : Path f p path) : ∀ x ∈ p, ¬StrictlyAbove f x x := by
  induction h with
  | nil => exact fun x hx => by cases hx
  | @cons x path _ ih =>
    intro y hy hloop
    cases hy
    obtain ⟨c, hc, -⟩ := strictlyAbove_iff.1 hloop
    exact ih c hc (hloop.loop (ReflTransGen.single hc))

theorem Path.nodup (h : Path f p path) : path.Nodup := by
  induction h with
  | nil => exact .nil
  | @cons x path h ih =>
    refine List.nodup_cons.2 ⟨fun hx => ?_, ih⟩
    obtain ⟨c, hc, hcx⟩ := (h.mem_iff x).1 hx
    exact (Path.cons h).not_loop x rfl (strictlyAbove_iff.2 ⟨c, hc, hcx⟩)

/-- Nothing is below two elements with the same above them. -/
theorem Path.siblings (h : Path f p path) {a b x : α} (ha : f a = p) (hb : f b = p) (hxa : Above f x a)
    (hxb : Above f x b) : a = b := by
  have hnot : ∀ a b, f a = p → f b = p → ¬StrictlyAbove f a b := by
    intro a b ha hb hab
    obtain ⟨c, hc, hcb⟩ := strictlyAbove_iff.1 hab
    refine h.not_loop c (ha ▸ hc) (TransGen.tail' hcb ?_)
    rw [Up, hb, ← ha, hc]
  rcases hxa.total hxb with hab | hba
  · exact ((above_iff_eq_or.1 hab).resolve_right (hnot a b ha hb)).symm
  · exact (above_iff_eq_or.1 hba).resolve_right (hnot b a hb ha)

/-- Below a chain that ends, chains end. -/
theorem Path.of_below {x y : α} (h : Path f (some y) path) (hx : Above f x y) : ∃ l, Path f (some x) l := by
  induction hx using ReflTransGen.head_induction_on with
  | refl => exact ⟨path, h⟩
  | @head x c hxc _ ih =>
    obtain ⟨l, hl⟩ := ih
    exact ⟨x :: l, .cons ((show f x = some c from hxc) ▸ hl)⟩

theorem Path.exists_top (h : Path f p path) : ∀ x ∈ p, ∃ top, Above f x top ∧ f top = none := by
  induction h with
  | nil => exact fun x hx => by cases hx
  | @cons x path _ ih =>
    intro y hy
    cases hy
    cases hx : f x with
    | none => exact ⟨x, .refl x, hx⟩
    | some c =>
      obtain ⟨top, htop, hnone⟩ := ih c hx
      exact ⟨top, ReflTransGen.head hx htop, hnone⟩

/-- A chain ends at an element with nothing above it. -/
theorem exists_path_iff {x : α} : (∃ l, Path f (some x) l) ↔ ∃ top, Above f x top ∧ f top = none := by
  constructor
  · rintro ⟨l, hl⟩
    exact hl.exists_top x rfl
  · rintro ⟨top, htop, hnone⟩
    have hlast : Path f (some top) [top] := .cons (hnone ▸ .nil)
    exact hlast.of_below htop

/-! ## Lists -/

/-- `below p` lists the elements directly below `p`, each once. -/
structure Children (f : α → Option α) (all : List α) (below : Option α → List α) : Prop where
  nodup : ∀ p, (below p).Nodup
  mem : ∀ p x, x ∈ below p ↔ x ∈ all ∧ f x = p
  closed : ∀ x y, x ∈ all → f x = some y → y ∈ all

/-- `l` lists `xs` at depth `d`, and what is below them. -/
inductive Lists (below : Option α → List α) : Nat → List α → List (α × Nat) → Prop
  | nil {d : Nat} : Lists below d [] []
  | cons {d : Nat} {x : α} {xs : List α} {sub rest : List (α × Nat)} :
      Lists below (d + 1) (below (some x)) sub → Lists below d xs rest →
      Lists below d (x :: xs) ((x, d) :: (sub ++ rest))

section
variable {all : List α} {below : Option α → List α} {d : Nat} {xs : List α} {l : List (α × Nat)}

/-- Down at least once is down to an element directly below, and further. -/
theorem Children.strictlyAbove_iff (hc : Children f all below) {x y : α} (hy : y ∈ all) :
    StrictlyAbove f y x ↔ ∃ c ∈ below (some x), Above f y c := by
  constructor
  · intro h
    obtain ⟨c, hyc, hcx⟩ := TransGen.tail'_iff.1 h
    exact ⟨c, (hc.mem _ _).2 ⟨Above.closed (P := (· ∈ all)) hc.closed hyc hy, hcx⟩, hyc⟩
  · rintro ⟨c, hcx, hyc⟩
    exact TransGen.tail' hyc ((hc.mem _ _).1 hcx).2

/-- **A list has all that lies below its elements.** -/
theorem Lists.mem_iff (hc : Children f all below) (h : Lists below d xs l) (hxs : ∀ x ∈ xs, x ∈ all) (y : α) :
    y ∈ l.map (·.1) ↔ y ∈ all ∧ ∃ x ∈ xs, Above f y x := by
  induction h with
  | nil => simp
  | @cons d x xs sub rest _ _ ihsub ihrest =>
    rw [List.forall_mem_cons] at hxs
    rw [List.map_cons, List.map_append, List.mem_cons, List.mem_append,
      ihsub fun c hcx => ((hc.mem _ _).1 hcx).1, ihrest hxs.2]
    constructor
    · rintro (rfl | ⟨hy, hsub⟩ | ⟨hy, x', hx', hyx'⟩)
      · exact ⟨hxs.1, y, List.mem_cons_self, .refl y⟩
      · exact ⟨hy, x, List.mem_cons_self, TransGen.to_reflTransGen ((hc.strictlyAbove_iff hy).2 hsub)⟩
      · exact ⟨hy, x', List.mem_cons_of_mem x hx', hyx'⟩
    · rintro ⟨hy, x', hx', hyx'⟩
      rcases List.mem_cons.1 hx' with rfl | hx'
      · rcases above_iff_eq_or.1 hyx' with rfl | hyx'
        · exact .inl rfl
        · exact .inr (.inl ⟨hy, (hc.strictlyAbove_iff hy).1 hyx'⟩)
      · exact .inr (.inr ⟨hy, x', hx', hyx'⟩)

/-- **Nothing is listed twice.** -/
theorem Lists.nodup (hc : Children f all below) (h : Lists below d xs l) (hxs : ∀ x ∈ xs, x ∈ all)
    (hnodup : xs.Nodup) (hp : Path f p path) (habove : ∀ x ∈ xs, f x = p) : (l.map (·.1)).Nodup := by
  induction h generalizing p path with
  | nil => exact .nil
  | @cons d x xs sub rest hsub hrest ihsub ihrest =>
    rw [List.forall_mem_cons] at hxs habove
    obtain ⟨hnew, hnodup⟩ := List.nodup_cons.1 hnodup
    have hbelow : ∀ c ∈ below (some x), c ∈ all := fun c hcx => ((hc.mem _ _).1 hcx).1
    have hpath : Path f (some x) (x :: path) := .cons (habove.1 ▸ hp)
    -- what is below `x` or is `x` is below no other of `xs`
    have hapart : ∀ y, Above f y x → ∀ x' ∈ xs, ¬Above f y x' := by
      intro y hyx x' hx' hyx'
      rw [hp.siblings habove.1 (habove.2 x' hx') hyx hyx'] at hnew
      exact hnew hx'
    rw [List.map_cons, List.map_append, List.nodup_cons, List.mem_append, not_or]
    refine ⟨⟨fun hx => ?_, fun hx => ?_⟩, List.nodup_append.2 ⟨?_, ihrest hxs.2 hnodup hp habove.2, ?_⟩⟩
    · obtain ⟨hx, hloop⟩ := (hsub.mem_iff hc hbelow x).1 hx
      exact hpath.not_loop x rfl ((hc.strictlyAbove_iff hx).2 hloop)
    · obtain ⟨-, x', hx', hxx'⟩ := (hrest.mem_iff hc hxs.2 x).1 hx
      exact hapart x (.refl x) x' hx' hxx'
    · exact ihsub hbelow (hc.nodup _) hpath fun c hcx => ((hc.mem _ _).1 hcx).2
    · rintro y hy _ hy' rfl
      obtain ⟨hy, hyx⟩ := (hsub.mem_iff hc hbelow y).1 hy
      obtain ⟨-, x', hx', hyx'⟩ := (hrest.mem_iff hc hxs.2 y).1 hy'
      exact hapart y (TransGen.to_reflTransGen ((hc.strictlyAbove_iff hy).2 hyx)) x' hx' hyx'

/-- There is one list. -/
theorem Lists.unique (h : Lists below d xs l) {l' : List (α × Nat)} (h' : Lists below d xs l') : l = l' := by
  induction h generalizing l' with
  | nil =>
    cases h'
    rfl
  | cons _ _ ihsub ihrest =>
    cases h' with
    | cons hsub' hrest' => rw [ihsub hsub', ihrest hrest']

/-- **What is below an element stands right after it.** -/
theorem Lists.split (h : Lists below d xs l) {y : α} {e : Nat} (hy : (y, e) ∈ l) :
    ∃ before sub after, l = before ++ (y, e) :: (sub ++ after) ∧ Lists below (e + 1) (below (some y)) sub := by
  induction h with
  | nil => cases hy
  | @cons d x xs sub rest hsub _ ihsub ihrest =>
    rcases List.mem_cons.1 hy with heq | hy
    · cases heq
      exact ⟨[], sub, rest, rfl, hsub⟩
    · rcases List.mem_append.1 hy with hy | hy
      · obtain ⟨before, inner, after, rfl, hinner⟩ := ihsub hy
        refine ⟨(x, d) :: before, inner, after ++ rest, ?_, hinner⟩
        simp
      · obtain ⟨before, inner, after, rfl, hinner⟩ := ihrest hy
        refine ⟨(x, d) :: (sub ++ before), inner, after, ?_, hinner⟩
        simp

/-- **Each element comes after the one directly above it**, one deeper. -/
theorem Lists.parent (hc : Children f all below) (h : Lists below d xs l) {y : α} {e : Nat} (hy : (y, e) ∈ l) :
    (y ∈ xs ∧ e = d) ∨ ∃ x k before between after, f y = some x ∧ e = k + 1 ∧
      l = before ++ (x, k) :: (between ++ (y, e) :: after) := by
  induction h with
  | nil => cases hy
  | @cons d x xs sub rest _ _ ihsub ihrest =>
    rcases List.mem_cons.1 hy with heq | hy
    · cases heq
      exact .inl ⟨List.mem_cons_self, rfl⟩
    · rcases List.mem_append.1 hy with hy | hy
      · rcases ihsub hy with ⟨hyx, rfl⟩ | ⟨x', k, before, between, after, hx', he, rfl⟩
        · obtain ⟨between, after, rfl⟩ := List.append_of_mem hy
          refine .inr ⟨x, d, [], between, after ++ rest, ((hc.mem _ _).1 hyx).2, rfl, ?_⟩
          simp
        · refine .inr ⟨x', k, (x, d) :: before, between, after ++ rest, hx', he, ?_⟩
          simp
      · rcases ihrest hy with ⟨hyxs, he⟩ | ⟨x', k, before, between, after, hx', he, rfl⟩
        · exact .inl ⟨List.mem_cons_of_mem x hyxs, he⟩
        · refine .inr ⟨x', k, (x, d) :: (sub ++ before), between, after, hx', he, ?_⟩
          simp

end

end Chain
