import Mathlib.Data.List.Forall2

/-!
# Computations that may fail

What a successful computation in `Except` went through: `bind_eq_ok` takes it apart at a bind,
`mem_mapM` and `forall₂_of_mapM` at a traversal. `refuse` is the check that fails when its condition
holds (`if bad { return Err(e) }`), `onlyIf` makes a check that is only due under a condition.
-/

namespace Except

variable {ε α β : Type}

theorem bind_eq_ok {x : Except ε α} {g : α → Except ε β} {b : β} :
    (x >>= g) = .ok b ↔ ∃ a, x = .ok a ∧ g a = .ok b := by
  cases x <;> simp [bind, Except.bind]

/-- Both branches go on alike. -/
theorem ite_bind_eq_ok {p : Prop} [Decidable p] {x y : Except ε α} {f : α → Except ε β} {b : β} :
    (if p then x >>= f else y >>= f) = .ok b ↔
      ∃ a, (if p then x else y) = .ok a ∧ f a = .ok b := by
  split <;> exact bind_eq_ok

theorem pure_eq_ok {a b : α} : (pure a : Except ε α) = .ok b ↔ a = b := by
  simp [pure, Except.pure]

/-- `ok_or(e)`. -/
theorem elim_eq_ok {o : Option α} {e : ε} {a : α} :
    (o.elim (.error e) .ok : Except ε α) = .ok a ↔ o = some a := by
  cases o <;> simp

/-- Fails with `e` when `bad` holds. -/
def refuse (bad : Prop) [Decidable bad] (e : ε) : Except ε Unit := if bad then .error e else .ok ()

theorem refuse_eq_ok {bad : Prop} [Decidable bad] {e : ε} {u : Unit} :
    refuse bad e = .ok u ↔ ¬bad := by
  unfold refuse
  by_cases h : bad <;> simp [h]

/-- `x` if `c` holds, and nothing else. -/
def onlyIf (c : Prop) [Decidable c] (x : Except ε Unit) : Except ε Unit := if c then x else .ok ()

theorem onlyIf_eq_ok {c : Prop} [Decidable c] {x : Except ε Unit} {u : Unit} :
    onlyIf c x = .ok u ↔ (c → x = .ok u) := by
  unfold onlyIf
  by_cases h : c <;> simp [h]

theorem forall₂_of_mapM {g : α → Except ε β} {xs : List α} {ys : List β}
    (h : xs.mapM g = .ok ys) : List.Forall₂ (fun x y => g x = .ok y) xs ys := by
  induction xs generalizing ys with
  | nil =>
    cases h
    exact .nil
  | cons x xs ih =>
    rw [List.mapM_cons, bind_eq_ok] at h
    obtain ⟨y, hy, h⟩ := h
    rw [bind_eq_ok] at h
    obtain ⟨zs, hzs, h⟩ := h
    rw [← pure_eq_ok.1 h]
    exact .cons hy (ih hzs)

theorem mem_mapM {g : α → Except ε β} {xs : List α} {ys : List β} (h : xs.mapM g = .ok ys) {y : β} :
    y ∈ ys ↔ ∃ x ∈ xs, g x = .ok y := by
  have h2 := forall₂_of_mapM h
  clear h
  induction h2 with
  | nil => simp
  | cons hxy _ ih =>
    refine (List.mem_cons.trans (or_congr_right ih)).trans ⟨?_, ?_⟩
    · rintro (rfl | ⟨x, hx, hg⟩)
      · exact ⟨_, .head _, hxy⟩
      · exact ⟨x, .tail _ hx, hg⟩
    · rintro ⟨x, hx, hg⟩
      rcases List.mem_cons.1 hx with rfl | hx
      · rw [hxy] at hg
        cases hg
        exact .inl rfl
      · exact .inr ⟨x, hx, hg⟩

theorem exists_of_mem_mapM {g : α → Except ε β} {xs : List α} {ys : List β}
    (h : xs.mapM g = .ok ys) {x : α} (hx : x ∈ xs) : ∃ y ∈ ys, g x = .ok y := by
  have h2 := forall₂_of_mapM h
  clear h
  induction h2 with
  | nil => cases hx
  | cons hxy _ ih =>
    rcases List.mem_cons.1 hx with rfl | hx
    · exact ⟨_, .head _, hxy⟩
    · obtain ⟨y, hy, hg⟩ := ih hx
      exact ⟨y, .tail _ hy, hg⟩

theorem exists_mapM_eq_ok {g : α → Except ε β} {xs : List α} :
    (∃ ys, xs.mapM g = .ok ys) ↔ ∀ x ∈ xs, ∃ y, g x = .ok y := by
  constructor
  · rintro ⟨ys, h⟩ x hx
    obtain ⟨y, -, hy⟩ := exists_of_mem_mapM h hx
    exact ⟨y, hy⟩
  · intro h
    induction xs with
    | nil => exact ⟨[], rfl⟩
    | cons x xs ih =>
      obtain ⟨y, hy⟩ := h x List.mem_cons_self
      obtain ⟨ys, hys⟩ := ih fun z hz => h z (List.mem_cons_of_mem x hz)
      refine ⟨y :: ys, ?_⟩
      rw [List.mapM_cons, bind_eq_ok]
      exact ⟨y, hy, bind_eq_ok.2 ⟨ys, hys, rfl⟩⟩

theorem forM_eq_ok {check : α → Except ε Unit} {xs : List α} {u : Unit} :
    xs.forM check = .ok u ↔ ∀ x ∈ xs, check x = .ok () := by
  induction xs with
  | nil => exact iff_of_true rfl fun x hx => absurd hx List.not_mem_nil
  | cons x xs ih =>
    have hcons : (x :: xs).forM check = (check x >>= fun _ => xs.forM check) := rfl
    rw [hcons, bind_eq_ok, List.forall_mem_cons, ← ih]
    exact ⟨fun ⟨_, hx, hxs⟩ => ⟨hx, hxs⟩, fun ⟨hx, hxs⟩ => ⟨(), hx, hxs⟩⟩

/-- What is written is read again, item by item. -/
theorem mapM_map_eq_ok {read : β → Except ε α} {write : α → β} {xs : List α}
    (h : ∀ x ∈ xs, read (write x) = .ok x) : (xs.map write).mapM read = .ok xs := by
  induction xs with
  | nil => rfl
  | cons x xs ih =>
    rw [List.map_cons, List.mapM_cons, h x List.mem_cons_self, bind_eq_ok]
    exact ⟨x, rfl, bind_eq_ok.2 ⟨xs, ih fun y hy => h y (List.mem_cons_of_mem x hy), rfl⟩⟩

end Except

theorem Option.mapM_map_eq_some {α β : Type} {read : β → Option α} {write : α → β} {xs : List α} :
    (xs.map write).mapM read = some xs ↔ ∀ x ∈ xs, read (write x) = some x := by
  induction xs with
  | nil => exact iff_of_true rfl fun x hx => absurd hx List.not_mem_nil
  | cons x xs ih =>
    rw [List.map_cons, List.mapM_cons, List.forall_mem_cons, ← ih]
    simp only [Option.bind_eq_bind, Option.bind_eq_some_iff, Option.pure_def, Option.some.injEq,
      List.cons.injEq]
    constructor
    · rintro ⟨y, hy, ys, hys, rfl, rfl⟩
      exact ⟨hy, hys⟩
    · rintro ⟨hx, hxs⟩
      exact ⟨x, hx, xs, hxs, rfl, rfl⟩
