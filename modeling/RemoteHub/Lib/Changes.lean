import Mathlib.Data.List.TakeWhile
import Mathlib.Logic.Function.Basic

/-!
# Changes made one after the other

A state is seen as the values at places (`view`), and `updates cs` puts a value at each place of `cs` in
turn. `Makes view stops x cs`: the computation `x` makes the changes `cs`, and fails at the first whose
place `stops`, after the ones before it (`made`).

* `updates_eq_self`: changes of distinct places leave all as it was when each puts what is there.
* `Makes.bind`, `Makes.forM`: computations one after the other make the changes of all.
-/

namespace Changes

variable {Place Value σ ε ι : Type} [DecidableEq Place] {cs cs' : List (Place × Value)}
  {m m' : Place → Value} {p : Place}

def updates (cs : List (Place × Value)) (m : Place → Value) : Place → Value :=
  cs.foldl (fun m c => Function.update m c.1 c.2) m

theorem updates_append : updates (cs ++ cs') m = updates cs' (updates cs m) := List.foldl_append

theorem updates_of_not_mem (h : p ∉ cs.map Prod.fst) : updates cs m p = m p := by
  induction cs generalizing m with
  | nil => rfl
  | cons c cs ih =>
    rw [List.map_cons, List.mem_cons, not_or] at h
    exact (ih h.2).trans (Function.update_of_ne h.1 _ _)

theorem updates_of_mem (hnodup : (cs.map Prod.fst).Nodup) {c : Place × Value} (h : c ∈ cs) :
    updates cs m c.1 = c.2 := by
  induction cs generalizing m with
  | nil => cases h
  | cons d cs ih =>
    rw [List.map_cons, List.nodup_cons] at hnodup
    rcases List.mem_cons.1 h with rfl | h
    · exact (updates_of_not_mem hnodup.1).trans (Function.update_self ..)
    · exact ih hnodup.2 h

theorem updates_eq_self (hnodup : (cs.map Prod.fst).Nodup) :
    updates cs m = m ↔ ∀ c ∈ cs, m c.1 = c.2 := by
  constructor
  · intro h c hc
    rw [← h]
    exact updates_of_mem hnodup hc
  · intro h
    funext p
    by_cases hp : p ∈ cs.map Prod.fst
    · obtain ⟨c, hc, rfl⟩ := List.mem_map.1 hp
      rw [updates_of_mem hnodup hc, h c hc]
    · exact updates_of_not_mem hp

/-- All places put back. -/
theorem updates_eq (hnodup : (cs.map Prod.fst).Nodup) (hall : ∀ p, p ∈ cs.map Prod.fst)
    (h : ∀ c ∈ cs, m c.1 = c.2) : updates cs m' = m := by
  funext p
  obtain ⟨c, hc, rfl⟩ := List.mem_map.1 (hall p)
  rw [updates_of_mem hnodup hc, h c hc]

/-! ## Computations that make them -/

variable {view : σ → Place → Value} {stops : Place → Bool} {x y : ExceptT ε (StateM σ) Unit}

/-- The changes before the first that stops. -/
def made (stops : Place → Bool) (cs : List (Place × Value)) : List (Place × Value) :=
  cs.takeWhile fun c => !stops c.1

def Makes (view : σ → Place → Value) (stops : Place → Bool) (x : ExceptT ε (StateM σ) Unit)
    (cs : List (Place × Value)) : Prop :=
  ∀ s, if cs.any fun c => stops c.1 then
      ∃ e s', x.run s = (.error e, s') ∧ view s' = updates (made stops cs) (view s)
    else ∃ s', x.run s = (.ok (), s') ∧ view s' = updates cs (view s)

omit [DecidableEq Place] in
theorem made_append_of_any (h : cs.any fun c => stops c.1) :
    made stops (cs ++ cs') = made stops cs := by
  induction cs with
  | nil => cases h
  | cons c cs ih =>
    unfold made at ih ⊢
    rw [List.cons_append, List.takeWhile_cons, List.takeWhile_cons]
    cases hc : stops c.1 with
    | true => rfl
    | false =>
      rw [List.any_cons, hc] at h
      simp [ih h]

omit [DecidableEq Place] in
theorem made_append_of_not_any (h : ¬cs.any fun c => stops c.1) :
    made stops (cs ++ cs') = cs ++ made stops cs' :=
  List.takeWhile_append_of_pos fun c hc => by
    simp only [List.any_eq_true, not_exists, not_and] at h
    simpa using h c hc

theorem Makes.pure : Makes view stops (pure () : ExceptT ε (StateM σ) Unit) [] :=
  fun s => ⟨s, rfl, rfl⟩

/-- One change: all of it, or nothing. -/
theorem Makes.single {c : Value}
    (hfail : stops p → ∀ s, ∃ e s', x.run s = (.error e, s') ∧ view s' = view s)
    (hok : ¬stops p → ∀ s, ∃ s', x.run s = (.ok (), s') ∧
      view s' = Function.update (view s) p c) :
    Makes view stops x [(p, c)] := by
  intro s
  by_cases hp : stops p
  · rw [if_pos (by simpa using hp), made, List.takeWhile_cons_of_neg (by simpa using hp)]
    exact hfail hp s
  · rw [if_neg (by simpa using hp)]
    exact hok hp s

omit [DecidableEq Place] in
theorem run_bind_ok {α : Type} {x : ExceptT ε (StateM σ) α} {f : α → ExceptT ε (StateM σ) Unit}
    {a : α} {s s' : σ} (h : x.run s = (.ok a, s')) : (x >>= f).run s = (f a).run s' := by
  have hbind : (x >>= f).run s = ExceptT.bindCont f (x.run s).1 (x.run s).2 := rfl
  rw [hbind, h]
  rfl

omit [DecidableEq Place] in
theorem run_bind_error {α : Type} {x : ExceptT ε (StateM σ) α}
    {f : α → ExceptT ε (StateM σ) Unit} {e : ε} {s s' : σ} (h : x.run s = (.error e, s')) :
    (x >>= f).run s = (.error e, s') := by
  have hbind : (x >>= f).run s = ExceptT.bindCont f (x.run s).1 (x.run s).2 := rfl
  rw [hbind, h]
  rfl

theorem Makes.bind (hx : Makes view stops x cs) (hy : Makes view stops y cs') :
    Makes view stops (x >>= fun _ => y) (cs ++ cs') := by
  intro s
  have hx := hx s
  by_cases h : cs.any fun c => stops c.1
  · rw [if_pos h] at hx
    obtain ⟨e, s', hrun, hview⟩ := hx
    rw [if_pos (by rw [List.any_append, h, Bool.true_or]), made_append_of_any h]
    exact ⟨e, s', run_bind_error hrun, hview⟩
  · rw [if_neg h] at hx
    obtain ⟨s', hrun, hview⟩ := hx
    have hy := hy s'
    have hany : ((cs ++ cs').any fun c => stops c.1) = cs'.any fun c => stops c.1 := by
      rw [List.any_append, (Bool.not_eq_true _).mp h, Bool.false_or]
    rw [hany, run_bind_ok hrun, made_append_of_not_any h, updates_append, updates_append, ← hview]
    exact hy

theorem Makes.forM {f : ι → ExceptT ε (StateM σ) Unit} (change : ι → Place × Value) {is : List ι}
    (h : ∀ i ∈ is, Makes view stops (f i) [change i]) :
    Makes view stops (is.forM f) (is.map change) := by
  induction is with
  | nil => exact .pure
  | cons i is ih =>
    exact (h i List.mem_cons_self).bind (ih fun j hj => h j (List.mem_cons_of_mem i hj))

end Changes
