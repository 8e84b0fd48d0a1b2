import Mathlib.Data.List.Basic
import Mathlib.Data.List.Induction

/-!
# What was accepted, in order

A log says in which order values were accepted for a key (`accepted`), and when the key starts anew
(`opened`). `current key log` is what was accepted for the key since then.

`Ordered r log`: of two values accepted for a key, one after the other and with no start in between,
the earlier one is related to the later one. A value that all current ones are related to keeps the
order (`Ordered.accept`).
-/

namespace Acceptance

inductive Entry (κ ν : Type)
  | opened (key : κ)
  | accepted (key : κ) (value : ν)
  deriving DecidableEq

variable {κ ν : Type} {r : ν → ν → Prop} {log : List (Entry κ ν)} {key key' : κ}
  {v v' : ν}

def Ordered (r : ν → ν → Prop) (log : List (Entry κ ν)) : Prop :=
  ∀ key v v' before between after,
    log = before ++ .accepted key v :: (between ++ .accepted key v' :: after) →
    .opened key ∉ between → r v v'

section
variable [DecidableEq κ]

def Entry.add (key : κ) (values : List ν) : Entry κ ν → List ν
  | .opened key' => if key' = key then [] else values
  | .accepted key' v => if key' = key then values ++ [v] else values

/-- What was accepted for the key since it started. -/
def current (key : κ) (log : List (Entry κ ν)) : List ν := log.foldl (Entry.add key) []

@[simp] theorem current_nil : current key ([] : List (Entry κ ν)) = [] := rfl

theorem current_opened : current key (log ++ [.opened key']) =
    if key' = key then [] else current key log := by
  simp [current, Entry.add]

theorem current_accepted : current key (log ++ [.accepted key' v]) =
    if key' = key then current key log ++ [v] else current key log := by
  simp [current, Entry.add]

/-- What was accepted and not followed by a start is current. -/
theorem mem_current {before between : List (Entry κ ν)} (h : .opened key ∉ between) :
    v ∈ current key (before ++ .accepted key v :: between) := by
  induction between using List.reverseRecOn with
  | nil =>
    rw [current_accepted, if_pos rfl]
    exact List.mem_append_right _ (List.mem_singleton_self v)
  | append_singleton between e ih =>
    rw [List.mem_append, not_or] at h
    rw [← List.cons_append, ← List.append_assoc]
    cases e with
    | opened key' =>
      have hne : key' ≠ key := by
        intro heq
        subst heq
        exact h.2 (List.mem_singleton_self _)
      rw [current_opened, if_neg hne]
      exact ih h.1
    | accepted key' v' =>
      rw [current_accepted]
      split
      · exact List.mem_append_left _ (ih h.1)
      · exact ih h.1

end

theorem Ordered.nil : Ordered r ([] : List (Entry κ ν)) := by
  intro key v v' before between after h
  exact absurd h.symm (List.append_ne_nil_of_right_ne_nil before (List.cons_ne_nil _ _))

/-- Where an acceptance is not the last entry, the last one goes. -/
theorem of_concat_eq {e : Entry κ ν} {before between after : List (Entry κ ν)}
    (h : log ++ [e] = before ++ .accepted key v :: (between ++ .accepted key v' :: after)) :
    (e = .accepted key v' ∧ log = before ++ .accepted key v :: between) ∨
      ∃ after', log = before ++ .accepted key v :: (between ++ .accepted key v' :: after') := by
  rcases List.eq_nil_or_concat' after with rfl | ⟨after, e', rfl⟩
  · rw [← List.cons_append, ← List.append_assoc] at h
    obtain ⟨hlog, he⟩ := List.append_inj' h rfl
    exact .inl ⟨List.singleton_inj.1 he, hlog⟩
  · rw [← List.cons_append, ← List.append_assoc, ← List.cons_append, ← List.append_assoc] at h
    obtain ⟨hlog, -⟩ := List.append_inj' h rfl
    exact .inr ⟨after, by simpa using hlog⟩

theorem Ordered.opened (h : Ordered r log) (key : κ) : Ordered r (log ++ [.opened key]) := by
  intro key' v v' before between after heq hnot
  rcases of_concat_eq heq with ⟨he, -⟩ | ⟨after', hlog⟩
  · cases he
  · exact h key' v v' before between after' hlog hnot

/-- **A value is accepted** after which all current ones may stand. -/
theorem Ordered.accept [DecidableEq κ] (h : Ordered r log) (hv : ∀ u ∈ current key log, r u v) :
    Ordered r (log ++ [.accepted key v]) := by
  intro key' u u' before between after heq hnot
  rcases of_concat_eq heq with ⟨he, hlog⟩ | ⟨after', hlog⟩
  · cases he
    apply hv
    rw [hlog]
    exact mem_current hnot
  · exact h key' u u' before between after' hlog hnot

end Acceptance
