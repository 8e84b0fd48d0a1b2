import Mathlib.Data.List.Basic
import Mathlib.Data.List.Infix
import Mathlib.Data.List.TakeWhile

/-!
# Trimmed lists

`trimBy p` takes the elements that `p` holds of off both ends. Two ways of trimming that differ in what
they take off give the same where neither result has anything of either kind at its ends
(`trimBy_eq_of_clean`), and a list of elements that neither takes off is in the one result exactly if it
is in the other (`infix_trimBy`).
-/

namespace Trim

open List

variable {α : Type} {p q r : α → Bool} {l s before after : List α}

def trimBy (p : α → Bool) (l : List α) : List α := ((l.dropWhile p).reverse.dropWhile p).reverse

/-- Nothing that `p` holds of is at either end. -/
structure Clean (p : α → Bool) (l : List α) : Prop where
  head : ∀ c ∈ l.head?, p c = false
  last : ∀ c ∈ l.getLast?, p c = false

theorem head_dropWhile {c : α} (h : c ∈ (l.dropWhile p).head?) : p c = false := by
  induction l with
  | nil => cases h
  | cons d l ih =>
    by_cases hd : p d = true
    · rw [dropWhile_cons_of_pos hd] at h
      exact ih h
    · rw [dropWhile_cons_of_neg hd] at h
      rw [← Option.some.inj h]
      exact Bool.not_eq_true _ ▸ hd

theorem dropWhile_append_all (h : ∀ c ∈ before, p c = true) : (before ++ l).dropWhile p = l.dropWhile p := by
  induction before with
  | nil => rfl
  | cons c before ih =>
    rw [cons_append, dropWhile_cons_of_pos (h c mem_cons_self)]
    exact ih fun c hc => h c (mem_cons_of_mem _ hc)

/-- What is trimmed off, and what is left. -/
theorem exists_trimBy (p : α → Bool) (l : List α) : ∃ before after, l = before ++ trimBy p l ++ after ∧
    (∀ c ∈ before, p c = true) ∧ ∀ c ∈ after, p c = true := by
  refine ⟨l.takeWhile p, ((l.dropWhile p).reverse.takeWhile p).reverse, ?_, ?_, ?_⟩
  · rw [trimBy, append_assoc, ← reverse_append, takeWhile_append_dropWhile, reverse_reverse,
      takeWhile_append_dropWhile]
  · exact fun c hc => mem_takeWhile_imp hc
  · exact fun c hc => mem_takeWhile_imp (mem_reverse.1 hc)

theorem trimBy_append_left (h : ∀ c ∈ before, p c = true) : trimBy p (before ++ l) = trimBy p l := by
  rw [trimBy, dropWhile_append_all h, trimBy]

theorem trimBy_append_right (h : ∀ c ∈ after, p c = true) : trimBy p (l ++ after) = trimBy p l := by
  have hafter : ∀ c ∈ after.reverse, p c = true := fun c hc => h c (mem_reverse.1 hc)
  induction l with
  | nil =>
    have hnone : after.dropWhile p = [] := by
      have hdrop := dropWhile_append_all (l := []) h
      rwa [append_nil] at hdrop
    rw [nil_append, trimBy, hnone]
    rfl
  | cons c l ih =>
    by_cases hc : p c = true
    · have hone : ∀ d ∈ [c], p d = true := fun d hd => mem_singleton.1 hd ▸ hc
      have hl := trimBy_append_left (l := l) hone
      have happend := trimBy_append_left (l := l ++ after) hone
      exact (happend.trans ih).trans hl.symm
    · rw [trimBy, trimBy, cons_append, dropWhile_cons_of_neg hc, dropWhile_cons_of_neg hc, ← cons_append,
        reverse_append, dropWhile_append_all hafter]

/-- What comes after elements that are not trimmed off is trimmed at its end. -/
theorem trimBy_append (hne : before ≠ []) (hhead : ∀ c ∈ before.head?, p c = false)
    (hlast : ∀ c ∈ before.getLast?, p c = false) :
    trimBy p (before ++ l) = before ++ (l.reverse.dropWhile p).reverse := by
  have hstop : ∀ l l' : List α, l ≠ [] → (∀ c ∈ l.head?, p c = false) → (l ++ l').dropWhile p = l ++ l' := by
    intro l l' hl hhead
    cases l with
    | nil => exact absurd rfl hl
    | cons c l =>
      rw [cons_append, dropWhile_cons_of_neg]
      rw [hhead c rfl]
      exact Bool.false_ne_true
  rw [trimBy, hstop before l hne hhead, reverse_append, dropWhile_append]
  split
  · rename_i hempty
    have hrest := hstop before.reverse [] (mt reverse_eq_nil_iff.1 hne) (by rwa [head?_reverse])
    rw [append_nil] at hrest
    rw [hrest, isEmpty_iff.1 hempty, reverse_reverse, reverse_nil, append_nil]
  · rw [reverse_append, reverse_reverse]

theorem trimBy_trimBy (h : ∀ c, p c = true → r c = true) : trimBy r (trimBy p l) = trimBy r l := by
  obtain ⟨before, after, hl, hbefore, hafter⟩ := exists_trimBy p l
  conv_rhs => rw [hl]
  rw [trimBy_append_right fun c hc => h c (hafter c hc), trimBy_append_left fun c hc => h c (hbefore c hc)]

theorem clean_trimBy : Clean p (trimBy p l) := by
  constructor
  · intro c hc
    have hdrop : l.dropWhile p = trimBy p l ++ ((l.dropWhile p).reverse.takeWhile p).reverse := by
      rw [trimBy, ← reverse_append, takeWhile_append_dropWhile, reverse_reverse]
    refine head_dropWhile (p := p) (l := l) ?_
    rw [hdrop, head?_append, hc]
    rfl
  · intro c hc
    rw [trimBy, getLast?_reverse] at hc
    exact head_dropWhile hc

theorem trimBy_eq_self (h : Clean p l) : trimBy p l = l := by
  have hdrop : ∀ l : List α, (∀ c ∈ l.head?, p c = false) → l.dropWhile p = l := by
    intro l hl
    cases l with
    | nil => rfl
    | cons c l =>
      rw [dropWhile_cons_of_neg]
      rw [hl c rfl]
      exact Bool.false_ne_true
  rw [trimBy, hdrop l h.head, hdrop l.reverse, reverse_reverse]
  rw [head?_reverse]
  exact h.last

/-- Two ways of trimming that leave nothing of either kind at the ends. -/
theorem trimBy_eq_of_clean (hp : ∀ c, p c = true → r c = true) (hq : ∀ c, q c = true → r c = true)
    (hcleanp : Clean r (trimBy p l)) (hcleanq : Clean r (trimBy q l)) : trimBy p l = trimBy q l := by
  rw [← trimBy_eq_self hcleanp, ← trimBy_eq_self hcleanq, trimBy_trimBy hp, trimBy_trimBy hq]

theorem infix_append_left (hs : s ≠ []) (h : ∀ c ∈ before, c ∉ s) : s <:+: before ++ l ↔ s <:+: l := by
  refine ⟨fun hinfix => ?_, fun hinfix => hinfix.trans (suffix_append before l).isInfix⟩
  induction before with
  | nil => exact hinfix
  | cons c before ih =>
    rcases infix_cons_iff.1 hinfix with hprefix | hinfix
    · cases s with
      | nil => exact absurd rfl hs
      | cons d s =>
        have hd : d = c := (cons_prefix_cons.1 hprefix).1
        exact absurd (hd ▸ mem_cons_self) (h c mem_cons_self)
    · exact ih (fun d hd => h d (mem_cons_of_mem _ hd)) hinfix

theorem infix_append_right (hs : s ≠ []) (h : ∀ c ∈ after, c ∉ s) : s <:+: l ++ after ↔ s <:+: l := by
  rw [← reverse_infix, reverse_append, infix_append_left (by simpa using hs), reverse_infix]
  intro c hc hmem
  exact h c (mem_reverse.1 hc) (mem_reverse.1 hmem)

/-- What is not trimmed off is there before and after. -/
theorem infix_trimBy (hs : s ≠ []) (h : ∀ c ∈ s, p c = false) : s <:+: trimBy p l ↔ s <:+: l := by
  obtain ⟨before, after, hl, hbefore, hafter⟩ := exists_trimBy p l
  have hnew : ∀ c, p c = true → c ∉ s := by
    intro c hc hmem
    rw [h c hmem] at hc
    cases hc
  conv_rhs => rw [hl]
  rw [infix_append_right hs fun c hc => hnew c (hafter c hc),
    infix_append_left hs fun c hc => hnew c (hbefore c hc)]

end Trim
