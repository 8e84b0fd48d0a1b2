import Mathlib.Algebra.BigOperators.Fin
import Mathlib.Data.Fintype.BigOperators
import Mathlib.Data.Fintype.Option
import Mathlib.Logic.Equiv.Fin.Basic

/-!
# Rejection sampling

A program draws values from a source until it has a result: `step` says what a value does in a state, and
`run` what comes of the values. `ways step n s b` is how many of the `n` values that may come lead from `s`
to the result `b`, so that two results are equally likely within `n` values iff they have equally many ways.

`word symbol n good` draws words of `n` letters: a value that is no letter is drawn again, and so is a word
that is not good. `ways_word` says that this is fair if every letter has equally many values: all good words
are equally likely, whatever `n` is.
-/

namespace Sampling

variable {σ α β κ : Type*}

/-- The result, if the values suffice for one. -/
def run (step : σ → α → σ ⊕ β) : σ → List α → Option β
  | _, [] => none
  | s, a :: as =>
    match step s a with
    | .inl s' => run step s' as
    | .inr b => some b

theorem run_of_inl {step : σ → α → σ ⊕ β} {s s' : σ} {a : α} {as : List α} (h : step s a = .inl s') :
    run step s (a :: as) = run step s' as := by
  simp only [run, h]

theorem run_of_inr {step : σ → α → σ ⊕ β} {s : σ} {a : α} {as : List α} {b : β} (h : step s a = .inr b) :
    run step s (a :: as) = some b := by
  simp only [run, h]

section
variable [Fintype α] [DecidableEq β]

/-- How many `n` values lead to the result. -/
def ways (step : σ → α → σ ⊕ β) (n : Nat) (s : σ) (b : β) : Nat :=
  ∑ v : Fin n → α, if run step s (List.ofFn v) = some b then 1 else 0

/-- The same with a value already drawn. -/
def waysAfter (step : σ → α → σ ⊕ β) (n : Nat) (b : β) : σ ⊕ β → Nat
  | .inl s => ways step n s b
  | .inr b' => if b' = b then Fintype.card α ^ n else 0

theorem ways_eq_card (step : σ → α → σ ⊕ β) (n : Nat) (s : σ) (b : β) :
    ways step n s b = Fintype.card {v : Fin n → α // run step s (List.ofFn v) = some b} := by
  rw [ways, Fintype.card_subtype, Finset.card_filter]

theorem ways_zero (step : σ → α → σ ⊕ β) (s : σ) (b : β) : ways step 0 s b = 0 := by
  simp [ways, run]

theorem ways_succ (step : σ → α → σ ⊕ β) (n : Nat) (s : σ) (b : β) :
    ways step (n + 1) s b = ∑ a, waysAfter step n b (step s a) := by
  have hcons : ways step (n + 1) s b = ∑ p : α × (Fin n → α),
      if run step s (p.1 :: List.ofFn p.2) = some b then 1 else 0 := by
    refine (Fintype.sum_equiv (Fin.consEquiv fun _ => α) _ _ fun p => ?_).symm
    simp [Fin.consEquiv, List.ofFn_succ]
  rw [hcons, Fintype.sum_prod_type]
  refine Finset.sum_congr rfl fun a _ => ?_
  cases h : step s a with
  | inl s' => simp only [run, h, waysAfter, ways]
  | inr b' =>
    simp only [run, h, waysAfter, Option.some.injEq]
    split
    · simp
    · simp

end

/-! ## Words -/

/-- A word that is drawn goes on until it has `n` letters, and is begun anew if it is not good. -/
def drawn (n : Nat) (good : List κ → Bool) (s : List κ) : List κ ⊕ List κ :=
  if s.length < n then .inl s else if good s then .inr s else .inl []

/-- What a letter does; none is drawn again. -/
def letter (n : Nat) (good : List κ → Bool) (s : List κ) : Option κ → List κ ⊕ List κ
  | none => .inl s
  | some c => drawn n good (s ++ [c])

def word (symbol : α → Option κ) (n : Nat) (good : List κ → Bool) (s : List κ) (a : α) : List κ ⊕ List κ :=
  letter n good s (symbol a)

theorem word_of_none {symbol : α → Option κ} {n : Nat} {good : List κ → Bool} {a : α} (h : symbol a = none)
    (s : List κ) : word symbol n good s a = .inl s := by
  rw [word, h, letter]

theorem word_of_some {symbol : α → Option κ} {n : Nat} {good : List κ → Bool} {a : α} {c : κ}
    (h : symbol a = some c) (s : List κ) : word symbol n good s a = drawn n good (s ++ [c]) := by
  rw [word, h, letter]

/-- What comes of it is a good word. -/
theorem of_run_word {symbol : α → Option κ} {n : Nat} {good : List κ → Bool} {s w : List κ} {as : List α}
    (hs : s.length < n) (h : run (word symbol n good) s as = some w) : w.length = n ∧ good w = true := by
  induction as generalizing s with
  | nil => cases h
  | cons a as ih =>
    cases hsymbol : symbol a with
    | none =>
      rw [run_of_inl (word_of_none hsymbol s)] at h
      exact ih hs h
    | some c =>
      have hword : word symbol n good s a = _ := word_of_some hsymbol s
      have hlength : (s ++ [c]).length = s.length + 1 := by rw [List.length_append, List.length_singleton]
      unfold drawn at hword
      split at hword
      · rename_i hlt
        rw [run_of_inl hword] at h
        exact ih hlt h
      · split at hword
        · rename_i hgood
          rw [run_of_inr hword] at h
          cases h
          exact ⟨by omega, hgood⟩
        · rw [run_of_inl hword] at h
          have hpos : ([] : List κ).length < n := Nat.zero_lt_of_lt hs
          exact ih hpos h

/-- Values for the letters of a good word draw it. -/
theorem run_word_of_forall₂ {symbol : α → Option κ} {n : Nat} {good : List κ → Bool} {s w : List κ}
    {as : List α} (h : List.Forall₂ (fun a c => symbol a = some c) as w) (hs : s.length < n)
    (hw : (s ++ w).length = n) (hgood : good (s ++ w) = true) :
    run (word symbol n good) s as = some (s ++ w) := by
  induction h generalizing s with
  | nil =>
    rw [List.append_nil] at hw
    omega
  | @cons a c as w hsymbol _ ih =>
    have hword : word symbol n good s a = _ := word_of_some hsymbol s
    have happend : s ++ c :: w = s ++ [c] ++ w := by rw [List.append_assoc, List.singleton_append]
    rw [happend] at hw hgood ⊢
    unfold drawn at hword
    split at hword
    · rename_i hlt
      rw [run_of_inl hword]
      exact ih hlt hw hgood
    · rename_i hnot
      rw [List.length_append] at hw
      obtain rfl : w = [] := List.eq_nil_of_length_eq_zero (by omega)
      rw [List.append_nil] at hgood ⊢
      rw [if_pos hgood] at hword
      exact run_of_inr hword

/-- A sum over the words of `n + 1` letters. -/
theorem sum_words_succ [Fintype κ] (n : Nat) (f : List κ → Nat) :
    ∑ v : Fin (n + 1) → κ, f (List.ofFn v) = ∑ v : Fin n → κ, ∑ c, f (List.ofFn v ++ [c]) := by
  have hsnoc : ∑ v : Fin (n + 1) → κ, f (List.ofFn v) =
      ∑ p : κ × (Fin n → κ), f (List.ofFn p.2 ++ [p.1]) := by
    refine (Fintype.sum_equiv (Fin.snocEquiv fun _ => κ) _ _ fun p => ?_).symm
    show _ = f (List.ofFn (Fin.snoc (α := fun _ => κ) p.2 p.1))
    rw [List.ofFn_succ', List.concat_eq_append]
    simp only [Fin.snoc_castSucc, Fin.snoc_last]
  rw [hsnoc, Fintype.sum_prod_type, Finset.sum_comm]

/-- A word is one of the words of its length. -/
theorem sum_words_eq [Fintype κ] [DecidableEq κ] {n m : Nat} {w : List κ} (h : w.length = n) :
    (∑ v : Fin n → κ, if List.ofFn v = w then m else 0) = m := by
  subst h
  have hw : ∀ v : Fin w.length → κ, List.ofFn v = w ↔ v = w.get := by
    intro v
    rw [← List.ofFn_inj, List.ofFn_get]
  simp only [hw, Finset.sum_ite_eq', Finset.mem_univ, if_true]

/-- A sum over the values, letter by letter. -/
theorem sum_symbol [Fintype α] [Fintype κ] [DecidableEq κ] {symbol : α → Option κ} {m : Nat}
    (hm : ∀ c, (Finset.univ.filter fun a => symbol a = some c).card = m) (f : Option κ → Nat) :
    ∑ a, f (symbol a) =
      (Finset.univ.filter fun a => symbol a = none).card * f none + m * ∑ c, f (some c) := by
  have hfibers : ∑ a, f (symbol a) = ∑ o, (Finset.univ.filter fun a => symbol a = o).card * f o := by
    rw [← Finset.sum_fiberwise Finset.univ symbol]
    refine Finset.sum_congr rfl fun o _ => ?_
    rw [Finset.sum_congr rfl fun a ha => congrArg f (Finset.mem_filter.1 ha).2, Finset.sum_const,
      smul_eq_mul]
  rw [hfibers, Fintype.sum_option, Finset.mul_sum]
  simp only [hm]

section
variable [Fintype α] [Fintype κ] [DecidableEq κ] {symbol : α → Option κ} {n m : Nat}
  {good : List κ → Bool} {w w' : List κ}

/-- The ways of all words of which so many letters are drawn. -/
def total (symbol : α → Option κ) (n : Nat) (good : List κ → Bool) (values letters : Nat) (w : List κ) : Nat :=
  ∑ v : Fin letters → κ, ways (word symbol n good) values (List.ofFn v) w

theorem total_zero (values : Nat) :
    total symbol n good values 0 w = ways (word symbol n good) values [] w := by
  simp [total]

/-- The ways of the words of which a letter more is drawn. -/
theorem total_succ (hm : ∀ c, (Finset.univ.filter fun a => symbol a = some c).card = m) (values letters : Nat) :
    total symbol n good (values + 1) letters w =
      (Finset.univ.filter fun a => symbol a = none).card * total symbol n good values letters w +
        m * ∑ v : Fin (letters + 1) → κ,
          waysAfter (word symbol n good) values w (drawn n good (List.ofFn v)) := by
  have hone : ∀ s : List κ, ways (word symbol n good) (values + 1) s w =
      (Finset.univ.filter fun a => symbol a = none).card * ways (word symbol n good) values s w +
        m * ∑ c, waysAfter (word symbol n good) values w (drawn n good (s ++ [c])) := by
    intro s
    rw [ways_succ]
    exact sum_symbol hm fun o => waysAfter (word symbol n good) values w (letter n good s o)
  rw [sum_words_succ letters fun s => waysAfter (word symbol n good) values w (drawn n good s), total, total,
    Finset.mul_sum, Finset.mul_sum, ← Finset.sum_add_distrib]
  exact Finset.sum_congr rfl fun v _ => hone (List.ofFn v)

/-- At the last letter, a good word has its own ways, and those after a word that is not good. -/
theorem sum_last (hw : w.length = n) (hgood : good w = true) (values : Nat) :
    (∑ v : Fin n → κ, waysAfter (word symbol n good) values w (drawn n good (List.ofFn v))) =
      Fintype.card α ^ values +
        (Finset.univ.filter fun v : Fin n → κ => good (List.ofFn v) = false).card *
          ways (word symbol n good) values [] w := by
  have hsplit : ∀ v : Fin n → κ, waysAfter (word symbol n good) values w (drawn n good (List.ofFn v)) =
      (if List.ofFn v = w then Fintype.card α ^ values else 0) +
        if good (List.ofFn v) = false then ways (word symbol n good) values [] w else 0 := by
    intro v
    rw [drawn, List.length_ofFn, if_neg (lt_irrefl n)]
    by_cases hv : good (List.ofFn v) = true
    · have hnot : ¬good (List.ofFn v) = false := by
        rw [hv]
        exact Bool.noConfusion
      rw [if_pos hv, if_neg hnot, Nat.add_zero]
      rfl
    · have hne : List.ofFn v ≠ w := fun heq => hv (heq ▸ hgood)
      rw [if_neg hv, if_neg hne, if_pos (Bool.eq_false_iff.2 hv), Nat.zero_add]
      rfl
  rw [Finset.sum_congr rfl fun v _ => hsplit v, Finset.sum_add_distrib, sum_words_eq hw, ← Finset.sum_filter,
    Finset.sum_const, smul_eq_mul]

/-- **Good words are equally likely**, if every letter has equally many values. -/
theorem ways_word (hn : 0 < n) (hm : ∀ c, (Finset.univ.filter fun a => symbol a = some c).card = m)
    (hw : w.length = n) (hgood : good w = true) (hw' : w'.length = n) (hgood' : good w' = true)
    (values : Nat) :
    ways (word symbol n good) values [] w = ways (word symbol n good) values [] w' := by
  have htotal : ∀ values letters, letters < n →
      total symbol n good values letters w = total symbol n good values letters w' := by
    intro values
    induction values with
    | zero =>
      intro letters _
      simp only [total, ways_zero]
    | succ values ih =>
      intro letters hletters
      rw [total_succ hm, total_succ hm, ih letters hletters]
      rcases Nat.lt_or_ge (letters + 1) n with hlt | hge
      · -- the word goes on
        have hmore := ih (letters + 1) hlt
        simp only [drawn, List.length_ofFn, hlt, if_true, waysAfter]
        unfold total at hmore
        rw [hmore]
      · obtain rfl : n = letters + 1 := by omega
        have hstart := ih 0 hn
        rw [total_zero, total_zero] at hstart
        rw [sum_last hw hgood, sum_last hw' hgood', hstart]
  rw [← total_zero, ← total_zero]
  exact htotal values 0 hn

end

end Sampling
