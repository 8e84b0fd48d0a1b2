import Mathlib.Algebra.Group.Nat.Defs
import Mathlib.Data.List.Basic
import Mathlib.Data.List.Induction
import Std.Data.String.ToInt

/-!
# Numbers and parts in texts

`digits b w n` are the `w` digits of `n` to the base `b`, the most significant one first, and
`ofDigits` is the number that has them: the digits determine `n`, and so do its decimal digits
(`Int.repr`), among which there is no separator.

A list cut at a separator that one side does not have is cut there only: `cut_first` where it is the
first one, `cut_last` where it is the last one.
-/

namespace Digits

def digits (b : Nat) : Nat → Nat → List Nat
  | 0, _ => []
  | w + 1, n => digits b w (n / b) ++ [n % b]

@[simp] theorem length_digits (b w n : Nat) : (digits b w n).length = w := by
  induction w generalizing n with
  | zero => rfl
  | succ w ih => simp [digits, ih]

theorem mem_digits_lt {b w n d : Nat} (hb : 0 < b) (h : d ∈ digits b w n) : d < b := by
  induction w generalizing n with
  | zero => cases h
  | succ w ih =>
    rcases List.mem_append.1 h with h | h
    · exact ih h
    · rw [List.mem_singleton.1 h]
      exact Nat.mod_lt _ hb

/-- The digits determine the number. -/
theorem digits_inj {b w n m : Nat} (hn : n < b ^ w) (hm : m < b ^ w)
    (h : digits b w n = digits b w m) : n = m := by
  induction w generalizing n m with
  | zero =>
    rw [Nat.pow_zero] at hn hm
    omega
  | succ w ih =>
    obtain ⟨hhigh, hlow⟩ := List.append_inj' h rfl
    have hlow : n % b = m % b := List.singleton_inj.1 hlow
    have hdiv : n / b = m / b := by
      rw [Nat.pow_succ] at hn hm
      exact ih (Nat.div_lt_of_lt_mul (by rwa [Nat.mul_comm])) (Nat.div_lt_of_lt_mul
        (by rwa [Nat.mul_comm])) hhigh
    rw [← Nat.div_add_mod n b, ← Nat.div_add_mod m b, hdiv, hlow]

/-- The number whose digits to the base `b` are given. -/
def ofDigits (b : Nat) (digits : List Nat) : Nat := digits.foldl (fun n d => n * b + d) 0

theorem ofDigits_append_singleton (b : Nat) (l : List Nat) (d : Nat) :
    ofDigits b (l ++ [d]) = ofDigits b l * b + d := by
  rw [ofDigits, List.foldl_append]
  rfl

theorem ofDigits_digits {b w n : Nat} (h : n < b ^ w) : ofDigits b (digits b w n) = n := by
  induction w generalizing n with
  | zero =>
    rw [Nat.pow_zero] at h
    have hn : n = 0 := by omega
    rw [hn]
    rfl
  | succ w ih =>
    have hdiv : n / b < b ^ w := by
      rw [Nat.pow_succ] at h
      exact Nat.div_lt_of_lt_mul (by rwa [Nat.mul_comm])
    rw [digits, ofDigits_append_singleton, ih hdiv, Nat.mul_comm, Nat.div_add_mod]

theorem digits_ofDigits {b : Nat} {l : List Nat} (h : ∀ d ∈ l, d < b) :
    digits b l.length (ofDigits b l) = l := by
  induction l using List.reverseRecOn with
  | nil => rfl
  | append_singleton l d ih =>
    have hd : d < b := h d (List.mem_append_right l List.mem_cons_self)
    have hdiv : (ofDigits b l * b + d) / b = ofDigits b l := by
      rw [Nat.mul_comm, Nat.mul_add_div (by omega), Nat.div_eq_of_lt hd, Nat.add_zero]
    have hmod : (ofDigits b l * b + d) % b = d := by
      rw [Nat.mul_comm, Nat.mul_add_mod, Nat.mod_eq_of_lt hd]
    rw [List.length_append, List.length_singleton, digits, ofDigits_append_singleton, hdiv, hmod,
      ih fun e he => h e (List.mem_append_left _ he)]

theorem ofDigits_lt {b : Nat} {l : List Nat} (h : ∀ d ∈ l, d < b) : ofDigits b l < b ^ l.length := by
  induction l using List.reverseRecOn with
  | nil => exact Nat.one_pos
  | append_singleton l d ih =>
    have hd : d < b := h d (List.mem_append_right l List.mem_cons_self)
    have hl := ih fun e he => h e (List.mem_append_left _ he)
    rw [ofDigits_append_singleton, List.length_append, List.length_singleton, Nat.pow_succ]
    calc ofDigits b l * b + d < ofDigits b l * b + b := by omega
      _ = (ofDigits b l + 1) * b := by rw [Nat.add_mul, Nat.one_mul]
      _ ≤ b ^ l.length * b := Nat.mul_le_mul_right b hl

/-- The lower digits. -/
theorem drop_digits (b k w n : Nat) : (digits b (k + w) n).drop k = digits b w n := by
  induction w generalizing n with
  | zero =>
    rewrite [Nat.add_zero, digits, List.drop_eq_nil_iff, length_digits]
    exact Nat.le_refl k
  | succ w ih =>
    rw [← Nat.add_assoc, digits, List.drop_append_of_le_length (by rw [length_digits]; omega), ih]
    rfl

/-- The decimal digits of a number are digits, after a minus sign or not. -/
theorem mem_repr {n : Int} {c : Char} (h : c ∈ n.repr.toList) : c.isDigit ∨ c = '-' := by
  have hdigits : ∀ k : Nat, c ∈ k.repr.toList → c.isDigit := by
    intro k hk
    rw [Nat.toList_repr] at hk
    exact Nat.isDigit_of_mem_toDigits (by decide) (by decide) hk
  rw [Int.repr_eq_if] at h
  split at h
  · exact .inl (hdigits _ h)
  · rw [String.toList_append, List.mem_append] at h
    rcases h with h | h
    · exact .inr (by simpa using h)
    · exact .inl (hdigits _ h)

theorem not_mem_repr {n : Int} {c : Char} (hc : c.isDigit = false) (hminus : c ≠ '-') :
    c ∉ n.repr.toList := by
  intro h
  rcases mem_repr h with h | h
  · rw [hc] at h
    cases h
  · exact hminus h

section
variable {α : Type*} {c : α} {a a' b b' : List α}

theorem cut_first (ha : c ∉ a) (ha' : c ∉ a') (h : a ++ c :: b = a' ++ c :: b') :
    a = a' ∧ b = b' := by
  induction a generalizing a' with
  | nil =>
    cases a' with
    | nil => exact ⟨rfl, (List.cons.inj h).2⟩
    | cons x a' =>
      have hx : c = x := (List.cons.inj h).1
      exact absurd (hx ▸ List.mem_cons_self) ha'
  | cons x a ih =>
    cases a' with
    | nil =>
      have hx : x = c := (List.cons.inj h).1
      exact absurd (hx ▸ List.mem_cons_self) ha
    | cons y a' =>
      obtain ⟨hxy, h⟩ := List.cons.inj h
      obtain ⟨hsame, hrest⟩ := ih (fun hm => ha (List.mem_cons_of_mem _ hm))
        (fun hm => ha' (List.mem_cons_of_mem _ hm)) h
      exact ⟨by rw [hxy, hsame], hrest⟩

theorem cut_last (hb : c ∉ b) (hb' : c ∉ b') (h : a ++ c :: b = a' ++ c :: b') :
    a = a' ∧ b = b' := by
  have hrev : b.reverse ++ c :: a.reverse = b'.reverse ++ c :: a'.reverse := by
    have := congrArg List.reverse h
    simpa using this
  obtain ⟨hsame, hrest⟩ := cut_first (fun hm => hb (List.mem_reverse.1 hm))
    (fun hm => hb' (List.mem_reverse.1 hm)) hrev
  exact ⟨List.reverse_injective hrest, List.reverse_injective hsame⟩

end

end Digits
