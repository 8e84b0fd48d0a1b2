import Mathlib.Data.List.Range
import RemoteHub.Lib.Digits

/-!
# Bits cut anew

Numbers written as bits one after the other (`bitsOf`) and cut into pieces of another width (`slices`)
are the digits of one number: `ofDigits_bitsOf` and `slices_eq` say so for each direction, with the bits
beyond the last piece left out.
-/

namespace Digits

theorem ofDigits_append (b : Nat) (l l' : List Nat) :
    ofDigits b (l ++ l') = ofDigits b l * b ^ l'.length + ofDigits b l' := by
  induction l' using List.reverseRecOn with
  | nil => rw [List.append_nil, List.length_nil, Nat.pow_zero, Nat.mul_one]; rfl
  | append_singleton l' d ih =>
    rw [← List.append_assoc, ofDigits_append_singleton, ih, ofDigits_append_singleton, List.length_append,
      List.length_singleton, Nat.pow_succ, Nat.add_mul, Nat.mul_assoc, Nat.add_assoc]

/-- Each number as `w` bits. -/
def bitsOf (w : Nat) (ds : List Nat) : List Nat := ds.flatMap (digits 2 w)

theorem bitsOf_append (w : Nat) (ds es : List Nat) : bitsOf w (ds ++ es) = bitsOf w ds ++ bitsOf w es :=
  List.flatMap_append

@[simp] theorem length_bitsOf (w : Nat) (ds : List Nat) : (bitsOf w ds).length = w * ds.length := by
  induction ds with
  | nil => rfl
  | cons d ds ih =>
    rw [bitsOf, List.flatMap_cons, List.length_append, length_digits, List.length_cons, Nat.mul_succ, Nat.add_comm]
    exact congrArg (· + w) ih

theorem lt_two_of_mem_bitsOf {w b : Nat} {ds : List Nat} (h : b ∈ bitsOf w ds) : b < 2 := by
  obtain ⟨d, -, hb⟩ := List.mem_flatMap.1 h
  exact mem_digits_lt (by decide) hb

theorem ofDigits_bitsOf {w : Nat} {ds : List Nat} (h : ∀ d ∈ ds, d < 2 ^ w) :
    ofDigits 2 (bitsOf w ds) = ofDigits (2 ^ w) ds := by
  induction ds using List.reverseRecOn with
  | nil => rfl
  | append_singleton ds d ih =>
    have hlast : bitsOf w [d] = digits 2 w d := List.append_nil _
    rw [bitsOf_append, ofDigits_append, hlast, length_digits, ofDigits_append_singleton,
      ih fun e he => h e (List.mem_append_left _ he), ofDigits_digits (h d (by simp))]

/-- The numbers of `n` pieces of `w` bits each. -/
def slices (w n : Nat) (bits : List Nat) : List Nat :=
  (List.range n).map fun i => ofDigits 2 ((bits.drop (w * i)).take w)

@[simp] theorem length_slices (w n : Nat) (bits : List Nat) : (slices w n bits).length = n := by
  rw [slices, List.length_map, List.length_range]

theorem slices_eq {w n r : Nat} {bits : List Nat} (hbits : ∀ b ∈ bits, b < 2) (hlength : bits.length = w * n + r) :
    slices w n bits = digits (2 ^ w) n (ofDigits 2 bits / 2 ^ r) := by
  induction n generalizing r with
  | zero => rfl
  | succ n ih =>
    -- the last piece and the rest
    obtain ⟨high, piece, rest, rfl, hpiece, hrest, hhigh⟩ : ∃ high piece rest, bits = high ++ (piece ++ rest) ∧
        piece.length = w ∧ rest.length = r ∧ high.length = w * n := by
      refine ⟨bits.take (w * n), (bits.drop (w * n)).take w, (bits.drop (w * n)).drop w, ?_, ?_, ?_, ?_⟩
      · rw [List.take_append_drop, List.take_append_drop]
      all_goals
        rw [Nat.mul_succ] at hlength
        simp only [List.length_take, List.length_drop]
        omega
    have hbound : ∀ l : List Nat, (∀ b ∈ l, b < 2) → ofDigits 2 l < 2 ^ l.length := fun l => ofDigits_lt
    have hlow : ofDigits 2 rest < 2 ^ r := hrest ▸ hbound rest fun b hb => hbits b (by simp [hb])
    have hmid : ofDigits 2 piece < 2 ^ w := hpiece ▸ hbound piece fun b hb => hbits b (by simp [hb])
    have hnumber : ofDigits 2 (high ++ (piece ++ rest)) / 2 ^ r = ofDigits 2 high * 2 ^ w + ofDigits 2 piece := by
      rw [ofDigits_append, ofDigits_append, List.length_append, hpiece, hrest, Nat.pow_add, ← Nat.mul_assoc,
        ← Nat.add_assoc, ← Nat.add_mul, Nat.mul_comm, Nat.mul_add_div (Nat.two_pow_pos r), Nat.div_eq_of_lt hlow,
        Nat.add_zero]
    have hprev := ih (r := w + r) (by simp [hhigh, hpiece, hrest])
    have hshift : ofDigits 2 (high ++ (piece ++ rest)) / 2 ^ (w + r) = ofDigits 2 high := by
      rw [Nat.add_comm, Nat.pow_add, ← Nat.div_div_eq_div_mul, hnumber, Nat.mul_comm, Nat.mul_add_div (Nat.two_pow_pos w),
        Nat.div_eq_of_lt hmid, Nat.add_zero]
    have hlast : ((high ++ (piece ++ rest)).drop (w * n)).take w = piece := by
      rw [← hhigh, List.drop_left, ← hpiece, List.take_left]
    rw [slices, List.range_succ, List.map_append, List.map_singleton, hlast, digits, hnumber]
    rw [slices, hshift] at hprev
    rw [hprev, Nat.mul_comm, Nat.mul_add_div (Nat.two_pow_pos w), Nat.div_eq_of_lt hmid, Nat.add_zero,
      Nat.mul_add_mod, Nat.mod_eq_of_lt hmid]

end Digits
