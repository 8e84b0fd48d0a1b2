import Mathlib.Tactic.IntervalCases
import RemoteHub.Lib.Digits
import RemoteHub.Lib.Text

/-!
# Base32

The digits of RFC 4648. `pack` makes the bytes of digits and leaves out the bits that do not fill a
byte; `decode` has them be zero, and as few digits as the bytes need, without padding. `packLoop` makes
the bytes one by one as the digits come, in a register of 32 bits (`packLoop_eq`).
-/

namespace Base32

def alphabet : List Char := "ABCDEFGHIJKLMNOPQRSTUVWXYZ234567".toList

/-- The number that digits are. -/
abbrev number (ds : List Nat) : Nat := Digits.ofDigits 32 ds

/-- The bytes of digits, as far as they are full. -/
def pack (ds : List Nat) : List UInt8 :=
  (Digits.digits 256 (5 * ds.length / 8) (number ds / 2 ^ (5 * ds.length % 8))).map UInt8.ofNat

/-- No digit more than the bytes need, and no bit set that is in none of them. -/
def Strict (ds : List Nat) : Prop :=
  ds.length % 8 ∈ [0, 2, 4, 5, 7] ∧ number ds % 2 ^ (5 * ds.length % 8) = 0

instance (ds : List Nat) : Decidable (Strict ds) := inferInstanceAs (Decidable (_ ∧ _))

/-- Base32 without padding. -/
def decode (s : String) : Option (List UInt8) :=
  let ds := s.toList.map alphabet.idxOf
  if (∀ c ∈ s.toList, c ∈ alphabet) ∧ Strict ds then some (pack ds) else none

@[simp] theorem length_pack (ds : List Nat) : (pack ds).length = 5 * ds.length / 8 := by
  rw [pack, List.length_map, Digits.length_digits]

theorem idxOf_lt {c : Char} (h : c ∈ alphabet) : alphabet.idxOf c < 32 := List.idxOf_lt_length_of_mem h

/-! ## Byte by byte -/

/-- The bytes that are full, the number of bits beyond them, and the last 32 bits. -/
structure Register where
  bytes : List UInt8
  bits : Nat
  value : Nat

def Register.push (r : Register) (d : Nat) : Register :=
  let value := r.value * 32 % 2 ^ 32 + d
  let bits := r.bits + 5
  if 8 ≤ bits then ⟨r.bytes ++ [.ofNat (value / 2 ^ (bits - 8) % 256)], bits - 8, value⟩
  else ⟨r.bytes, bits, value⟩

def packLoop (ds : List Nat) : List UInt8 := (ds.foldl Register.push ⟨[], 0, 0⟩).bytes

/-- What the register holds of the digits so far. -/
structure Register.Holds (r : Register) (ds : List Nat) : Prop where
  value : r.value = number ds % 2 ^ 32
  bits : r.bits = 5 * ds.length % 8
  bytes : r.bytes = pack ds

theorem Register.Holds.push {r : Register} {ds : List Nat} {d : Nat} (h : r.Holds ds) (hd : d < 32) :
    (r.push d).Holds (ds ++ [d]) := by
  have hnumber : number (ds ++ [d]) = number ds * 32 + d := Digits.ofDigits_append_singleton 32 ds d
  have hvalue : r.value * 32 % 2 ^ 32 + d = number (ds ++ [d]) % 2 ^ 32 := by
    rw [h.value, hnumber]
    omega
  have hlength : 5 * (ds ++ [d]).length = 5 * ds.length + 5 := by
    rw [List.length_append, List.length_singleton]
    omega
  have hshift : ∀ bits, number (ds ++ [d]) / 2 ^ (bits + 5) = number ds / 2 ^ bits := by
    intro bits
    rw [hnumber, Nat.pow_add, Nat.mul_comm (2 ^ bits), ← Nat.div_div_eq_div_mul]
    congr 1
    omega
  unfold Register.push
  rw [hvalue, h.bits, h.bytes]
  dsimp only
  by_cases hfull : 8 ≤ 5 * ds.length % 8 + 5
  · rw [if_pos hfull]
    have hbits : 5 * ds.length % 8 + 5 - 8 = (5 * ds.length + 5) % 8 := by omega
    refine ⟨rfl, hlength ▸ hbits, ?_⟩
    have hcount : 5 * (ds ++ [d]).length / 8 = 5 * ds.length / 8 + 1 := by omega
    have hrest : number (ds ++ [d]) / 2 ^ ((5 * ds.length + 5) % 8) / 256 =
        number ds / 2 ^ (5 * ds.length % 8) := by
      rw [← hshift, Nat.div_div_eq_div_mul, show 256 = 2 ^ 8 from rfl, ← Nat.pow_add]
      congr 2
      omega
    have hbyte : number (ds ++ [d]) % 2 ^ 32 / 2 ^ ((5 * ds.length + 5) % 8) % 256 =
        number (ds ++ [d]) / 2 ^ ((5 * ds.length + 5) % 8) % 256 := by
      have hsmall : (5 * ds.length + 5) % 8 < 8 := Nat.mod_lt _ (by decide)
      generalize (5 * ds.length + 5) % 8 = k at hsmall
      interval_cases k <;> omega
    rw [pack, pack, hcount, hlength, Digits.digits, hrest, List.map_append, List.map_singleton, hbits, hbyte]
  · rw [if_neg hfull]
    have hbits : (5 * ds.length + 5) % 8 = 5 * ds.length % 8 + 5 := by omega
    refine ⟨rfl, (hlength ▸ hbits).symm, ?_⟩
    have hcount : 5 * (ds ++ [d]).length / 8 = 5 * ds.length / 8 := by omega
    rw [pack, pack, hcount, hlength, hbits, hshift]

theorem packLoop_eq {ds : List Nat} (h : ∀ d ∈ ds, d < 32) : packLoop ds = pack ds := by
  have hholds : (ds.foldl Register.push ⟨[], 0, 0⟩).Holds ds := by
    induction ds using List.reverseRecOn with
    | nil => exact ⟨rfl, rfl, rfl⟩
    | append_singleton ds d ih =>
      rw [List.foldl_append]
      exact (ih fun e he => h e (List.mem_append_left _ he)).push (h d (by simp))
  exact hholds.bytes

end Base32
