import RemoteHub.Lib.Bytes
import RemoteHub.Lib.Json

/-!
# How long JSON is

`size` is the number of bytes of a text (`length_utf8`). A text of `n` characters is quoted in at most
`6 * n + 2` bytes (`size_quote_le`), and an array is as long as its items and a comma after each but the
last.
-/

namespace JsonText

/-- The bytes of a text. -/
def size : List Char → Nat
  | [] => 0
  | c :: s => c.utf8Size + size s

@[simp] theorem size_nil : size [] = 0 := rfl

@[simp] theorem size_cons (c : Char) (s : List Char) : size (c :: s) = c.utf8Size + size s := rfl

@[simp] theorem size_append (s t : List Char) : size (s ++ t) = size s + size t := by
  induction s with
  | nil => exact (Nat.zero_add _).symm
  | cons c s ih => rw [List.cons_append, size_cons, ih, size_cons, Nat.add_assoc]

theorem length_utf8 (s : List Char) : (Text.utf8 (.ofList s)).length = size s := by
  induction s with
  | nil => rfl
  | cons c s ih =>
    have hone : (Text.utf8 (.ofList [c])).length = c.utf8Size := String.utf8ByteSize_singleton
    rw [← List.singleton_append, String.ofList_append, Text.utf8_append, List.length_append, hone, ih]
    rfl

theorem length_le_size (s : List Char) : s.length ≤ size s := by
  induction s with
  | nil => exact Nat.le_refl 0
  | cons c s ih =>
    have hc : 0 < c.utf8Size := c.utf8Size_pos
    rw [size_cons, List.length_cons]
    omega

theorem size_le (s : List Char) : size s ≤ 4 * s.length := by
  induction s with
  | nil => exact Nat.le_refl 0
  | cons c s ih =>
    have hc : c.utf8Size ≤ 4 := c.utf8Size_le_four
    rw [size_cons, List.length_cons]
    omega

/-- A character is escaped in at most six bytes. -/
theorem size_escape_le (c : Char) : size (escape c) ≤ 6 := by
  by_cases hcontrol : c.toNat < 32
  · have hall : ∀ n : Fin 32, size (escape (Char.ofNat n)) ≤ 6 := by decide
    rw [← Char.ofNat_toNat c]
    exact hall ⟨c.toNat, hcontrol⟩
  · by_cases hquote : c = '"'
    · subst hquote
      decide
    · by_cases hback : c = '\\'
      · subst hback
        decide
      · have hc : c.utf8Size ≤ 4 := c.utf8Size_le_four
        rw [escape_plain hquote hback (by omega), size_cons, size_nil]
        omega

theorem size_quote_le (s : List Char) : size (quote s) ≤ 6 * s.length + 2 := by
  have hinside : size (s.flatMap escape) ≤ 6 * s.length := by
    induction s with
    | nil => exact Nat.le_refl 0
    | cons c s ih =>
      have hc := size_escape_le c
      rw [List.flatMap_cons, size_append, List.length_cons]
      omega
  have hmark : Char.utf8Size '"' = 1 := rfl
  rw [quote, List.cons_append, size_cons, size_append, size_cons, size_nil, hmark]
  omega

end JsonText

namespace Json

open JsonText

theorem size_writeItems_le {items : List Json} {n : Nat} (h : ∀ item ∈ items, size item.write ≤ n) :
    size (writeItems items) ≤ items.length * (n + 1) := by
  induction items with
  | nil =>
    rw [writeItems, size_nil]
    exact Nat.zero_le _
  | cons item items ih =>
    have hitem := h item List.mem_cons_self
    have hitems := ih fun i hi => h i (List.mem_cons_of_mem item hi)
    have hcomma : Char.utf8Size ',' = 1 := rfl
    cases items with
    | nil =>
      rw [writeItems, List.length_singleton]
      omega
    | cons item' items =>
      rw [writeItems, size_append, size_cons, hcomma, List.length_cons, Nat.add_mul, Nat.one_mul]
      · omega
      · exact List.cons_ne_nil _ _

end Json
