import RemoteHub.Lib.Bytes
import RemoteHub.Lib.Split

/-!
# `application/x-www-form-urlencoded`

What `URLSearchParams` writes: names and values in UTF-8 with `+` for a blank and `%XX` for all bytes but
letters, digits and `*-._`. The separators are not among what it writes of them (`Written`), so that its text
is cut again into what it was put together from (`split_serialize`, `splitOnce_part`).
-/

namespace UrlEncoded

/-- A hexadecimal digit, as it is written after `%`. -/
def hexDigit (n : Nat) : Char := n.digitChar.toUpper

/-- Letters, digits and `*-._`. -/
def isPlain (c : Char) : Bool := c.isAlphanum || c ∈ ['*', '-', '.', '_']

def encodeByte (b : UInt8) : List Char :=
  let c := Char.ofNat b.toNat
  if isPlain c then [c]
  else if c = ' ' then ['+']
  else ['%', hexDigit (b.toNat / 16), hexDigit (b.toNat % 16)]

def encode (s : String) : List Char := (Text.utf8 s).flatMap encodeByte

/-- Pairs of names and values, with `&` between them. -/
def serialize (pairs : List (String × String)) : String :=
  "&".intercalate (pairs.map fun pair => .ofList (encode pair.1 ++ '=' :: encode pair.2))

/-! ## What is written -/

/-- The characters of what is encoded. -/
def Written (c : Char) : Prop := isPlain c = true ∨ c = '+' ∨ c = '%'

theorem Written.range {c : Char} (h : Written c) :
    0x25 ≤ c.toNat ∧ c.toNat < 0x7f ∧ c ≠ '&' ∧ c ≠ '=' ∧ c ≠ '?' := by
  have hplain : isPlain c = true → c.isAlphanum = true ∨ c ∈ ['*', '-', '.', '_'] := by
    intro h
    simpa [isPlain] using h
  rcases h with h | rfl | rfl
  · rcases hplain h with halpha | hmark
    · have hrange := Text.isAlphanum_iff.1 halpha
      refine ⟨by omega, by omega, ?_, ?_, ?_⟩
      all_goals
        rintro rfl
        exact absurd halpha (by decide)
    · simp only [List.mem_cons, List.not_mem_nil, or_false] at hmark
      rcases hmark with rfl | rfl | rfl | rfl
      all_goals decide
  · decide
  · decide

theorem isPlain_hexDigit {n : Nat} (h : n < 16) : isPlain (hexDigit n) = true := by
  have hall : ∀ n : Fin 16, isPlain (hexDigit n) = true := by decide
  exact hall ⟨n, h⟩

theorem written_of_mem {s : String} {c : Char} (h : c ∈ encode s) : Written c := by
  obtain ⟨b, -, hb⟩ := List.mem_flatMap.1 h
  have hbyte := b.toNat_lt
  simp only [encodeByte] at hb
  split at hb
  · rename_i hplain
    exact .inl (List.mem_singleton.1 hb ▸ hplain)
  · split at hb
    · exact .inr (.inl (List.mem_singleton.1 hb))
    · simp only [List.mem_cons, List.not_mem_nil, or_false] at hb
      rcases hb with rfl | rfl | rfl
      · exact .inr (.inr rfl)
      · exact .inl (isPlain_hexDigit (by omega))
      · exact .inl (isPlain_hexDigit (by omega))

/-- A name and its value. -/
def part (pair : String × String) : String := .ofList (encode pair.1 ++ '=' :: encode pair.2)

theorem mem_part {pair : String × String} {c : Char} (h : c ∈ (part pair).toList) : Written c ∨ c = '=' := by
  rw [part, String.toList_ofList, List.mem_append, List.mem_cons] at h
  rcases h with hname | rfl | hvalue
  · exact .inl (written_of_mem hname)
  · exact .inr rfl
  · exact .inl (written_of_mem hvalue)

theorem notMem_part (pair : String × String) : '&' ∉ (part pair).toList := by
  intro h
  rcases mem_part h with hwritten | heq
  · exact hwritten.range.2.2.1 rfl
  · exact absurd heq (by decide)

theorem splitOnce_part (pair : String × String) :
    Text.splitOnce '=' (part pair) = some (.ofList (encode pair.1), .ofList (encode pair.2)) :=
  Text.splitOnce_of_append (fun h => (written_of_mem h).range.2.2.2.1 rfl) String.toList_ofList

theorem toList_serialize (pair : String × String) (pairs : List (String × String)) :
    (serialize (pair :: pairs)).toList =
      (part pair).toList ++ (pairs.map fun p => (part p).toList).flatMap ('&' :: ·) := by
  rw [serialize, List.map_cons, Text.toList_intercalate_cons, List.flatMap_map, List.flatMap_map]
  rfl

theorem split_serialize (pair : String × String) (pairs : List (String × String)) :
    Text.split '&' (serialize (pair :: pairs)) = (pair :: pairs).map part := by
  have hparts : ∀ p ∈ pairs.map fun p => (part p).toList, '&' ∉ p :=
    List.forall_mem_map.2 fun p _ => notMem_part p
  rw [Text.split, toList_serialize, Text.pieces_joined (notMem_part pair) hparts, List.map_cons, List.map_map,
    String.ofList_toList, List.map_cons]
  refine congrArg (part pair :: ·) (List.map_congr_left fun p _ => ?_)
  exact String.ofList_toList

theorem mem_serialize {pairs : List (String × String)} {c : Char} (h : c ∈ (serialize pairs).toList) :
    Written c ∨ c = '=' ∨ c = '&' := by
  cases pairs with
  | nil => cases h
  | cons pair pairs =>
    rw [toList_serialize, List.mem_append, List.mem_flatMap] at h
    rcases h with hpart | ⟨text, htext, hc⟩
    · exact (mem_part hpart).imp_right .inl
    · obtain ⟨p, -, rfl⟩ := List.mem_map.1 htext
      rcases List.mem_cons.1 hc with rfl | hpart
      · exact .inr (.inr rfl)
      · exact (mem_part hpart).imp_right .inl

end UrlEncoded
