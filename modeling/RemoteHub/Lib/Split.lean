import RemoteHub.Lib.Text
import Mathlib.Data.List.Induction
import Mathlib.Data.List.TakeDrop
import Mathlib.Data.List.TakeWhile
import Mathlib.Data.String.Basic

/-!
# Split texts, decimal numbers and case

A text is its parts with a separator before each but the first: `pieces` finds the parts of such a
text (`pieces_joined`), and a text is what its parts make (`joined_pieces`). `Nat.repr` is read back by
`parseUnsigned` (`parseUnsigned_repr`), which takes other spellings too: `plainNumber` says which of
them `Nat.repr` would write (`plainNumber_iff`). A text without blanks stays as it is when it is trimmed
(`trim_eq_self`). `toLower_cases` says what the lower case of a character is.
-/

namespace Text

/-! ## Parts -/

section
variable {c : Char} {part s t acc : List Char} {parts : List (List Char)}

theorem pieces_of_notMem (h : c ∉ s) : pieces c acc s = [acc ++ s] := by
  induction s generalizing acc with
  | nil => rw [pieces, List.append_nil]
  | cons d s ih =>
    rw [List.mem_cons, not_or] at h
    rw [pieces, if_neg (Ne.symm h.1), ih h.2, List.append_assoc]
    rfl

theorem pieces_append_cons (h : c ∉ s) : pieces c acc (s ++ c :: t) = (acc ++ s) :: pieces c [] t := by
  induction s generalizing acc with
  | nil => rw [List.nil_append, pieces, if_pos rfl, List.append_nil]
  | cons d s ih =>
    rw [List.mem_cons, not_or] at h
    rw [List.cons_append, pieces, if_neg (Ne.symm h.1), ih h.2, List.append_assoc]
    rfl

/-- Parts without the separator are found again. -/
theorem pieces_joined (hpart : c ∉ part) (hparts : ∀ p ∈ parts, c ∉ p) :
    pieces c [] (part ++ parts.flatMap (c :: ·)) = part :: parts := by
  induction parts generalizing part with
  | nil => rw [List.flatMap_nil, List.append_nil, pieces_of_notMem hpart, List.nil_append]
  | cons p parts ih =>
    rw [List.flatMap_cons, List.cons_append, pieces_append_cons hpart, List.nil_append,
      ih (hparts p List.mem_cons_self) fun q hq => hparts q (List.mem_cons_of_mem p hq)]

theorem pieces_ne_nil : pieces c acc s ≠ [] := by
  induction s generalizing acc with
  | nil => exact List.cons_ne_nil _ _
  | cons d s ih =>
    rw [pieces]
    split
    · exact List.cons_ne_nil _ _
    · exact ih

/-- A text is what its parts make. -/
theorem joined_pieces (h : pieces c acc s = part :: parts) :
    acc ++ s = part ++ parts.flatMap (c :: ·) := by
  induction s generalizing acc part parts with
  | nil =>
    cases h
    simp
  | cons d s ih =>
    rw [pieces] at h
    split at h
    · rename_i hd
      obtain ⟨rfl, hrest⟩ := List.cons.inj h
      cases parts with
      | nil => exact absurd hrest pieces_ne_nil
      | cons p parts => rw [List.flatMap_cons, List.cons_append, ← ih hrest, List.nil_append, hd]
    · rw [← ih h, List.append_assoc]
      rfl

/-- No part has the separator. -/
theorem notMem_of_mem_pieces (hacc : c ∉ acc) (h : part ∈ pieces c acc s) : c ∉ part := by
  induction s generalizing acc with
  | nil =>
    rw [pieces, List.mem_singleton] at h
    rw [h]
    exact hacc
  | cons d s ih =>
    rw [pieces] at h
    split at h
    · rcases List.mem_cons.1 h with rfl | h
      · exact hacc
      · exact ih List.not_mem_nil h
    · rename_i hd
      refine ih ?_ h
      rw [List.mem_append, List.mem_singleton, not_or]
      exact ⟨hacc, Ne.symm hd⟩

/-- Every other character is in a part. -/
theorem exists_mem_pieces {d : Char} (hd : d ∈ acc ++ s) (hne : d ≠ c) : ∃ p ∈ pieces c acc s, d ∈ p := by
  induction s generalizing acc with
  | nil => exact ⟨acc, List.mem_singleton_self acc, by rwa [List.append_nil] at hd⟩
  | cons e s ih =>
    rw [pieces]
    split
    · rename_i he
      rcases List.mem_append.1 hd with hd | hd
      · exact ⟨acc, List.mem_cons_self, hd⟩
      · rcases List.mem_cons.1 hd with rfl | hd
        · exact absurd he hne
        · have hd : d ∈ [] ++ s := hd
          obtain ⟨p, hp, hd⟩ := ih hd
          exact ⟨p, List.mem_cons_of_mem _ hp, hd⟩
    · refine ih ?_
      rwa [List.append_assoc]

/-- After a separator at the end there is an empty part. -/
theorem nil_mem_pieces : [] ∈ pieces c acc (s ++ [c]) := by
  induction s generalizing acc with
  | nil =>
    rw [List.nil_append, pieces, if_pos rfl]
    exact List.mem_cons_of_mem _ (List.mem_singleton_self _)
  | cons d s ih =>
    rw [List.cons_append, pieces]
    split
    · exact List.mem_cons_of_mem _ ih
    · exact ih

theorem toList_intercalate_cons (sep part : String) (parts : List String) :
    (sep.intercalate (part :: parts)).toList = part.toList ++ parts.flatMap (sep.toList ++ ·.toList) := by
  induction parts generalizing part with
  | nil => simp
  | cons next parts ih =>
    rw [String.intercalate_cons_cons, String.toList_append, String.toList_append, ih, List.flatMap_cons,
      List.append_assoc, List.append_assoc]

/-- Parts that are not empty and have no separator determine what they are joined to. -/
theorem intercalate_inj {ps qs : List String} (hp : ∀ p ∈ ps, p ≠ "" ∧ c ∉ p.toList)
    (hq : ∀ q ∈ qs, q ≠ "" ∧ c ∉ q.toList)
    (h : (String.singleton c).intercalate ps = (String.singleton c).intercalate qs) : ps = qs := by
  have hpieces : ∀ (p : String) (ps : List String), (∀ q ∈ p :: ps, q ≠ "" ∧ c ∉ q.toList) →
      pieces c [] ((String.singleton c).intercalate (p :: ps)).toList = (p :: ps).map String.toList := by
    intro p ps hparts
    have hjoined := pieces_joined (hparts p List.mem_cons_self).2 (by
        intro part hpart
        obtain ⟨q, hmem, rfl⟩ := List.mem_map.1 hpart
        exact (hparts q (List.mem_cons_of_mem p hmem)).2)
    rw [List.flatMap_map] at hjoined
    rw [toList_intercalate_cons, String.toList_singleton]
    exact hjoined
  have hempty : ∀ (p : String) (ps : List String), p ≠ "" → (String.singleton c).intercalate (p :: ps) ≠ "" := by
    intro p ps hne h
    have hlist := toList_intercalate_cons (String.singleton c) p ps
    rw [h] at hlist
    exact hne (String.toList_eq_nil_iff.1 (List.append_eq_nil_iff.1 hlist.symm).1)
  cases ps with
  | nil =>
    cases qs with
    | nil => rfl
    | cons q qs => exact absurd (h.symm.trans String.intercalate_nil) (hempty q qs (hq q List.mem_cons_self).1)
  | cons p ps =>
    cases qs with
    | nil => exact absurd (h.trans String.intercalate_nil) (hempty p ps (hp p List.mem_cons_self).1)
    | cons q qs =>
      have hlists := hpieces p ps hp
      rw [h, hpieces q qs hq] at hlists
      exact (List.map_inj_right fun _ _ => String.toList_inj.1).1 hlists.symm

theorem pieces_append (acc s t : List Char) : pieces c acc (s ++ c :: t) = pieces c acc s ++ pieces c [] t := by
  induction s generalizing acc with
  | nil => simp [pieces]
  | cons d s ih =>
    rw [List.cons_append, pieces, pieces]
    split
    · rw [ih, List.cons_append]
    · exact ih _

/-- The parts of two texts with a separator between them. -/
theorem split_append (c : Char) (s t : String) :
    split c (s ++ String.singleton c ++ t) = split c s ++ split c t := by
  simp only [split, String.toList_append, String.toList_singleton, List.append_assoc, List.singleton_append,
    pieces_append, List.map_append]

/-- The parts determine the text. -/
theorem split_inj {s t : String} : s = t ↔ split c s = split c t := by
  refine ⟨fun h => by rw [h], fun h => ?_⟩
  have hpieces : pieces c [] s.toList = pieces c [] t.toList :=
    (List.map_inj_right fun _ _ => String.ofList_injective).1 h
  obtain ⟨part, parts, hs⟩ := List.exists_cons_of_ne_nil (pieces_ne_nil (c := c) (s := s.toList))
  have ht := hpieces.symm.trans hs
  rw [← String.toList_inj]
  exact (joined_pieces hs).trans (joined_pieces ht).symm

end

/-! ## Numbers -/

/-- A number as `Nat.repr` writes it: no sign and no leading zero. -/
def plainNumber (s : String) : Bool :=
  s.toList.head? ≠ some '+' && (s.toList.head? ≠ some '0' || s.toList.length = 1)

theorem foldl_digits (l : List Char) :
    l.foldl (fun n c => n * 10 + (c.toNat - '0'.toNat)) 0 = Nat.ofDigitChars 10 l 0 := by
  rw [Nat.ofDigitChars_eq_foldl]
  congr 1
  funext n c
  rw [Nat.mul_comm]

theorem head_toDigits_ne_plus (n : Nat) : (Nat.toDigits 10 n).head? ≠ some '+' := by
  intro h
  have hplus := Nat.isDigit_of_mem_toDigits (by decide) (by decide) (List.mem_of_mem_head? h)
  exact absurd hplus (by decide)

theorem head_toDigits_ne_zero {n : Nat} (h : 0 < n) : (Nat.toDigits 10 n).head? ≠ some '0' := by
  induction n using Nat.strongRecOn with
  | ind n ih =>
    by_cases hlow : n < 10
    · rw [Nat.toDigits_of_lt_base hlow]
      have hall : ∀ x : Fin 10, 0 < x.val → [x.val.digitChar].head? ≠ some '0' := by decide
      exact hall ⟨n, hlow⟩ h
    · rw [Nat.toDigits_of_base_le (by decide) (Nat.not_lt.1 hlow), List.head?_append]
      cases hhead : (Nat.toDigits 10 (n / 10)).head? with
      | none => exact absurd (List.head?_eq_none_iff.1 hhead) Nat.toDigits_ne_nil
      | some d =>
        rw [Option.some_or, ← hhead]
        exact ih (n / 10) (by omega) (by omega)

theorem parseUnsigned_repr {max n : Nat} (h : n ≤ max) : parseUnsigned max n.repr = some n := by
  have hdigits : (Nat.toDigits 10 n).all Char.isDigit = true :=
    List.all_eq_true.2 fun c hc => Nat.isDigit_of_mem_toDigits (by decide) (by decide) hc
  unfold parseUnsigned
  rw [Nat.toList_repr, if_neg (head_toDigits_ne_plus n), if_pos ⟨Nat.toDigits_ne_nil, hdigits⟩,
    foldl_digits, Nat.ofDigitChars_ten_toDigits, if_pos h]

theorem ofDigitChars_pos {l : List Char} (hdigits : ∀ c ∈ l, c.isDigit = true)
    (hne : l ≠ []) (hzero : l.head? ≠ some '0') : 0 < Nat.ofDigitChars 10 l 0 := by
  cases l with
  | nil => exact absurd rfl hne
  | cons c l =>
    rw [Nat.ofDigitChars_cons, Nat.ofDigitChars_eq_ofDigitChars_zero]
    have hc := hdigits c List.mem_cons_self
    have hc0 : c ≠ '0' := fun h => hzero (by rw [h]; rfl)
    have hpos : 0 < c.toNat - '0'.toNat := by
      simp only [Char.isDigit, Bool.and_eq_true, decide_eq_true_eq, ge_iff_le, UInt32.le_iff_toNat_le] at hc
      have hne : c.toNat ≠ '0'.toNat := fun h => hc0 (Char.toNat_inj.1 h)
      have hlow : 48 ≤ c.toNat := hc.1
      have hnum : '0'.toNat = 48 := rfl
      omega
    have := Nat.pow_pos (n := l.length) (show 0 < 10 by decide)
    have := Nat.mul_pos this (show 0 < 10 * 0 + (c.toNat - '0'.toNat) by omega)
    omega

/-- Digits without a leading zero are those of their number. -/
theorem toDigits_ofDigitChars {l : List Char} (hdigits : ∀ c ∈ l, c.isDigit = true) (hne : l ≠ [])
    (hzero : l.head? = some '0' → l.length = 1) : Nat.toDigits 10 (Nat.ofDigitChars 10 l 0) = l := by
  induction l using List.reverseRecOn with
  | nil => exact absurd rfl hne
  | append_singleton l d ih =>
    have hd := hdigits d (List.mem_append_right l List.mem_cons_self)
    obtain ⟨k, hk, rfl⟩ : ∃ k, k < 10 ∧ d = k.digitChar := by
      simp only [Char.isDigit, Bool.and_eq_true, decide_eq_true_eq, ge_iff_le, UInt32.le_iff_toNat_le] at hd
      have hlow : 48 ≤ d.toNat := hd.1
      have hhigh : d.toNat ≤ 57 := hd.2
      refine ⟨d.toNat - 48, by omega, Char.toNat_inj.1 ?_⟩
      have hall : ∀ x : Fin 10, x.val.digitChar.toNat = x.val + 48 := by decide
      rw [hall ⟨d.toNat - 48, by omega⟩]
      show d.toNat = d.toNat - 48 + 48
      omega
    rw [Nat.ofDigitChars_append, Nat.ofDigitChars_cons_digitChar_of_lt_ten hk, Nat.ofDigitChars_nil]
    cases l with
    | nil => rw [Nat.ofDigitChars_nil, Nat.mul_zero, Nat.zero_add, Nat.toDigits_of_lt_base hk]; rfl
    | cons c l =>
      have hhead : (c :: l).head? ≠ some '0' := by
        intro h
        have := hzero h
        simp at this
      have hl : ∀ e ∈ c :: l, e.isDigit = true := fun e he =>
        hdigits e (List.mem_append_left _ he)
      rw [← Nat.toDigits_append_toDigits (by decide) (ofDigitChars_pos hl (by simp) hhead) hk,
        ih hl (by simp) fun h => absurd h hhead, Nat.toDigits_of_lt_base hk]

theorem parseUnsigned_le {max n : Nat} {s : String} (h : parseUnsigned max s = some n) : n ≤ max := by
  simp only [parseUnsigned, Option.ite_none_right_eq_some, Option.some.injEq] at h
  obtain ⟨-, hle, rfl⟩ := h
  exact hle

/-- An accepted number is plain if it is what `Nat.repr` writes. -/
theorem plainNumber_iff {max n : Nat} {s : String} (h : parseUnsigned max s = some n) :
    plainNumber s = true ↔ s = n.repr := by
  rw [plainNumber, Bool.and_eq_true, Bool.or_eq_true, decide_eq_true_eq, decide_eq_true_eq,
    decide_eq_true_eq]
  constructor
  · rintro ⟨hplus, hzero⟩
    simp only [parseUnsigned, if_neg hplus, foldl_digits, Option.ite_none_right_eq_some,
      Option.some.injEq] at h
    obtain ⟨⟨hne, hdigits⟩, -, rfl⟩ := h
    rw [← String.toList_inj, Nat.toList_repr, toDigits_ofDigitChars (List.all_eq_true.1 hdigits) hne]
    exact fun h0 => hzero.resolve_left fun hz => hz h0
  · rintro rfl
    rw [Nat.toList_repr]
    refine ⟨head_toDigits_ne_plus n, ?_⟩
    by_cases hn : n = 0
    · rw [hn]
      exact .inr rfl
    · exact .inl (head_toDigits_ne_zero (Nat.pos_of_ne_zero hn))

theorem plainNumbers_iff {max : Nat} {texts : List String} {ns : List Nat}
    (h : texts.map (parseUnsigned max) = ns.map some) :
    texts = ns.map Nat.repr ↔ ∀ s ∈ texts, plainNumber s = true := by
  induction texts generalizing ns with
  | nil =>
    cases ns with
    | nil => simp
    | cons n ns => cases h
  | cons s texts ih =>
    cases ns with
    | nil => cases h
    | cons n ns =>
      obtain ⟨hs, htexts⟩ := List.cons.inj h
      rw [List.map_cons, List.cons.injEq, List.forall_mem_cons, plainNumber_iff hs, ih htexts]

/-! ## Ends -/

/-- Nothing is trimmed off a text without blanks. -/
theorem trim_eq_self {s : String} (h : ∀ c ∈ s.toList, isWhitespace c = false) : trim s = s := by
  have hdrop : ∀ l : List Char, (∀ c ∈ l, isWhitespace c = false) → l.dropWhile isWhitespace = l := by
    intro l hl
    cases l with
    | nil => rfl
    | cons c l =>
      rw [List.dropWhile_cons_of_neg]
      rw [hl c List.mem_cons_self]
      decide
  rw [trim, hdrop _ h, hdrop _ fun c hc => h c (List.mem_reverse.1 hc), List.reverse_reverse,
    String.ofList_toList]

theorem splitOnce_of_notMem {c : Char} {s : String} (h : c ∉ s.toList) : splitOnce c s = none := by
  have hdrop : s.toList.dropWhile (· ≠ c) = [] := by
    rw [List.dropWhile_eq_nil_iff]
    intro d hd
    exact decide_eq_true fun heq => h (heq ▸ hd)
  rw [splitOnce, List.span_eq_takeWhile_dropWhile, hdrop]

theorem splitOnce_of_append {c : Char} {s : String} {before after : List Char} (h : c ∉ before)
    (hs : s.toList = before ++ c :: after) : splitOnce c s = some (.ofList before, .ofList after) := by
  have hbefore : ∀ d ∈ before, decide (d ≠ c) = true := fun d hd =>
    decide_eq_true fun heq => h (heq ▸ hd)
  have hcut : s.toList.span (· ≠ c) = (before, c :: after) := by
    rw [List.span_eq_takeWhile_dropWhile, hs, List.takeWhile_append_of_pos hbefore,
      List.dropWhile_append_of_pos hbefore]
    simp
  rw [splitOnce, hcut]

/-! ## Case -/

theorem toLower_cases (c : Char) :
    (c.toLower = c ∧ ¬(65 ≤ c.toNat ∧ c.toNat ≤ 90)) ∨
      (65 ≤ c.toNat ∧ c.toNat ≤ 90 ∧ c.toLower.toNat = c.toNat + 32) := by
  unfold Char.toLower
  split
  · rename_i h
    have hlow : 65 ≤ c.toNat := h.1
    have hhigh : c.toNat ≤ 90 := h.2
    refine .inr ⟨hlow, hhigh, ?_⟩
    show (c.val + ('a'.val - 'A'.val)).toNat = _
    rw [UInt32.toNat_add]
    exact Nat.mod_eq_of_lt (by show c.toNat + 32 < _; omega)
  · exact .inl ⟨rfl, ‹_›⟩

theorem toLower_toLower (c : Char) : c.toLower.toLower = c.toLower := by
  rcases toLower_cases c.toLower with ⟨hlower, -⟩ | ⟨hlow, hhigh, -⟩
  · exact hlower
  · rcases toLower_cases c with ⟨hlower, -⟩ | ⟨hlow', -, hnum⟩
    · rw [hlower]
      exact hlower
    · omega

theorem toAsciiLowercase_toAsciiLowercase (s : String) :
    toAsciiLowercase (toAsciiLowercase s) = toAsciiLowercase s := by
  rw [toAsciiLowercase, toAsciiLowercase, String.toList_ofList, List.map_map]
  congr 2
  funext c
  exact toLower_toLower c

/-- `Char.isAlphanum` by numbers. -/
theorem isAlphanum_iff {c : Char} : c.isAlphanum = true ↔
    (65 ≤ c.toNat ∧ c.toNat ≤ 90) ∨ (97 ≤ c.toNat ∧ c.toNat ≤ 122) ∨ (48 ≤ c.toNat ∧ c.toNat ≤ 57) := by
  delta Char.isAlphanum Char.isAlpha Char.isUpper Char.isLower Char.isDigit
  simp only [Bool.or_eq_true, Bool.and_eq_true, decide_eq_true_eq, ge_iff_le, UInt32.le_iff_toNat_le]
  exact or_assoc

@[simp] theorem isAlphanum_toLower (c : Char) : c.toLower.isAlphanum = c.isAlphanum := by
  rw [Bool.eq_iff_iff, isAlphanum_iff, isAlphanum_iff]
  rcases toLower_cases c with ⟨hlower, -⟩ | ⟨hlow, hhigh, hnum⟩
  · rw [hlower]
  · omega

/-- No other character becomes one that is neither a letter nor a digit. -/
theorem toLower_eq_iff {c d : Char} (hd : d.isAlphanum = false) : c.toLower = d ↔ c = d := by
  rcases toLower_cases c with ⟨hlower, -⟩ | ⟨hlow, hhigh, -⟩
  · rw [hlower]
  · refine iff_of_false (fun h => ?_) (fun h => ?_)
    · rw [← h, isAlphanum_toLower, ← Bool.not_eq_true, isAlphanum_iff] at hd
      omega
    · rw [← h, ← Bool.not_eq_true, isAlphanum_iff] at hd
      omega

theorem utf8Size_of_lt {c : Char} (h : c.toNat < 128) : c.utf8Size = 1 :=
  if_pos (by
    show c.toNat ≤ 127
    omega)

@[simp] theorem utf8Size_toLower (c : Char) : c.toLower.utf8Size = c.utf8Size := by
  rcases toLower_cases c with ⟨hlower, -⟩ | ⟨hlow, hhigh, hnum⟩
  · rw [hlower]
  · rw [utf8Size_of_lt (c := c) (by omega), utf8Size_of_lt (c := c.toLower) (by omega)]

theorem utf8ByteSize_map_toLower (l : List Char) :
    (String.ofList (l.map Char.toLower)).utf8ByteSize = (String.ofList l).utf8ByteSize := by
  rw [String.utf8ByteSize_ofList, String.utf8ByteSize_ofList]
  induction l with
  | nil => rfl
  | cons c l ih => rw [List.map_cons, String.utf8Len, String.utf8Len, ih, utf8Size_toLower]

theorem pieces_map_toLower {c : Char} (hc : c.isAlphanum = false) (acc s : List Char) :
    pieces c (acc.map Char.toLower) (s.map Char.toLower) = (pieces c acc s).map (·.map Char.toLower) := by
  induction s generalizing acc with
  | nil => rfl
  | cons d s ih =>
    rw [List.map_cons, pieces, pieces]
    by_cases hd : d = c
    · rw [if_pos ((toLower_eq_iff hc).2 hd), if_pos hd, List.map_cons, ← ih, List.map_nil]
    · rw [if_neg (fun h => hd ((toLower_eq_iff hc).1 h)), if_neg hd, ← ih, List.map_append, List.map_singleton]

end Text
