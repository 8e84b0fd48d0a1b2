import RemoteHub.Lib.Digits

/-!
# Bytes of texts

A text's bytes determine it, and a UUID's text determines the UUID: without its hyphens it is 32
digits.
-/

abbrev Bytes := List UInt8

instance (priority := 2000) decidableMemBytes (b : Bytes) (bs : List Bytes) : Decidable (b ∈ bs) :=
  inferInstance

namespace Text

open Digits

/-- A text's bytes. -/
def utf8 (s : String) : Bytes := s.toUTF8.data.toList

/-- A UUID in its usual form: 32 hexadecimal digits in five groups. -/
def uuidText (u : BitVec 128) : String :=
  let hex := (digits 16 32 u.toNat).map Nat.digitChar
  .ofList (hex.take 8 ++ '-' :: ((hex.drop 8).take 4 ++ '-' :: ((hex.drop 12).take 4 ++
    '-' :: ((hex.drop 16).take 4 ++ '-' :: hex.drop 20))))

/-- A number in 32 bytes, big endian. -/
def bytes32 (n : Nat) : Bytes := (digits 256 32 n).map UInt8.ofNat

theorem utf8_inj {s t : String} : utf8 s = utf8 t ↔ s = t := by
  constructor
  · intro h
    rw [← String.toByteArray_inj]
    exact ByteArray.ext (Array.toList_inj.1 h)
  · rintro rfl
    rfl

theorem utf8_append (s t : String) : utf8 (s ++ t) = utf8 s ++ utf8 t := by
  simp [utf8]

theorem digitChar_inj {d e : Nat} (hd : d < 16) (he : e < 16) (h : d.digitChar = e.digitChar) :
    d = e := by
  have hall : ∀ x : Fin 16, ∀ y : Fin 16, x.val.digitChar = y.val.digitChar → x = y := by decide
  exact congrArg Fin.val (hall ⟨d, hd⟩ ⟨e, he⟩ h)

theorem digitChar_ne_hyphen {d : Nat} (hd : d < 16) : d.digitChar ≠ '-' := by
  have hall : ∀ x : Fin 16, x.val.digitChar ≠ '-' := by decide
  exact hall ⟨d, hd⟩

theorem map_digitChar_inj {l l' : List Nat} (hl : ∀ d ∈ l, d < 16) (hl' : ∀ d ∈ l', d < 16)
    (h : l.map Nat.digitChar = l'.map Nat.digitChar) : l = l' := by
  induction l generalizing l' with
  | nil => exact (List.map_eq_nil_iff.1 h.symm).symm
  | cons d l ih =>
    cases l' with
    | nil => cases h
    | cons d' l' =>
      obtain ⟨hhead, htail⟩ := List.cons.inj h
      rw [digitChar_inj (hl d List.mem_cons_self) (hl' d' List.mem_cons_self) hhead,
        ih (fun e he => hl e (List.mem_cons_of_mem _ he))
          (fun e he => hl' e (List.mem_cons_of_mem _ he)) htail]

theorem length_uuidText (u : BitVec 128) : (uuidText u).toList.length = 36 := by
  simp [uuidText]

/-- Four groups and the rest are the whole. -/
theorem groups_append {α : Type} (l : List α) :
    l.take 8 ++ ((l.drop 8).take 4 ++ ((l.drop 12).take 4 ++ ((l.drop 16).take 4 ++ l.drop 20))) =
      l := by
  have hgroup : ∀ n : Nat, (l.drop n).take 4 ++ l.drop (n + 4) = l.drop n := by
    intro n
    rw [← List.drop_drop]
    exact List.take_append_drop 4 (l.drop n)
  rw [hgroup 16, hgroup 12, hgroup 8, List.take_append_drop]

/-- Without the hyphens, a UUID's text is its digits. -/
theorem filter_uuidText (u : BitVec 128) :
    (uuidText u).toList.filter (· ≠ '-') = (digits 16 32 u.toNat).map Nat.digitChar := by
  have hdigits : ∀ c ∈ (digits 16 32 u.toNat).map Nat.digitChar, decide (c ≠ '-') = true := by
    intro c hc
    obtain ⟨d, hd, rfl⟩ := List.mem_map.1 hc
    exact decide_eq_true (digitChar_ne_hyphen (mem_digits_lt (by decide) hd))
  simp only [uuidText, String.toList_ofList]
  generalize (digits 16 32 u.toNat).map Nat.digitChar = hex at hdigits
  have hhyphen : ∀ l r : List Char, l ⊆ hex →
      (l ++ '-' :: r).filter (· ≠ '-') = l ++ r.filter (· ≠ '-') := by
    intro l r hl
    rw [List.filter_append, List.filter_eq_self.2 fun c hc => hdigits c (hl hc)]
    rfl
  rw [hhyphen _ _ (List.take_subset _ _),
    hhyphen _ _ (List.Subset.trans (List.take_subset _ _) (List.drop_subset _ _)),
    hhyphen _ _ (List.Subset.trans (List.take_subset _ _) (List.drop_subset _ _)),
    hhyphen _ _ (List.Subset.trans (List.take_subset _ _) (List.drop_subset _ _)),
    List.filter_eq_self.2 fun c hc => hdigits c (List.drop_subset _ _ hc), groups_append]

theorem uuidText_inj {u v : BitVec 128} (h : (uuidText u).toList = (uuidText v).toList) : u = v := by
  have hfilter := congrArg (List.filter (· ≠ '-')) h
  rw [filter_uuidText, filter_uuidText] at hfilter
  have hdigits := map_digitChar_inj (fun d hd => mem_digits_lt (by decide) hd)
    (fun d hd => mem_digits_lt (by decide) hd) hfilter
  exact BitVec.eq_of_toNat_eq (digits_inj (by omega) (by omega) hdigits)

end Text
