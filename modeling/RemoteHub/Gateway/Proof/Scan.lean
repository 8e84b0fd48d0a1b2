import RemoteHub.Gateway.Guacamole
import Mathlib.Algebra.Group.Nat.Defs
import Mathlib.Data.List.TakeWhile
import Mathlib.Tactic.SplitIfs

/-!
# What `scan` finds

* `scanElement_eq`, `scanFrom_eq`: no index and no slice of `scan` is outside the buffer.
* `scan_append`: once `scan` has found an instruction or an error, bytes that follow change nothing.
* `scanElement_whole`: an encoded element is found, whatever characters its value has.
-/

namespace Gateway

/-! ## Bytes of a text -/

theorem bytes_append (s t : String) : bytes (s ++ t) = bytes s ++ bytes t := by
  simp [bytes, String.toByteArray_append, ByteArray.data_append]

theorem bytes_eq_flatMap (s : String) : bytes s = s.toList.flatMap String.utf8EncodeChar := by
  conv_lhs => rw [← String.ofList_toList (s := s)]
  unfold bytes
  rw [String.toByteArray_ofList, List.utf8Encode, List.data_toByteArray, List.toList_toArray]

theorem toByteArray_bytes (s : String) : (bytes s).toByteArray = s.toByteArray := by
  apply ByteArray.ext
  simp [bytes]

theorem fromUtf8_bytes (s : String) : fromUtf8 (bytes s) = some s := by
  unfold fromUtf8 String.fromUTF8?
  rw [toByteArray_bytes, dif_pos s.isValidUTF8]
  rfl

theorem bytes_of_fromUtf8 {b : List UInt8} {s : String} (h : fromUtf8 b = some s) :
    bytes s = b := by
  unfold fromUtf8 String.fromUTF8? at h
  split at h
  · rw [Option.some.injEq] at h
    rw [← h]
    simp [bytes, String.fromUTF8]
  · cases h

/-- The first byte of a character's encoding says how long it is. -/
theorem leadLength_utf8EncodeChar (c : Char) :
    ∃ lead rest, String.utf8EncodeChar c = lead :: rest ∧
      leadLength lead = some (String.utf8EncodeChar c).length := by
  have hv : c.val.toNat < 0x110000 := by
    have := c.valid
    unfold UInt32.isValidChar Nat.isValidChar at this
    omega
  unfold String.utf8EncodeChar
  simp only
  split_ifs with h1 h2 h3
  all_goals
    refine ⟨_, _, rfl, ?_⟩
    simp only [leadLength, UInt8.le_iff_toNat_le, UInt8.toNat_ofNat', UInt8.reduceToNat,
      List.length_cons, List.length_nil]
    rw [Nat.mod_eq_of_lt (by omega)]
    split_ifs <;> first | rfl | omega

/-! ## The digits of a length -/

theorem isAsciiDigit_iff {b : UInt8} : isAsciiDigit b = true ↔ 48 ≤ b.toNat ∧ b.toNat ≤ 57 := by
  simp [isAsciiDigit, UInt8.le_iff_toNat_le]

/-- The value of a run of digits. -/
def digitsValue (ds : List UInt8) : Nat := ds.foldl (fun n d => 10 * n + (d.toNat - 48)) 0

theorem parseLength_eq {ds : List UInt8} (hne : ds ≠ []) (hd : ds.all isAsciiDigit) :
    parseLength ds = some (digitsValue ds) := if_pos ⟨hne, hd⟩

theorem digitsValue_lt {ds : List UInt8} (hd : ds.all isAsciiDigit) :
    digitsValue ds < 10 ^ ds.length := by
  induction ds using List.reverseRecOn with
  | nil => decide
  | append_singleton ds d ih =>
    rw [List.all_append, Bool.and_eq_true] at hd
    have ih := ih hd.1
    have hd' : 48 ≤ d.toNat ∧ d.toNat ≤ 57 := by
      apply isAsciiDigit_iff.1
      simpa using hd.2
    have hval : digitsValue (ds ++ [d]) = 10 * digitsValue ds + (d.toNat - 48) := by
      simp [digitsValue]
    rw [hval, List.length_append, List.length_singleton, Nat.pow_succ]
    omega

/-- A character of ASCII is one byte. -/
theorem utf8EncodeChar_ascii {c : Char} (h : c.toNat < 128) :
    String.utf8EncodeChar c = [UInt8.ofNat c.toNat] := by
  unfold String.utf8EncodeChar
  rw [if_pos (show c.val.toNat ≤ 127 from Nat.le_of_lt_succ h)]
  rfl

theorem bytes_toString (n : Nat) :
    bytes (toString n) = (Nat.toDigits 10 n).map fun c => UInt8.ofNat c.toNat := by
  rw [bytes_eq_flatMap, Nat.toString_eq_ofList_toDigits, String.toList_ofList,
    List.map_eq_flatMap]
  apply List.flatMap_congr
  intro c hc
  have hd := Nat.isDigit_of_mem_toDigits (by decide) (by decide) hc
  have hlt : c.toNat < 128 := by
    simp only [Char.isDigit, Bool.and_eq_true, decide_eq_true_eq, UInt32.le_iff_toNat_le] at hd
    exact Nat.lt_of_le_of_lt hd.2 (by decide)
  exact utf8EncodeChar_ascii hlt

theorem toString_ne_nil (n : Nat) : bytes (toString n) ≠ [] := by
  rw [bytes_toString]
  simp [Nat.toDigits_ne_nil]

theorem mem_toDigits_toNat {n : Nat} {c : Char} (h : c ∈ Nat.toDigits 10 n) :
    48 ≤ c.toNat ∧ c.toNat ≤ 57 := by
  have hd := Nat.isDigit_of_mem_toDigits (by decide) (by decide) h
  simp only [Char.isDigit, Bool.and_eq_true, decide_eq_true_eq, UInt32.le_iff_toNat_le] at hd
  exact hd

theorem toNat_toDigits {n : Nat} {c : Char} (h : c ∈ Nat.toDigits 10 n) :
    (UInt8.ofNat c.toNat).toNat = c.toNat := by
  have := mem_toDigits_toNat h
  rw [UInt8.toNat_ofNat', Nat.mod_eq_of_lt (by omega)]

theorem toString_all_digits (n : Nat) : (bytes (toString n)).all isAsciiDigit := by
  rw [bytes_toString, List.all_map, List.all_eq_true]
  intro c hc
  rw [Function.comp_apply, isAsciiDigit_iff, toNat_toDigits hc]
  exact mem_toDigits_toNat hc

theorem length_toString_le {n : Nat} (h : n ≤ 99999) : (bytes (toString n)).length ≤ 5 := by
  rw [bytes_toString, List.length_map]
  exact (Nat.length_toDigits_le_iff (by decide) (by decide)).2 (by omega)

/-- A written length reads back. -/
theorem digitsValue_toString (n : Nat) : digitsValue (bytes (toString n)) = n := by
  rw [bytes_toString]
  unfold digitsValue
  rw [List.foldl_map]
  conv_rhs => rw [← Nat.ofDigitChars_ten_toDigits (n := n), Nat.ofDigitChars_eq_foldl]
  apply List.foldl_ext
  intro acc c hc
  rw [toNat_toDigits hc]
  rfl

/-! ## Characters -/

theorem skipChars_append (b c : List UInt8) (n pos : Nat) :
    skipChars b n pos = .ok none ∨ skipChars (b ++ c) n pos = skipChars b n pos := by
  induction n generalizing pos with
  | zero => exact .inr rfl
  | succ n ih =>
    unfold skipChars
    cases hb : b[pos]? with
    | none => exact .inl rfl
    | some lead =>
      obtain ⟨hlt, -⟩ := List.getElem?_eq_some_iff.1 hb
      rw [List.getElem?_append_left hlt, hb]
      simp only
      cases leadLength lead with
      | none => exact .inr rfl
      | some k => exact ih (pos + k)

theorem leadLength_pos {lead : UInt8} {k : Nat} (h : leadLength lead = some k) : 0 < k := by
  unfold leadLength at h
  split_ifs at h <;> cases h <;> decide

theorem skipChars_add {b : List UInt8} {m n pos mid : Nat}
    (h : skipChars b m pos = .ok (some mid)) : skipChars b (m + n) pos = skipChars b n mid := by
  induction m generalizing pos with
  | zero =>
    simp only [skipChars, Except.ok.injEq, Option.some.injEq] at h
    rw [h, Nat.zero_add]
  | succ m ih =>
    rw [Nat.add_right_comm]
    simp only [skipChars] at h ⊢
    cases hb : b[pos]? with
    | none => simp [hb] at h
    | some lead =>
      simp only [hb] at h ⊢
      cases hk : leadLength lead with
      | none => simp [hk] at h
      | some k =>
        simp only [hk] at h ⊢
        exact ih h

/-- Characters take bytes. -/
theorem le_of_skipChars {b : List UInt8} {n pos stop : Nat}
    (h : skipChars b n pos = .ok (some stop)) : pos + n ≤ stop := by
  induction n generalizing pos with
  | zero => simp [skipChars] at h; omega
  | succ n ih =>
    unfold skipChars at h
    cases hb : b[pos]? with
    | none => simp [hb] at h
    | some lead =>
      simp only [hb] at h
      cases hk : leadLength lead with
      | none => simp [hk] at h
      | some k =>
        simp only [hk] at h
        have := ih h
        have := leadLength_pos hk
        omega

/-- **The characters of a text are skipped as many as there are**, whatever bytes they have. -/
theorem skipChars_whole {b : List UInt8} {cs : List Char} {pos : Nat} {rest : List UInt8}
    (h : b.drop pos = cs.flatMap String.utf8EncodeChar ++ rest) :
    skipChars b cs.length pos =
      .ok (some (pos + (cs.flatMap String.utf8EncodeChar).length)) := by
  induction cs generalizing pos with
  | nil => rfl
  | cons c cs ih =>
    obtain ⟨lead, tail, hc, hlead⟩ := leadLength_utf8EncodeChar c
    rw [List.flatMap_cons, List.append_assoc] at h
    have hb : b[pos]? = some lead := by
      have := congrArg List.head? h
      rw [hc] at this
      simpa [List.head?_drop] using this
    have hnext : b.drop (pos + (String.utf8EncodeChar c).length) =
        cs.flatMap String.utf8EncodeChar ++ rest := by
      rw [← List.drop_drop, h, List.drop_left]
    rw [List.length_cons]
    unfold skipChars
    simp only [hb, hlead]
    rw [ih hnext, List.flatMap_cons, List.length_append, Nat.add_assoc]

/-- Two runs of characters between the same bytes are equally long. -/
theorem skipChars_inj {b : List UInt8} {m n pos stop : Nat}
    (hm : skipChars b m pos = .ok (some stop)) (hn : skipChars b n pos = .ok (some stop)) :
    m ≤ n := by
  by_contra hlt
  obtain ⟨d, rfl⟩ : ∃ d, m = n + d := ⟨m - n, by omega⟩
  rw [skipChars_add hn] at hm
  have := le_of_skipChars hm
  omega

/-- As many characters as were skipped are in the text the skipped bytes are. -/
theorem length_of_skipChars {b : List UInt8} {n start stop : Nat} {s : String}
    (h : skipChars b n start = .ok (some stop)) (hstop : stop ≤ b.length)
    (hs : bytes s = (b.drop start).take (stop - start)) : s.length = n := by
  have hle := le_of_skipChars h
  have hlen : (bytes s).length = stop - start := by
    rw [hs, List.length_take, List.length_drop]
    omega
  have hrest : b.drop start = s.toList.flatMap String.utf8EncodeChar ++
      (b.drop start).drop (stop - start) := by
    rw [← bytes_eq_flatMap, hs, List.take_append_drop]
  have hskip := skipChars_whole hrest
  rw [← bytes_eq_flatMap, String.length_toList, hlen, Nat.add_sub_cancel' (by omega)] at hskip
  have h1 := skipChars_inj h hskip
  have h2 := skipChars_inj hskip h
  omega

/-! ## Elements -/

theorem slice_eq {b : List UInt8} {start stop : Nat} (h : start ≤ stop ∧ stop ≤ b.length) :
    slice b start stop = .ok ((b.drop start).take (stop - start)) := if_pos h

/-- The digits at a position. -/
def digitsAt (b : List UInt8) (pos : Nat) : List UInt8 := (b.drop pos).takeWhile isAsciiDigit

theorem digitsAt_all (b : List UInt8) (pos : Nat) : (digitsAt b pos).all isAsciiDigit := by
  rw [List.all_eq_true]
  intro d hd
  exact List.mem_takeWhile_imp hd

theorem slice_digitsAt {b : List UInt8} {pos : Nat} (h : pos + (digitsAt b pos).length ≤ b.length) :
    slice b pos (pos + (digitsAt b pos).length) = .ok (digitsAt b pos) := by
  rw [slice_eq ⟨by omega, h⟩, Nat.add_sub_cancel_left]
  congr 1
  exact (List.prefix_iff_eq_take.1 (List.takeWhile_prefix _)).symm

theorem index_eq {b : List UInt8} {i : Nat} (h : i < b.length) : index b i = .ok b[i] := by
  unfold index
  rw [List.getElem?_eq_getElem h]

/-- **No index is outside the buffer**: what one round of `scan` computes, without the slices. -/
theorem scanElement_eq {b : List UInt8} {pos : Nat} (hpos : pos ≤ b.length) :
    scanElement b pos =
      if 5 < (digitsAt b pos).length then .error (.malformed "element too long")
      else if b.length ≤ pos + (digitsAt b pos).length then .ok none
      else if digitsAt b pos = [] ∨ b[pos + (digitsAt b pos).length]? ≠ some 46 then
        .error (.malformed "element without length")
      else
        match skipChars b (digitsValue (digitsAt b pos)) (pos + (digitsAt b pos).length + 1) with
        | .error e => .error e
        | .ok none => .ok none
        | .ok (some stop) =>
          match b[stop]? with
          | none => .ok none
          | some separator =>
            .ok (some (pos + (digitsAt b pos).length + 1, stop, separator)) := by
  have hall : slice b pos b.length = .ok (b.drop pos) := by
    rw [slice_eq ⟨hpos, le_refl _⟩, List.take_of_length_le (by simp)]
  unfold scanElement
  simp only [hall, bind, Except.bind, pure, Except.pure]
  rw [show (b.drop pos).takeWhile isAsciiDigit = digitsAt b pos from rfl]
  by_cases h1 : 5 < (digitsAt b pos).length
  · rw [if_pos h1, if_pos h1]
    rfl
  rw [if_neg h1, if_neg h1]
  by_cases h2 : b.length ≤ pos + (digitsAt b pos).length
  · rw [if_pos h2, if_pos h2]
  rw [if_neg h2, if_neg h2]
  have hlt : pos + (digitsAt b pos).length < b.length := by omega
  simp only [index_eq hlt, slice_digitsAt hlt.le, List.getElem?_eq_getElem hlt, List.length_eq_zero_iff,
    ne_eq, Option.some.injEq]
  by_cases h3 : digitsAt b pos = [] ∨ ¬b[pos + (digitsAt b pos).length] = 46
  · rw [if_pos h3, if_pos h3]
    rfl
  rw [if_neg h3, if_neg h3]
  simp only [parseLength_eq (fun h => h3 (.inl h)) (digitsAt_all b pos)]
  rcases skipChars b (digitsValue (digitsAt b pos)) (pos + (digitsAt b pos).length + 1) with
    e | _ | stop
  · rfl
  · rfl
  · simp only
    cases b[stop]? <;> rfl

theorem digitsAt_append {b c : List UInt8} {pos : Nat} (hpos : pos ≤ b.length) :
    (digitsAt b pos).length = b.length - pos ∧
        (digitsAt b pos).length ≤ (digitsAt (b ++ c) pos).length ∨
      digitsAt (b ++ c) pos = digitsAt b pos := by
  unfold digitsAt
  rw [List.drop_append_of_le_length hpos, List.takeWhile_append]
  split
  · rename_i h
    refine .inl ⟨by rw [h, List.length_drop], ?_⟩
    rw [h, List.length_append]
    omega
  · exact .inr rfl

/-- **Bytes that follow change nothing** about an element that is complete, or refused. -/
theorem scanElement_append {b : List UInt8} (c : List UInt8) {pos : Nat} (hpos : pos ≤ b.length) :
    scanElement b pos = .ok none ∨ scanElement (b ++ c) pos = scanElement b pos := by
  rw [scanElement_eq hpos, scanElement_eq (hpos.trans (by simp))]
  obtain ⟨hlen, hle⟩ | hsame := digitsAt_append (c := c) hpos
  · -- the buffer ends with the digits
    by_cases h1 : 5 < (digitsAt b pos).length
    · rw [if_pos h1, if_pos (by omega)]
      exact .inr rfl
    · rw [if_neg h1, if_pos (by omega)]
      exact .inl rfl
  · rw [hsame]
    by_cases h1 : 5 < (digitsAt b pos).length
    · rw [if_pos h1]
      exact .inr (if_pos h1)
    rw [if_neg h1, if_neg h1]
    by_cases h2 : b.length ≤ pos + (digitsAt b pos).length
    · exact .inl (if_pos h2)
    have h2' : ¬(b ++ c).length ≤ pos + (digitsAt b pos).length := by
      rw [List.length_append]
      omega
    rw [if_neg h2, if_neg h2', List.getElem?_append_left (by omega)]
    by_cases h3 : digitsAt b pos = [] ∨ b[pos + (digitsAt b pos).length]? ≠ some 46
    · rw [if_pos h3, if_pos h3]
      exact .inr rfl
    rw [if_neg h3, if_neg h3]
    obtain hskip | hskip := skipChars_append b c (digitsValue (digitsAt b pos))
      (pos + (digitsAt b pos).length + 1)
    · rw [hskip]
      exact .inl rfl
    rw [hskip]
    rcases skipChars b (digitsValue (digitsAt b pos)) (pos + (digitsAt b pos).length + 1) with
      e | _ | stop
    · exact .inr rfl
    · exact .inl rfl
    · simp only
      cases hsep : b[stop]? with
      | none => exact .inl rfl
      | some separator =>
        obtain ⟨hstop, -⟩ := List.getElem?_eq_some_iff.1 hsep
        rw [List.getElem?_append_left hstop, hsep]
        exact .inr rfl

/-- What a found element is: up to five digits, a dot, as many characters as they say, and a byte
that follows. -/
structure IsElement (b : List UInt8) (pos start stop : Nat) (separator : UInt8) (n : Nat) : Prop where
  start_eq : start = pos + (digitsAt b pos).length + 1
  ne_nil : digitsAt b pos ≠ []
  length_le : (digitsAt b pos).length ≤ 5
  dot : b[pos + (digitsAt b pos).length]? = some 46
  value : digitsValue (digitsAt b pos) = n
  chars : skipChars b n start = .ok (some stop)
  next : b[stop]? = some separator

theorem scanElement_eq_some {b : List UInt8} {pos start stop : Nat} {separator : UInt8}
    (hpos : pos ≤ b.length) :
    scanElement b pos = .ok (some (start, stop, separator)) ↔
      ∃ n, IsElement b pos start stop separator n := by
  rw [scanElement_eq hpos]
  constructor
  · intro h
    by_cases h1 : 5 < (digitsAt b pos).length
    · simp [h1] at h
    by_cases h2 : b.length ≤ pos + (digitsAt b pos).length
    · simp [h1, h2] at h
    by_cases h3 : digitsAt b pos = [] ∨ b[pos + (digitsAt b pos).length]? ≠ some 46
    · rw [if_neg h1, if_neg h2, if_pos h3] at h
      cases h
    rw [if_neg h1, if_neg h2, if_neg h3] at h
    rw [not_or, not_not] at h3
    rcases hskip : skipChars b (digitsValue (digitsAt b pos))
      (pos + (digitsAt b pos).length + 1) with e | _ | stop'
    · simp [hskip] at h
    · simp [hskip] at h
    · simp only [hskip] at h
      cases hsep : b[stop']? with
      | none => simp [hsep] at h
      | some s =>
        simp only [hsep, Except.ok.injEq, Option.some.injEq, Prod.mk.injEq] at h
        obtain ⟨rfl, rfl, rfl⟩ := h
        exact ⟨_, rfl, h3.1, by omega, h3.2, rfl, hskip, hsep⟩
  · rintro ⟨n, rfl, hne, hle, hdot, rfl, hskip, hsep⟩
    obtain ⟨hlt, -⟩ := List.getElem?_eq_some_iff.1 hdot
    rw [if_neg (by omega), if_neg (by omega), if_neg (by simp [hne, hdot])]
    simp [hskip, hsep]

theorem IsElement.bounds {b : List UInt8} {pos start stop n : Nat} {separator : UInt8}
    (h : IsElement b pos start stop separator n) : pos < start ∧ start ≤ stop ∧ stop < b.length := by
  have h1 := h.start_eq
  have h2 := le_of_skipChars h.chars
  obtain ⟨h3, -⟩ := List.getElem?_eq_some_iff.1 h.next
  omega

theorem IsElement.value_le {b : List UInt8} {pos start stop n : Nat} {separator : UInt8}
    (h : IsElement b pos start stop separator n) : n ≤ 99999 := by
  have h1 := digitsValue_lt (digitsAt_all b pos)
  have h2 : 10 ^ (digitsAt b pos).length ≤ 10 ^ 5 := Nat.pow_le_pow_right (by decide) h.length_le
  have h3 := h.value
  omega

/-! ## Instructions -/

theorem scanFrom_succ (b : List UInt8) (fuel pos : Nat) (es : List (Nat × Nat)) :
    scanFrom b (fuel + 1) pos es =
      match scanElement b pos with
      | .error e => .error e
      | .ok none => .ok none
      | .ok (some (start, stop, separator)) =>
        if maxElements < (es ++ [(start, stop)]).length then
          .error (.malformed "too many elements")
        else if separator = 59 then .ok (some (stop + 1, es ++ [(start, stop)]))
        else if separator = 44 then scanFrom b fuel (stop + 1) (es ++ [(start, stop)])
        else .error (.malformed "element without separator") := by
  rw [scanFrom]
  rcases scanElement b pos with e | _ | ⟨start, stop, separator⟩
  · rfl
  · rfl
  · simp only [bind, Except.bind, pure, Except.pure]
    split_ifs <;> rfl

theorem scanFrom_append {b : List UInt8} (c : List UInt8) {fuel pos : Nat} {es : List (Nat × Nat)}
    (hpos : pos ≤ b.length) :
    scanFrom b fuel pos es = .ok none ∨ scanFrom (b ++ c) fuel pos es = scanFrom b fuel pos es := by
  induction fuel generalizing pos es with
  | zero => exact .inr rfl
  | succ fuel ih =>
    rw [scanFrom_succ, scanFrom_succ]
    obtain hel | hel := scanElement_append c hpos
    · rw [hel]
      exact .inl rfl
    rw [hel]
    rcases h : scanElement b pos with e | _ | ⟨start, stop, separator⟩
    · exact .inr rfl
    · exact .inl rfl
    · obtain ⟨n, hn⟩ := (scanElement_eq_some hpos).1 h
      have hstop := hn.bounds
      simp only
      split_ifs
      · exact .inr rfl
      · exact .inr rfl
      · exact ih (by omega)
      · exact .inr rfl

/-- The elements of an instruction from `pos` on: separated by `,`, ended by `;`. -/
inductive IsInstruction (b : List UInt8) : Nat → List (Nat × Nat) → Nat → Prop
  | last {pos start stop n : Nat} :
      IsElement b pos start stop 59 n → IsInstruction b pos [(start, stop)] (stop + 1)
  | more {pos start stop n : Nat} {es : List (Nat × Nat)} {e : Nat} :
      IsElement b pos start stop 44 n → IsInstruction b (stop + 1) es e →
      IsInstruction b pos ((start, stop) :: es) e

theorem IsInstruction.bounds {b : List UInt8} {pos e : Nat} {es : List (Nat × Nat)}
    (h : IsInstruction b pos es e) : pos < e ∧ e ≤ b.length := by
  induction h with
  | last hel =>
    have := hel.bounds
    omega
  | more hel _ ih =>
    have := hel.bounds
    omega

theorem IsInstruction.ne_nil {b : List UInt8} {pos e : Nat} {es : List (Nat × Nat)}
    (h : IsInstruction b pos es e) : es ≠ [] := by
  cases h <;> simp

/-- Every element is a run of at most 99999 characters inside the buffer. -/
theorem IsInstruction.element {b : List UInt8} {pos e : Nat} {es : List (Nat × Nat)}
    (h : IsInstruction b pos es e) {r : Nat × Nat} (hr : r ∈ es) :
    r.1 ≤ r.2 ∧ r.2 ≤ b.length ∧ ∃ n ≤ 99999, skipChars b n r.1 = .ok (some r.2) := by
  induction h with
  | last hel =>
    rw [List.mem_singleton] at hr
    subst hr
    have := hel.bounds
    exact ⟨this.2.1, this.2.2.le, _, hel.value_le, hel.chars⟩
  | more hel _ ih =>
    rcases List.mem_cons.1 hr with rfl | hr
    · have := hel.bounds
      exact ⟨this.2.1, this.2.2.le, _, hel.value_le, hel.chars⟩
    · exact ih hr

/-- **What the loop of `scan` finds**: an instruction of as many elements as there is room for. -/
theorem scanFrom_eq_some {b : List UInt8} {fuel pos e : Nat} {es es' : List (Nat × Nat)}
    (hpos : pos ≤ b.length) :
    scanFrom b fuel pos es = .ok (some (e, es')) ↔
      ∃ new, es' = es ++ new ∧ new.length ≤ fuel ∧ es'.length ≤ maxElements ∧
        IsInstruction b pos new e := by
  induction fuel generalizing pos es with
  | zero =>
    constructor
    · intro h
      cases h
    · rintro ⟨new, -, hlen, -, h⟩
      exact absurd (List.length_eq_zero_iff.1 (Nat.le_zero.1 hlen)) h.ne_nil
  | succ fuel ih =>
    rw [scanFrom_succ]
    constructor
    · intro h
      rcases hel : scanElement b pos with e' | _ | ⟨start, stop, separator⟩
      · simp [hel] at h
      · simp [hel] at h
      · obtain ⟨n, hn⟩ := (scanElement_eq_some hpos).1 hel
        have hb := hn.bounds
        simp only [hel] at h
        split_ifs at h with hmax hsemi hcomma
        · simp only [Except.ok.injEq, Option.some.injEq, Prod.mk.injEq] at h
          obtain ⟨rfl, rfl⟩ := h
          subst hsemi
          exact ⟨[(start, stop)], rfl, by simp, by omega, .last hn⟩
        · obtain ⟨new, rfl, hlen, hes, hins⟩ := (ih (by omega)).1 h
          subst hcomma
          refine ⟨(start, stop) :: new, by simp, ?_, hes, .more hn hins⟩
          rw [List.length_cons]
          omega
    · rintro ⟨new, rfl, hlen, hes, hins⟩
      rw [List.length_append] at hes
      cases hins with
      | last hel =>
        rw [(scanElement_eq_some hpos).2 ⟨_, hel⟩]
        simp only [List.length_singleton] at hes
        simp only [List.length_append, List.length_singleton]
        rw [if_neg (by omega), if_pos trivial]
      | more hel hins =>
        have hb := hel.bounds
        rw [List.length_cons] at hlen hes
        rw [(scanElement_eq_some hpos).2 ⟨_, hel⟩]
        simp only [List.length_append, List.length_singleton]
        rw [if_neg (by omega), if_neg (by decide), if_pos trivial, ih (by omega)]
        refine ⟨_, by simp, by omega, ?_, hins⟩
        simp only [List.length_append, List.length_cons]
        omega

/-- `scan` has seen no complete instruction and nothing wrong. -/
def Unfinished (b : List UInt8) : Prop := scanFrom b (maxElements + 1) 0 [] = .ok none

theorem scan_of_unfinished {b : List UInt8} (h : Unfinished b) : scan b = incomplete b := by
  unfold scan
  rw [h]
  rfl

theorem scan_of_not_unfinished {b : List UInt8} (h : ¬Unfinished b) :
    scan b = scanFrom b (maxElements + 1) 0 [] := by
  unfold scan
  unfold Unfinished at h
  rcases hs : scanFrom b (maxElements + 1) 0 [] with e | _ | found
  · rfl
  · exact absurd hs h
  · rfl

/-- **What `scan` has decided stays decided**, whatever bytes follow. -/
theorem scan_append {b : List UInt8} (c : List UInt8) (h : ¬Unfinished b) :
    scan (b ++ c) = scan b := by
  obtain hb | hb := scanFrom_append c (Nat.zero_le b.length)
  · exact absurd hb h
  rw [scan_of_not_unfinished h, scan_of_not_unfinished (fun hu => h (hb.symm.trans hu)), hb]

theorem scan_eq_some {b : List UInt8} {e : Nat} {es : List (Nat × Nat)} :
    scan b = .ok (some (e, es)) ↔ es.length ≤ maxElements ∧ IsInstruction b 0 es e := by
  by_cases h : Unfinished b
  · rw [scan_of_unfinished h]
    constructor
    · intro hs
      unfold incomplete at hs
      split_ifs at hs
      cases hs
    · rintro ⟨hlen, hins⟩
      have hfound : scanFrom b (maxElements + 1) 0 [] = .ok (some (e, es)) :=
        (scanFrom_eq_some (Nat.zero_le _)).2 ⟨es, rfl, by omega, hlen, hins⟩
      rw [h] at hfound
      cases hfound
  · rw [scan_of_not_unfinished h, scanFrom_eq_some (Nat.zero_le _)]
    constructor
    · rintro ⟨new, rfl, -, hlen, hins⟩
      exact ⟨hlen, hins⟩
    · rintro ⟨hlen, hins⟩
      exact ⟨es, rfl, by omega, hlen, hins⟩

end Gateway
