import RemoteHub.Gateway.Proof.Look

/-!
# The bytes `scan` takes

An instruction is `written` from its elements: `scan` finds exactly those at the front of a buffer
(`scan_eq_some_iff`), and their `ranges`. The digits and characters of an element are part of it
(`Element`), so what follows the last byte changes nothing. `next_instruction` yields their texts, which
encode to the same bytes without the leading zeros of the lengths (`padded`).
-/

namespace Gateway

variable {b : List UInt8} {pos start stop n : Nat}

/-! ## Elements -/

/-- Bytes of `n` characters: one that leads each, and as many more as it says. -/
inductive Led : Nat → List UInt8 → Prop
  | nil : Led 0 []
  | cons {n : Nat} {lead : UInt8} {tail rest : List UInt8} :
      leadLength lead = some (tail.length + 1) → Led n rest → Led (n + 1) (lead :: (tail ++ rest))

/-- `LENGTH.VALUE`: one to five digits, and a value of as many characters as they say. -/
structure Element where
  digits : List UInt8
  value : List UInt8
  ne_nil : digits ≠ []
  length_le : digits.length ≤ 5
  decimal : digits.all isAsciiDigit = true
  led : Led (digitsValue digits) value

def Element.bytes (e : Element) : List UInt8 := e.digits ++ 46 :: e.value

/-- An instruction: `,` after every element but the last, `;` after that one. -/
def written : List Element → List UInt8
  | [] => []
  | [e] => e.bytes ++ [59]
  | e :: es => e.bytes ++ 44 :: written es

/-- Where the values of elements written from `pos` on start and stop. -/
def ranges : Nat → List Element → List (Nat × Nat)
  | _, [] => []
  | pos, e :: es => (pos + e.digits.length + 1, pos + e.bytes.length) :: ranges (pos + e.bytes.length + 1) es

@[simp] theorem length_ranges (pos : Nat) (es : List Element) : (ranges pos es).length = es.length := by
  induction es generalizing pos with
  | nil => rfl
  | cons e es ih => rw [ranges, List.length_cons, ih, List.length_cons]

theorem written_cons {e : Element} {es : List Element} (h : es ≠ []) :
    written (e :: es) = e.bytes ++ 44 :: written es := by
  cases es with
  | nil => exact absurd rfl h
  | cons _ _ => rfl

theorem Element.length_bytes (e : Element) : e.bytes.length = e.digits.length + 1 + e.value.length := by
  rw [Element.bytes, List.length_append, List.length_cons]
  omega

theorem led_of_skipChars (h : skipChars b n pos = .ok (some stop)) (hstop : stop ≤ b.length) :
    Led n ((b.drop pos).take (stop - pos)) := by
  induction n generalizing pos with
  | zero =>
    cases h
    rw [Nat.sub_self, List.take_zero]
    exact .nil
  | succ n ih =>
    unfold skipChars at h
    cases hb : b[pos]? with
    | none => simp [hb] at h
    | some lead =>
      simp only [hb] at h
      cases hk : leadLength lead with
      | none => simp [hk] at h
      | some k =>
        simp only [hk] at h
        obtain ⟨hlt, rfl⟩ := List.getElem?_eq_some_iff.1 hb
        have hpos := leadLength_pos hk
        have hle := le_of_skipChars h
        have htail : ((b.drop (pos + 1)).take (k - 1)).length + 1 = k := by
          rw [List.length_take, List.length_drop]
          omega
        have hsplit : (b.drop pos).take (stop - pos) =
            b[pos] :: ((b.drop (pos + 1)).take (k - 1) ++ (b.drop (pos + k)).take (stop - (pos + k))) := by
          have hmiddle : (b.drop (pos + 1)).take (stop - pos - 1) =
              (b.drop (pos + 1)).take (k - 1) ++ ((b.drop (pos + 1)).drop (k - 1)).take (stop - pos - 1 - (k - 1)) := by
            rw [← List.take_add]
            congr 1
            omega
          rw [List.drop_eq_getElem_cons hlt, show stop - pos = stop - pos - 1 + 1 by omega, List.take_succ_cons,
            hmiddle, List.drop_drop, show pos + 1 + (k - 1) = pos + k by omega,
            show stop - pos - 1 - (k - 1) = stop - (pos + k) by omega]
        rw [hsplit]
        exact .cons (htail.symm ▸ hk) (ih h)

theorem skipChars_of_led {value rest : List UInt8} (h : Led n value) (hb : b.drop pos = value ++ rest) :
    skipChars b n pos = .ok (some (pos + value.length)) := by
  induction h generalizing pos with
  | nil => rfl
  | @cons n lead tail more hlead _ ih =>
    have hhead : b[pos]? = some lead := getElem?_of_drop (p := []) hb
    have hnext : b.drop (pos + (tail.length + 1)) = more ++ rest := by
      refine drop_of_drop (p := lead :: tail) (hb.trans ?_)
      simp
    unfold skipChars
    simp only [hhead, hlead]
    rw [ih hnext]
    simp only [List.length_cons, List.length_append]
    congr 2
    omega

/-! ## An instruction and its elements -/

theorem element_of_isElement {separator : UInt8} (h : IsElement b pos start stop separator n) :
    ∃ e : Element, b.drop pos = e.bytes ++ separator :: b.drop (stop + 1) ∧
      start = pos + e.digits.length + 1 ∧ stop = pos + e.bytes.length := by
  obtain ⟨hpos, hle, hstop⟩ := h.bounds
  have hvalue : Led (digitsValue (digitsAt b pos)) ((b.drop start).take (stop - start)) := by
    rw [h.value]
    exact led_of_skipChars h.chars hstop.le
  let e : Element := ⟨digitsAt b pos, _, h.ne_nil, h.length_le, digitsAt_all b pos, hvalue⟩
  have hdigits : b.drop pos = digitsAt b pos ++ b.drop (pos + (digitsAt b pos).length) := by
    obtain ⟨rest, hrest⟩ : digitsAt b pos <+: b.drop pos := List.takeWhile_prefix _
    rw [drop_of_drop hrest.symm, hrest]
  have hdot : b.drop (pos + (digitsAt b pos).length) = 46 :: b.drop start := by
    obtain ⟨hlt, hget⟩ := List.getElem?_eq_some_iff.1 h.dot
    rw [List.drop_eq_getElem_cons hlt, hget, h.start_eq]
  have hsep : b.drop stop = separator :: b.drop (stop + 1) := by
    obtain ⟨hlt, hget⟩ := List.getElem?_eq_some_iff.1 h.next
    rw [List.drop_eq_getElem_cons hlt, hget]
  have hrest : b.drop start = (b.drop start).take (stop - start) ++ separator :: b.drop (stop + 1) := by
    rw [← hsep, show b.drop stop = (b.drop start).drop (stop - start) by
      rw [List.drop_drop, Nat.add_sub_cancel' hle], List.take_append_drop]
  refine ⟨e, ?_, h.start_eq, ?_⟩
  · calc b.drop pos = digitsAt b pos ++ 46 :: b.drop start := by rw [← hdot, ← hdigits]
      _ = digitsAt b pos ++ 46 :: ((b.drop start).take (stop - start) ++ separator :: b.drop (stop + 1)) := by
        rw [← hrest]
      _ = e.bytes ++ separator :: b.drop (stop + 1) := by simp [Element.bytes, e]
  · have hstart := h.start_eq
    rw [e.length_bytes, List.length_take, List.length_drop]
    dsimp only [e]
    omega

theorem isElement_of_element {e : Element} {separator : UInt8} {rest : List UInt8}
    (h : b.drop pos = e.bytes ++ separator :: rest) :
    IsElement b pos (pos + e.digits.length + 1) (pos + e.bytes.length) separator (digitsValue e.digits) := by
  have hdigits : b.drop pos = e.digits ++ 46 :: (e.value ++ separator :: rest) := by
    rw [h, Element.bytes, List.append_assoc, List.cons_append]
  have hat : digitsAt b pos = e.digits := by
    unfold digitsAt
    rw [hdigits, List.takeWhile_append_of_pos fun d hd => List.all_eq_true.1 e.decimal d hd,
      List.takeWhile_cons_of_neg (by decide), List.append_nil]
  have hvalue : b.drop (pos + e.digits.length + 1) = e.value ++ separator :: rest := by
    rw [Nat.add_assoc, ← List.length_singleton (a := (46 : UInt8)), ← List.length_append]
    exact drop_of_drop (by rw [hdigits, List.append_assoc, List.singleton_append])
  refine ⟨by rw [hat], hat ▸ e.ne_nil, hat ▸ e.length_le, ?_, by rw [hat], ?_, getElem?_of_drop h⟩
  · rw [hat]
    exact getElem?_of_drop hdigits
  · rw [skipChars_of_led e.led hvalue, e.length_bytes]
    congr 2
    omega

/-- **An instruction is written from its elements.** -/
theorem isInstruction_iff {rs : List (Nat × Nat)} {stop : Nat} : IsInstruction b pos rs stop ↔
    ∃ es : List Element, es ≠ [] ∧ rs = ranges pos es ∧ b.drop pos = written es ++ b.drop stop ∧
      stop = pos + (written es).length := by
  constructor
  · intro h
    induction h with
    | @last pos start stop n hel =>
      obtain ⟨e, hb, rfl, rfl⟩ := element_of_isElement hel
      refine ⟨[e], List.cons_ne_nil _ _, rfl, ?_, ?_⟩
      · rw [hb, written, List.append_assoc, List.singleton_append]
      · rw [written, List.length_append, List.length_singleton, Nat.add_assoc]
    | @more pos start stop n rs _ hel _ ih =>
      obtain ⟨e, hb, rfl, rfl⟩ := element_of_isElement hel
      obtain ⟨es, hne, rfl, hrest, rfl⟩ := ih
      have hlen : pos + (written (e :: es)).length = pos + e.bytes.length + 1 + (written es).length := by
        rw [written_cons hne, List.length_append, List.length_cons]
        omega
      refine ⟨e :: es, List.cons_ne_nil _ _, rfl, ?_, hlen.symm⟩
      rw [hb, hrest, written_cons hne, List.append_assoc, List.cons_append]
  · rintro ⟨es, hne, rfl, hb, rfl⟩
    induction es generalizing pos with
    | nil => exact absurd rfl hne
    | cons e es ih =>
      by_cases hes : es = []
      · subst hes
        have hlen : pos + (written [e]).length = pos + e.bytes.length + 1 := by
          rw [written, List.length_append, List.length_singleton, Nat.add_assoc]
        rw [written, List.append_assoc, List.singleton_append] at hb
        rw [hlen]
        exact .last (isElement_of_element hb)
      · rw [written_cons hes, List.append_assoc, List.cons_append] at hb
        have hlen : pos + (written (e :: es)).length = pos + e.bytes.length + 1 + (written es).length := by
          rw [written_cons hes, List.length_append, List.length_cons]
          omega
        have hnext : b.drop (pos + e.bytes.length + 1) = written es ++ b.drop (pos + (written (e :: es)).length) := by
          rw [written_cons hes, Nat.add_assoc, ← List.length_singleton (a := (44 : UInt8)), ← List.length_append]
          refine drop_of_drop ?_
          rw [hb, List.append_assoc, List.singleton_append]
        rw [hlen] at hnext ⊢
        exact .more (isElement_of_element hb) (ih hes hnext)

theorem mem_ranges {es : List Element} {r : Nat × Nat} (h : r ∈ ranges pos es) :
    pos < r.1 ∧ r.1 ≤ r.2 ∧ r.2 < pos + (written es).length := by
  induction es generalizing pos with
  | nil => exact absurd h List.not_mem_nil
  | cons e es ih =>
    have hbytes := e.length_bytes
    have hlen : e.bytes.length + 1 + (written es).length ≤ (written (e :: es)).length := by
      by_cases hes : es = []
      · subst hes
        rw [written, written, List.length_append]
        exact le_rfl
      · rw [written_cons hes, List.length_append, List.length_cons]
        omega
    rcases List.mem_cons.1 h with rfl | h
    · dsimp only
      omega
    · have := ih h
      omega

theorem pairwise_ranges (pos : Nat) (es : List Element) : (ranges pos es).Pairwise fun r s => r.2 < s.1 := by
  induction es generalizing pos with
  | nil => exact .nil
  | cons e es ih =>
    refine .cons (fun s hs => ?_) (ih _)
    have := (mem_ranges hs).1
    dsimp only
    omega

/-- The bytes of a range. -/
def within (b : List UInt8) (r : Nat × Nat) : List UInt8 := (b.drop r.1).take (r.2 - r.1)

theorem map_within {es : List Element} {rest : List UInt8} (h : b.drop pos = written es ++ rest) :
    (ranges pos es).map (within b) = es.map (·.value) := by
  induction es generalizing pos with
  | nil => rfl
  | cons e es ih =>
    obtain ⟨separator, hb⟩ : ∃ separator, b.drop pos = e.bytes ++ separator :: (written es ++ rest) := by
      by_cases hes : es = []
      · subst hes
        exact ⟨59, by rw [h, written, written, List.append_assoc]; rfl⟩
      · exact ⟨44, by rw [h, written_cons hes, List.append_assoc]; rfl⟩
    have hvalue : b.drop (pos + e.digits.length + 1) = e.value ++ separator :: (written es ++ rest) := by
      rw [Nat.add_assoc, ← List.length_singleton (a := (46 : UInt8)), ← List.length_append]
      refine drop_of_drop ?_
      rw [hb, Element.bytes, List.append_assoc, List.append_assoc]
      rfl
    have hnext : b.drop (pos + e.bytes.length + 1) = written es ++ rest := by
      rw [Nat.add_assoc, ← List.length_singleton (a := separator), ← List.length_append]
      refine drop_of_drop ?_
      rw [hb, List.append_assoc, List.singleton_append]
    have hlen : pos + e.bytes.length - (pos + e.digits.length + 1) = e.value.length := by
      have := e.length_bytes
      omega
    rw [ranges, List.map_cons, List.map_cons, ih hnext, within]
    dsimp only
    rw [hvalue, hlen, List.take_left]

/-- **What `scan` finds are the elements that the buffer begins with.** -/
theorem scan_eq_some_iff {e : Nat} {rs : List (Nat × Nat)} : scan b = .ok (some (e, rs)) ↔
    ∃ es : List Element, es ≠ [] ∧ es.length ≤ maxElements ∧ b = written es ++ b.drop e ∧
      e = (written es).length ∧ rs = ranges 0 es := by
  rw [scan_eq_some, isInstruction_iff, List.drop_zero]
  constructor
  · rintro ⟨hlen, es, hne, rfl, hb, he⟩
    rw [length_ranges] at hlen
    exact ⟨es, hne, hlen, hb, he.trans (Nat.zero_add _), rfl⟩
  · rintro ⟨es, hne, hlen, hb, he, rfl⟩
    rw [length_ranges]
    exact ⟨hlen, es, hne, rfl, hb, he.trans (Nat.zero_add _).symm⟩

theorem scan_written {es : List Element} (hne : es ≠ []) (hlen : es.length ≤ maxElements) (c : List UInt8) :
    scan (written es ++ c) = .ok (some ((written es).length, ranges 0 es)) :=
  scan_eq_some_iff.2 ⟨es, hne, hlen, by rw [List.drop_left], rfl, rfl⟩

/-! ## Errors -/

theorem skipChars_error {e : GuacError} (h : skipChars b n pos = .error e) : ∃ what, e = .malformed what := by
  induction n generalizing pos with
  | zero => cases h
  | succ n ih =>
    unfold skipChars at h
    cases hb : b[pos]? with
    | none => simp [hb] at h
    | some lead =>
      simp only [hb] at h
      cases hk : leadLength lead with
      | none =>
        simp only [hk] at h
        cases h
        exact ⟨_, rfl⟩
      | some k =>
        simp only [hk] at h
        exact ih h

theorem scanElement_error {e : GuacError} (hpos : pos ≤ b.length) (h : scanElement b pos = .error e) :
    ∃ what, e = .malformed what := by
  rw [scanElement_eq hpos] at h
  split at h
  · cases h
    exact ⟨_, rfl⟩
  · split at h
    · cases h
    · split at h
      · cases h
        exact ⟨_, rfl⟩
      · split at h
        · rename_i e' hskip
          cases h
          exact skipChars_error hskip
        · cases h
        · split at h <;> cases h

/-- The loop has rounds for all elements it may find. -/
theorem scanFrom_error {e : GuacError} {fuel : Nat} {rs : List (Nat × Nat)} (hpos : pos ≤ b.length)
    (hrs : rs.length ≤ maxElements) (hfuel : maxElements < rs.length + fuel)
    (h : scanFrom b fuel pos rs = .error e) : ∃ what, e = .malformed what := by
  induction fuel generalizing pos rs with
  | zero => omega
  | succ fuel ih =>
    rw [scanFrom_succ] at h
    rcases hel : scanElement b pos with e' | _ | ⟨start, stop, separator⟩
    · rw [hel] at h
      cases h
      exact scanElement_error hpos hel
    · rw [hel] at h
      cases h
    · obtain ⟨n, hn⟩ := (scanElement_eq_some hpos).1 hel
      have hbounds := hn.bounds
      simp only [hel] at h
      split at h
      · cases h
        exact ⟨_, rfl⟩
      · split at h
        · cases h
        · split at h
          · refine ih (by omega) (by omega) ?_ h
            rw [List.length_append, List.length_singleton]
            omega
          · cases h
            exact ⟨_, rfl⟩

/-- **No index is outside the buffer, and the loop ends.** -/
theorem scan_error {e : GuacError} (h : scan b = .error e) : ∃ what, e = .malformed what := by
  by_cases hu : Unfinished b
  · rw [scan_of_unfinished hu, incomplete] at h
    split at h
    · cases h
      exact ⟨_, rfl⟩
    · cases h
  · rw [scan_of_not_unfinished hu] at h
    exact scanFrom_error (Nat.zero_le _) (Nat.zero_le _) (by decide) h

/-! ## Texts -/

theorem bytes_of_elementText {r : Nat × Nat} {v : String} (h : elementText b r = .ok v) : bytes v = within b r := by
  unfold elementText slice at h
  split at h
  · simp only [bind, Except.bind, pure, Except.pure] at h
    cases hs : fromUtf8 ((b.drop r.1).take (r.2 - r.1)) with
    | none =>
      rw [hs] at h
      cases h
    | some text =>
      rw [hs] at h
      cases h
      exact bytes_of_fromUtf8 hs
  · cases h

theorem length_of_led {v : String} (h : Led n (bytes v)) : v.length = n := by
  have hdrop : (bytes v).drop 0 = bytes v ++ [] := by simp
  have hskip := skipChars_of_led h hdrop
  exact length_of_skipChars hskip (by simp) (by simp)

/-- Digits are those of their number after zeros. -/
theorem exists_zeros {ds : List UInt8} (hne : ds ≠ []) (hds : ds.all isAsciiDigit = true) :
    ∃ zeros, ds = List.replicate zeros 48 ++ bytes (toString (digitsValue ds)) := by
  induction ds using List.reverseRecOn with
  | nil => exact absurd rfl hne
  | append_singleton ds d ih =>
    rw [List.all_append, Bool.and_eq_true] at hds
    have hd : 48 ≤ d.toNat ∧ d.toNat ≤ 57 := isAsciiDigit_iff.1 (by simpa using hds.2)
    have hvalue : digitsValue (ds ++ [d]) = 10 * digitsValue ds + (d.toNat - 48) := by simp [digitsValue]
    have hone : bytes (toString (d.toNat - 48)) = [d] := by
      have hall : ∀ x : Fin 10, x.val.digitChar.toNat = 48 + x.val := by decide
      rw [bytes_toString, Nat.toDigits_of_lt_base (by omega), List.map_singleton, hall ⟨d.toNat - 48, by omega⟩,
        Nat.add_sub_cancel' hd.1, UInt8.ofNat_toNat]
    by_cases hds' : ds = []
    · subst hds'
      refine ⟨0, ?_⟩
      rw [hvalue, show digitsValue [] = 0 from rfl, Nat.mul_zero, Nat.zero_add, hone]
      rfl
    · obtain ⟨zeros, hzeros⟩ := ih hds' hds.1
      by_cases h0 : digitsValue ds = 0
      · -- only zeros so far
        refine ⟨zeros + 1, ?_⟩
        have hzero : bytes (toString 0) = [48] := by decide
        rw [hvalue, h0, Nat.mul_zero, Nat.zero_add, hone, List.replicate_succ']
        rw [h0, hzero] at hzeros
        rw [hzeros]
      · refine ⟨zeros, ?_⟩
        have hmore : bytes (toString (10 * digitsValue ds + (d.toNat - 48))) = bytes (toString (digitsValue ds)) ++ [d] := by
          rw [← hone, bytes_toString, bytes_toString, bytes_toString, ← List.map_append,
            Nat.toDigits_append_toDigits (by decide) (Nat.pos_of_ne_zero h0) (by omega)]
        rw [hvalue, hmore, ← List.append_assoc, ← hzeros]

/-- An instruction with zeros before its lengths. -/
def padded : List (Nat × String) → List UInt8
  | [] => []
  | [(zeros, v)] => List.replicate zeros 48 ++ elementBytes v ++ [59]
  | (zeros, v) :: vs => List.replicate zeros 48 ++ elementBytes v ++ 44 :: padded vs

theorem padded_cons {zeros : Nat} {v : String} {vs : List (Nat × String)} (h : vs ≠ []) :
    padded ((zeros, v) :: vs) = List.replicate zeros 48 ++ elementBytes v ++ 44 :: padded vs := by
  cases vs with
  | nil => exact absurd rfl h
  | cons _ _ => rfl

theorem padded_encode (i : Instruction) : padded ((i.opcode :: i.args).map (0, ·)) = bytes i.encode := by
  have hall : ∀ (v : String) (vs : List String), padded ((v :: vs).map (0, ·)) =
      elementBytes v ++ (vs.flatMap fun arg => 44 :: elementBytes arg) ++ [59] := by
    intro v vs
    induction vs generalizing v with
    | nil => simp [padded]
    | cons w vs ih =>
      have hcons : padded ((v :: w :: vs).map (0, ·)) = elementBytes v ++ 44 :: padded ((w :: vs).map (0, ·)) := by
        rw [List.map_cons, padded_cons (by simp)]
        rfl
      rw [hcons, ih]
      simp
  rw [hall, bytes_encode]

theorem exists_padding {es : List Element} {vs : List String}
    (h : List.Forall₂ (fun e v => bytes v = Element.value e) es vs) :
    ∃ padding : List (Nat × String), padding.map (·.2) = vs ∧ written es = padded padding := by
  induction h with
  | nil => exact ⟨[], rfl, rfl⟩
  | @cons e v es vs hv _ ih =>
    obtain ⟨padding, rfl, hwritten⟩ := ih
    obtain ⟨zeros, hzeros⟩ := exists_zeros e.ne_nil e.decimal
    have hbytes : e.bytes = List.replicate zeros 48 ++ elementBytes v := by
      rw [elementBytes, length_of_led (hv ▸ e.led), ← List.append_assoc, ← hzeros, hv, Element.bytes]
    refine ⟨(zeros, v) :: padding, rfl, ?_⟩
    cases padding with
    | nil =>
      obtain rfl : es = [] := by
        have := ‹List.Forall₂ _ es _›.length_eq
        exact List.length_eq_zero_iff.1 this
      rw [written, hbytes, padded]
    | cons p padding =>
      have hne : es ≠ [] := by
        have := ‹List.Forall₂ _ es _›.length_eq
        rintro rfl
        cases this
      rw [written_cons hne, hbytes, padded_cons (List.cons_ne_nil _ _), hwritten]

/-! ## The next instruction -/

theorem map_within_texts {rs : List (Nat × Nat)} {vs : List String}
    (h : List.Forall₂ (fun r v => elementText b r = .ok v) rs vs) : rs.map (within b) = vs.map bytes := by
  induction h with
  | nil => rfl
  | cons hv _ ih => rw [List.map_cons, List.map_cons, bytes_of_elementText hv, ih]

theorem nextInstruction_written {i : Instruction} {p : Parser} (h : Parser.nextInstruction ⟨b⟩ = .ok (some (i, p))) :
    ∃ es : List Element, es ≠ [] ∧ es.length ≤ maxElements ∧ b = written es ++ p.buffer ∧
      es.map (·.value) = (i.opcode :: i.args).map bytes := by
  obtain ⟨stop, rs, hscan, htexts, rfl⟩ := nextInstruction_eq_some h
  obtain ⟨es, hne, hlen, hb, -, rfl⟩ := scan_eq_some_iff.1 hscan
  refine ⟨es, hne, hlen, hb, ?_⟩
  rw [← map_within (List.drop_zero.trans hb), map_within_texts htexts]

/-- Elements that are texts are an instruction, whatever follows them. -/
theorem nextInstruction_of_written {i : Instruction} {es : List Element} (hne : es ≠ [])
    (hlen : es.length ≤ maxElements) (hvalues : es.map (·.value) = (i.opcode :: i.args).map bytes) (c : List UInt8) :
    Parser.nextInstruction ⟨written es ++ c⟩ = .ok (some (i, ⟨c⟩)) := by
  have hscan := scan_written hne hlen c
  have hdrop : (written es ++ c).drop 0 = written es ++ c := List.drop_zero
  have hwithin := (map_within hdrop).trans hvalues
  have htexts : (ranges 0 es).mapM (elementText (written es ++ c)) = .ok (i.opcode :: i.args) := by
    have hin : ∀ r ∈ ranges 0 es, r.1 ≤ r.2 ∧ r.2 ≤ (written es ++ c).length := by
      intro r hr
      have := mem_ranges hr
      rw [List.length_append]
      omega
    clear hscan
    generalize i.opcode :: i.args = vs at hwithin
    generalize ranges 0 es = rs at hwithin hin
    induction rs generalizing vs with
    | nil =>
      cases vs with
      | nil => rfl
      | cons v vs => cases hwithin
    | cons r rs ih =>
      cases vs with
      | nil => cases hwithin
      | cons v vs =>
        rw [List.map_cons, List.map_cons] at hwithin
        obtain ⟨hv, hvs⟩ := List.cons.inj hwithin
        rw [List.forall_mem_cons] at hin
        have htext : elementText (written es ++ c) r = .ok v := by
          rw [elementText, slice_eq hin.1]
          simp only [bind, Except.bind]
          rw [show ((written es ++ c).drop r.1).take (r.2 - r.1) = bytes v from hv, fromUtf8_bytes]
          rfl
        rw [List.mapM_cons, htext, ih vs hvs hin.2]
        rfl
  have hlook : look (written es ++ c) = some (.ok (i, (written es).length)) :=
    look_eq_some.2 ⟨ranges 0 es, (scan_eq_some.1 hscan).1, (scan_eq_some.1 hscan).2, htexts⟩
  have hnext := congrFun onBuffer_nextInstruction (written es ++ c)
  rw [onBuffer, Lookahead.next, hlook] at hnext
  dsimp only at hnext
  rw [List.drop_left] at hnext
  revert hnext
  rcases Parser.nextInstruction ⟨written es ++ c⟩ with e | _ | ⟨i', p⟩
  · intro hnext
    cases hnext
  · intro hnext
    cases hnext
  · intro hnext
    cases hnext
    rfl

/-! ## All of it -/

/-- **`scan` is safe and exact.** No index of it is outside the buffer, and its loop ends. What it
returns are one to 128 ranges inside the buffer, one after the other, and the bytes up to its end are the
elements with these values. What `next_instruction` yields is written in the bytes it takes, with zeros
before the lengths; and what stands behind them changes neither result. -/
theorem scan_exact (b : List UInt8) :
    scan b ≠ .error .outOfBounds ∧ scan b ≠ .error .endless ∧
    (∀ stop rs, scan b = .ok (some (stop, rs)) →
      stop ≤ b.length ∧ 1 ≤ rs.length ∧ rs.length ≤ 128 ∧ (∀ r ∈ rs, r.1 ≤ r.2 ∧ r.2 < stop) ∧
        rs.Pairwise (fun r s => r.2 < s.1) ∧
        (∃ es : List Element, b.take stop = written es ∧ rs = ranges 0 es ∧
          es.map (·.value) = rs.map fun r => (b.drop r.1).take (r.2 - r.1)) ∧
        ∀ b' : List UInt8, b'.take stop = b.take stop → scan b' = .ok (some (stop, rs))) ∧
    ∀ i p, Parser.nextInstruction ⟨b⟩ = .ok (some (i, p)) → ∃ taken, b = taken ++ p.buffer ∧
      (∃ padding : List (Nat × String), padding.map (·.2) = i.opcode :: i.args ∧ taken = padded padding ∧
        bytes i.encode = padded (padding.map fun element => (0, element.2))) ∧
      ∀ c, Parser.nextInstruction ⟨taken ++ c⟩ = .ok (some (i, ⟨c⟩)) := by
  refine ⟨fun h => ?_, fun h => ?_, fun stop rs h => ?_, fun i p h => ?_⟩
  · obtain ⟨what, hwhat⟩ := scan_error h
    cases hwhat
  · obtain ⟨what, hwhat⟩ := scan_error h
    cases hwhat
  · obtain ⟨es, hne, hlen, hb, rfl, rfl⟩ := scan_eq_some_iff.1 h
    have htake : b.take (written es).length = written es := by rw [hb, List.take_left]
    have hle : (written es).length ≤ b.length := by
      rw [← htake]
      exact List.length_take_le' _ _
    refine ⟨hle, ?_, ?_, fun r hr => ?_, pairwise_ranges 0 es, ⟨es, htake, rfl, ?_⟩, fun b' hb' => ?_⟩
    · rw [length_ranges]
      exact List.length_pos_of_ne_nil hne
    · rw [length_ranges]
      exact hlen
    · have := mem_ranges hr
      omega
    · exact (map_within (List.drop_zero.trans hb)).symm
    · rw [htake] at hb'
      have hsplit := List.take_append_drop (written es).length b'
      rw [hb'] at hsplit
      rw [← hsplit]
      exact scan_written hne hlen _
  · obtain ⟨es, hne, hlen, hb, hvalues⟩ := nextInstruction_written h
    have htexts : List.Forall₂ (fun e v => bytes v = Element.value e) es (i.opcode :: i.args) := by
      rw [← List.forall₂_map_left_iff (f := Element.value) (R := fun value v => bytes v = value), hvalues,
        List.forall₂_map_left_iff]
      exact List.forall₂_same.2 fun v _ => rfl
    obtain ⟨padding, hpadding, hwritten⟩ := exists_padding htexts
    refine ⟨written es, hb, ⟨padding, hpadding, hwritten, ?_⟩, nextInstruction_of_written hne hlen hvalues⟩
    have hzeros : padding.map (fun element => (0, element.2)) = (i.opcode :: i.args).map (0, ·) := by
      rw [← hpadding, List.map_map]
      rfl
    rw [hzeros, padded_encode]

theorem scan_exact_nop : ∃ taken, bytes "03.nop;4.sy" = taken ++ bytes "4.sy" ∧
    ∀ c, Parser.nextInstruction ⟨taken ++ c⟩ = .ok (some (⟨"nop", []⟩, ⟨c⟩)) := by
  obtain ⟨taken, htaken, -, hnext⟩ := (scan_exact (bytes "03.nop;4.sy")).2.2.2 ⟨"nop", []⟩ ⟨bytes "4.sy"⟩ (by decide)
  exact ⟨taken, htaken, hnext⟩

end Gateway
