import RemoteHub.Lib.Lookahead
import RemoteHub.Gateway.Proof.Framing

/-!
# What the front of a buffer shows

`look` is the instruction at the front of a buffer, or why there is none, as soon as the bytes say so
(`decided_look`): `next_instruction` is `look` with a limit on what is still open
(`onBuffer_nextInstruction`). `lookFrame` is the same without the texts. Frames are instructions exactly if
their bytes together are a text (`text_of_starts`, `starts_of_text`).
-/

namespace Gateway

open Lookahead (Starts Open Decided)

variable {b c : List UInt8} {pos start stop n : Nat}

/-! ## What the front of a buffer shows -/

/-- The instruction at the front and its length in bytes. -/
def look (b : List UInt8) : Option (Except GuacError (Instruction × Nat)) :=
  match scanFrom b (maxElements + 1) 0 [] with
  | .ok none => none
  | .error e => some (.error e)
  | .ok (some (stop, elements)) => some do
    match ← elements.mapM (elementText b) with
    | [] => throw (.malformed "empty instruction")
    | opcode :: args => return (⟨opcode, args⟩, stop)

theorem skipChars_open (h : skipChars b n pos = .ok none) (h' : skipChars (b ++ c) n pos = .ok (some stop)) :
    b.length ≤ stop := by
  induction n generalizing pos with
  | zero => cases h
  | succ n ih =>
    simp only [skipChars] at h h'
    cases hb : b[pos]? with
    | none =>
      have hpos : b.length ≤ pos := List.getElem?_eq_none_iff.1 hb
      split at h'
      · cases h'
      · split at h'
        · cases h'
        · have := le_of_skipChars h'
          omega
    | some lead =>
      obtain ⟨hlt, -⟩ := List.getElem?_eq_some_iff.1 hb
      rw [List.getElem?_append_left hlt] at h'
      simp only [hb] at h h'
      cases hk : leadLength lead with
      | none => simp [hk] at h
      | some k =>
        simp only [hk] at h h'
        exact ih h h'

/-- An element that ends inside a buffer is found there. -/
theorem scanElement_seen {separator : UInt8} (h : IsElement (b ++ c) pos start stop separator n)
    (hstop : stop < b.length) : scanElement b pos ≠ .ok none := by
  have hb := h.bounds
  have hpos : pos ≤ b.length := by omega
  have hdigits : digitsAt b pos = digitsAt (b ++ c) pos := by
    obtain ⟨hlen, hle⟩ | hsame := digitsAt_append (c := c) hpos
    · have := h.start_eq
      omega
    · exact hsame.symm
  have hstart := h.start_eq
  rw [scanElement_eq hpos, hdigits, if_neg (by have := h.length_le; omega), if_neg (by omega),
    if_neg (by rw [not_or]; exact ⟨h.ne_nil, by rw [← List.getElem?_append_left (by omega), h.dot]; simp⟩), h.value,
    ← hstart]
  cases hskip : skipChars b n start with
  | error e => exact nofun
  | ok o =>
    cases o with
    | none =>
      have := skipChars_open hskip h.chars
      omega
    | some stop' =>
      obtain hnone | hsame := skipChars_append b c n start
      · rw [hskip] at hnone
        cases hnone
      · rw [h.chars, hskip] at hsame
        cases hsame
        simp [List.getElem?_eq_getElem hstop]

theorem scanElement_of_append {separator : UInt8} (h : IsElement (b ++ c) pos start stop separator n)
    (hstop : stop < b.length) : scanElement b pos = .ok (some (start, stop, separator)) := by
  have hb := h.bounds
  have hpos : pos ≤ b.length := by omega
  have hfound := (scanElement_eq_some (by omega)).2 ⟨n, h⟩
  rw [← hfound, ((scanElement_append c hpos).resolve_left (scanElement_seen h hstop))]

/-- An instruction that ends inside a buffer is found there. -/
theorem scanFrom_seen {es new : List (Nat × Nat)} {e fuel : Nat} (h : IsInstruction (b ++ c) pos new e)
    (he : e ≤ b.length) : scanFrom b fuel pos es ≠ .ok none := by
  induction h generalizing fuel es with
  | last hel =>
    cases fuel with
    | zero => exact nofun
    | succ fuel =>
      rw [scanFrom_succ, scanElement_of_append hel (by omega)]
      dsimp only
      split
      · exact nofun
      · rw [if_pos rfl]
        exact nofun
  | more hel hins ih =>
    have hend := hins.bounds
    cases fuel with
    | zero => exact nofun
    | succ fuel =>
      rw [scanFrom_succ, scanElement_of_append hel (by omega)]
      dsimp only
      split
      · exact nofun
      · rw [if_neg (by decide), if_pos rfl]
        exact ih he

theorem elementText_append {r : Nat × Nat} (h : r.1 ≤ r.2 ∧ r.2 ≤ b.length) (c : List UInt8) :
    elementText (b ++ c) r = elementText b r := by
  have hslice : slice (b ++ c) r.1 r.2 = slice b r.1 r.2 := by
    rw [slice_eq h, slice_eq ⟨h.1, by rw [List.length_append]; omega⟩, List.drop_append_of_le_length (by omega),
      List.take_append_of_le_length (by rw [List.length_drop]; omega)]
  rw [elementText, elementText, hslice]

theorem mapM_elementText_append {es : List (Nat × Nat)} (h : ∀ r ∈ es, r.1 ≤ r.2 ∧ r.2 ≤ b.length) (c : List UInt8) :
    es.mapM (elementText (b ++ c)) = es.mapM (elementText b) := by
  induction es with
  | nil => rfl
  | cons r es ih =>
    rw [List.forall_mem_cons] at h
    rw [List.mapM_cons, List.mapM_cons, elementText_append h.1, ih h.2]

theorem frame_eq_some {es : List (Nat × Nat)} {e : Nat} : scanFrom b (maxElements + 1) 0 [] = .ok (some (e, es)) ↔
    es.length ≤ maxElements ∧ IsInstruction b 0 es e := by
  rw [scanFrom_eq_some (Nat.zero_le _)]
  constructor
  · rintro ⟨new, rfl, -, hlen, hins⟩
    exact ⟨hlen, hins⟩
  · rintro ⟨hlen, hins⟩
    exact ⟨es, rfl, by omega, hlen, hins⟩

theorem look_eq_none : look b = none ↔ Unfinished b := by
  unfold look Unfinished
  rcases scanFrom b (maxElements + 1) 0 [] with e | _ | ⟨stop, es⟩ <;> simp

theorem look_eq_some {i : Instruction} : look b = some (.ok (i, n)) ↔
    ∃ es, es.length ≤ maxElements ∧ IsInstruction b 0 es n ∧ es.mapM (elementText b) = .ok (i.opcode :: i.args) := by
  constructor
  · intro h
    unfold look at h
    split at h
    · cases h
    · cases h
    · rename_i stop es hframe
      obtain ⟨hlen, hins⟩ := frame_eq_some.1 hframe
      have h := Option.some.inj h
      simp only [bind, Except.bind] at h
      cases htexts : es.mapM (elementText b) with
      | error e => simp [htexts] at h
      | ok texts =>
        simp only [htexts] at h
        cases texts with
        | nil => cases h
        | cons opcode args =>
          cases h
          exact ⟨es, hlen, hins, htexts⟩
  · rintro ⟨es, hlen, hins, htexts⟩
    unfold look
    rw [frame_eq_some.2 ⟨hlen, hins⟩]
    simp only [htexts]
    rfl

theorem look_append {x : Except GuacError (Instruction × Nat)} (h : look b = some x) (c : List UInt8) :
    look (b ++ c) = some x := by
  have hframe : scanFrom (b ++ c) (maxElements + 1) 0 [] = scanFrom b (maxElements + 1) 0 [] := by
    refine (scanFrom_append c (Nat.zero_le _)).resolve_left fun hu => ?_
    rw [look_eq_none.2 hu] at h
    cases h
  rw [← h]
  unfold look
  rw [hframe]
  split
  · rfl
  · rfl
  · rename_i stop es hfound
    have hins := (frame_eq_some.1 hfound).2
    rw [mapM_elementText_append fun r hr => ⟨(hins.element hr).1, (hins.element hr).2.1⟩]

theorem decided_look : Decided look where
  empty := by decide
  append h := look_append h _
  bounds h := by
    obtain ⟨es, -, hins, -⟩ := look_eq_some.1 h
    exact hins.bounds
  seen h hn hnone := by
    obtain ⟨es, -, hins, -⟩ := look_eq_some.1 h
    exact scanFrom_seen hins hn (look_eq_none.1 hnone)

theorem onBuffer_nextInstruction : onBuffer Parser.nextInstruction =
    Lookahead.next look maxInstructionBytes (.malformed "instruction too long") := by
  funext b
  unfold onBuffer Lookahead.next
  by_cases hu : Unfinished b
  · rw [nextInstruction_of_unfinished hu, look_eq_none.2 hu]
    unfold incomplete
    dsimp only
    split <;> rfl
  · unfold Parser.nextInstruction
    rw [scan_of_not_unfinished hu]
    unfold look
    rcases hframe : scanFrom b (maxElements + 1) 0 [] with e | _ | ⟨stop, es⟩
    · rfl
    · exact absurd hframe hu
    · have hle := (frame_eq_some.1 hframe).2.bounds.2
      cases es with
      | nil => rfl
      | cons first rest =>
        simp only [bind, Except.bind, List.mapM_cons, pure, Except.pure]
        cases elementText b first with
        | error e => rfl
        | ok opcode =>
          cases rest.mapM (elementText b) with
          | error e => rfl
          | ok args => simp [drainFront, hle, Except.map]

theorem look_of_nextInstruction {i : Instruction} {p : Parser} (h : Parser.nextInstruction ⟨b⟩ = .ok (some (i, p))) :
    ∃ n, look b = some (.ok (i, n)) := by
  have hnext := congrFun onBuffer_nextInstruction b
  rw [onBuffer, h, Lookahead.next] at hnext
  split at hnext
  · split at hnext <;> cases hnext
  · cases hnext
  · rename_i hlook
    obtain ⟨rfl, -⟩ := Prod.mk.inj (Option.some.inj (Except.ok.inj hnext))
    exact ⟨_, hlook⟩

/-! ## Texts and their instructions

A buffer's front is text exactly if the values of the instructions in it are: what stands between them is
ASCII.
-/

section
variable {cs : List Char} {rest : List UInt8} {separator : UInt8}

theorem ascii_chars {l : List UInt8} (h : ∀ x ∈ l, x.toNat < 128) :
    ∃ cs : List Char, cs.flatMap String.utf8EncodeChar = l := by
  induction l with
  | nil => exact ⟨[], rfl⟩
  | cons x l ih =>
    rw [List.forall_mem_cons] at h
    obtain ⟨cs, rfl⟩ := ih h.2
    have hall : ∀ n < 128, (Char.ofNat n).toNat = n := by decide
    have hx : (Char.ofNat x.toNat).toNat = x.toNat := hall _ h.1
    refine ⟨Char.ofNat x.toNat :: cs, ?_⟩
    rw [List.flatMap_cons, utf8EncodeChar_ascii (by omega), hx, UInt8.ofNat_toNat]
    rfl

/-- A byte of ASCII is a character. -/
theorem ascii_front {x : UInt8} (hb : b.drop pos = cs.flatMap String.utf8EncodeChar ++ rest)
    (hin : pos < pos + (cs.flatMap String.utf8EncodeChar).length) (hx : b[pos]? = some x) (hascii : x.toNat < 128) :
    ∃ cs' : List Char, b.drop (pos + 1) = cs'.flatMap String.utf8EncodeChar ++ rest := by
  cases cs with
  | nil => simp at hin
  | cons c cs =>
    obtain ⟨lead, tail, hc, hlead⟩ := leadLength_utf8EncodeChar c
    rw [List.flatMap_cons, hc] at hb
    have hsame : lead = x := by
      have hhead := congrArg List.head? hb
      rw [List.head?_drop, hx] at hhead
      exact (Option.some.inj hhead).symm
    have hlen : (String.utf8EncodeChar c).length = 1 := by
      have hone : leadLength lead = some 1 := by
        rw [hsame, leadLength, if_pos (UInt8.le_iff_toNat_le.2 (Nat.le_of_lt_succ hascii))]
      rw [hone] at hlead
      exact (Option.some.inj hlead).symm
    rw [hc, List.length_cons] at hlen
    rw [List.length_eq_zero_iff.1 (Nat.succ.inj hlen)] at hb
    refine ⟨cs, ?_⟩
    rw [← List.drop_drop, hb]
    rfl

theorem ascii_run {k : Nat} (hb : b.drop pos = cs.flatMap String.utf8EncodeChar ++ rest)
    (hin : k ≤ (cs.flatMap String.utf8EncodeChar).length) (hk : ∀ i < k, ∃ x, b[pos + i]? = some x ∧ x.toNat < 128) :
    ∃ cs' : List Char, b.drop (pos + k) = cs'.flatMap String.utf8EncodeChar ++ rest := by
  induction k with
  | zero => exact ⟨cs, hb⟩
  | succ k ih =>
    obtain ⟨cs', hcs'⟩ := ih (by omega) fun i hi => hk i (by omega)
    obtain ⟨x, hx, hascii⟩ := hk k (by omega)
    refine ascii_front hcs' ?_ hx hascii
    have hlength := congrArg List.length hb
    have hlength' := congrArg List.length hcs'
    simp only [List.length_drop, List.length_append] at hlength hlength'
    omega

/-- What stands before a value: digits and a dot. -/
theorem IsElement.head (h : IsElement b pos start stop separator n) :
    ∀ i < start - pos, ∃ x, b[pos + i]? = some x ∧ x.toNat < 128 := by
  intro i hi
  have hstart := h.start_eq
  rcases Nat.lt_or_ge i (digitsAt b pos).length with hlt | hge
  · have hdigit := List.all_eq_true.1 (digitsAt_all b pos) _ (List.getElem_mem hlt)
    refine ⟨(digitsAt b pos)[i], ?_, by have := (isAsciiDigit_iff.1 hdigit).2; omega⟩
    obtain ⟨t, ht⟩ : digitsAt b pos <+: b.drop pos := List.takeWhile_prefix _
    rw [← List.getElem?_drop, ← ht, List.getElem?_append_left hlt, List.getElem?_eq_getElem hlt]
  · refine ⟨46, ?_, by decide⟩
    rw [show i = (digitsAt b pos).length by omega]
    exact h.dot

theorem IsElement.text (h : IsElement b pos start stop separator n) (hsep : separator.toNat < 128)
    (hb : b.drop pos = cs.flatMap String.utf8EncodeChar ++ rest)
    (hin : stop < pos + (cs.flatMap String.utf8EncodeChar).length) :
    (∃ v, elementText b (start, stop) = .ok v) ∧
      ∃ cs' : List Char, b.drop (stop + 1) = cs'.flatMap String.utf8EncodeChar ++ rest := by
  obtain ⟨hpos, hle, hstop⟩ := h.bounds
  obtain ⟨cs', hcs'⟩ := ascii_run hb (by omega) h.head
  rw [Nat.add_sub_cancel' hpos.le] at hcs'
  have hlength := congrArg List.length hb
  have hlength' := congrArg List.length hcs'
  simp only [List.length_drop, List.length_append] at hlength hlength'
  have hn : n ≤ cs'.length := by
    by_contra hlt
    obtain ⟨k, rfl⟩ : ∃ k, n = cs'.length + k := ⟨n - cs'.length, by omega⟩
    have hskip := h.chars
    rw [skipChars_add (skipChars_whole hcs')] at hskip
    have := le_of_skipChars hskip
    omega
  have hsplit : b.drop start = (cs'.take n).flatMap String.utf8EncodeChar ++
      ((cs'.drop n).flatMap String.utf8EncodeChar ++ rest) := by
    rw [hcs', ← List.append_assoc, ← List.flatMap_append, List.take_append_drop]
  have hskip := skipChars_whole hsplit
  rw [List.length_take, Nat.min_eq_left hn, h.chars] at hskip
  have hvalue : stop = start + ((cs'.take n).flatMap String.utf8EncodeChar).length := by
    cases hskip
    rfl
  constructor
  · have hbytes : (b.drop start).take (stop - start) = bytes (.ofList (cs'.take n)) := by
      rw [hsplit, hvalue, Nat.add_sub_cancel_left, List.take_left, bytes_eq_flatMap, String.toList_ofList]
    refine ⟨.ofList (cs'.take n), ?_⟩
    rw [elementText, slice_eq ⟨hle, hstop.le⟩]
    simp only [bind, Except.bind, hbytes, fromUtf8_bytes]
    rfl
  · have hrest : b.drop stop = (cs'.drop n).flatMap String.utf8EncodeChar ++ rest := by
      rw [hvalue, ← List.drop_drop, hsplit, List.drop_left]
    refine ascii_front hrest ?_ h.next hsep
    have hlength'' := congrArg List.length hrest
    simp only [List.length_drop, List.length_append] at hlength''
    omega

theorem drop_of_element (h : IsElement b pos start stop separator n) (hsep : separator.toNat < 128) {v : String}
    (hv : elementText b (start, stop) = .ok v) :
    ∃ cs : List Char, b.drop pos = cs.flatMap String.utf8EncodeChar ++ b.drop (stop + 1) := by
  obtain ⟨hpos, hle, hstop⟩ := h.bounds
  obtain ⟨before, hbefore⟩ : ∃ cs : List Char, cs.flatMap String.utf8EncodeChar = (b.drop pos).take (start - pos) := by
    refine ascii_chars fun x hx => ?_
    obtain ⟨i, hi, rfl⟩ := List.getElem_of_mem hx
    rw [List.length_take] at hi
    obtain ⟨y, hy, hascii⟩ := h.head i (by omega)
    rw [← List.getElem?_drop] at hy
    obtain ⟨hlt, rfl⟩ := List.getElem?_eq_some_iff.1 hy
    rwa [List.getElem_take]
  obtain ⟨after, hafter⟩ : ∃ cs : List Char, cs.flatMap String.utf8EncodeChar = [separator] :=
    ascii_chars fun x hx => List.mem_singleton.1 hx ▸ hsep
  have hvalue : bytes v = (b.drop start).take (stop - start) := by
    rw [elementText, slice_eq ⟨hle, hstop.le⟩] at hv
    simp only [bind, Except.bind, pure, Except.pure] at hv
    cases hs : fromUtf8 ((b.drop start).take (stop - start)) with
    | none =>
      rw [hs] at hv
      cases hv
    | some text =>
      rw [hs] at hv
      cases hv
      exact bytes_of_fromUtf8 hs
  have hnext : b.drop stop = separator :: b.drop (stop + 1) := by
    obtain ⟨hlt, hget⟩ := List.getElem?_eq_some_iff.1 h.next
    rw [List.drop_eq_getElem_cons hlt, hget]
  refine ⟨before ++ v.toList ++ after, ?_⟩
  rw [List.flatMap_append, List.flatMap_append, hbefore, hafter, ← bytes_eq_flatMap, hvalue, List.append_assoc,
    List.append_assoc, List.singleton_append, ← hnext]
  calc b.drop pos = (b.drop pos).take (start - pos) ++ b.drop start := by
        rw [show b.drop start = (b.drop pos).drop (start - pos) by
          rw [List.drop_drop, Nat.add_sub_cancel' hpos.le], List.take_append_drop]
    _ = _ := by
      rw [show b.drop stop = (b.drop start).drop (stop - start) by
        rw [List.drop_drop, Nat.add_sub_cancel' hle], List.take_append_drop]

end

theorem IsInstruction.texts {es : List (Nat × Nat)} {e : Nat} {cs : List Char} {rest : List UInt8}
    (h : IsInstruction b pos es e) (hb : b.drop pos = cs.flatMap String.utf8EncodeChar ++ rest)
    (hin : e ≤ pos + (cs.flatMap String.utf8EncodeChar).length) :
    (∃ texts, es.mapM (elementText b) = .ok texts) ∧
      ∃ cs' : List Char, b.drop e = cs'.flatMap String.utf8EncodeChar ++ rest := by
  induction h generalizing cs with
  | last hel =>
    obtain ⟨⟨v, hv⟩, hrest⟩ := hel.text (by decide) hb (by omega)
    refine ⟨⟨[v], ?_⟩, hrest⟩
    rw [List.mapM_cons, hv]
    rfl
  | more hel hins ih =>
    have hend := hins.bounds
    obtain ⟨⟨v, hv⟩, cs', hcs'⟩ := hel.text (by decide) hb (by omega)
    have hlength := congrArg List.length hb
    have hlength' := congrArg List.length hcs'
    simp only [List.length_drop, List.length_append] at hlength hlength'
    obtain ⟨⟨texts, htexts⟩, hrest⟩ := ih hcs' (by omega)
    refine ⟨⟨v :: texts, ?_⟩, hrest⟩
    rw [List.mapM_cons, hv, htexts]
    rfl

theorem IsInstruction.drop {es : List (Nat × Nat)} {e : Nat} (h : IsInstruction b pos es e)
    (htexts : ∀ r ∈ es, ∃ v, elementText b r = .ok v) :
    ∃ cs : List Char, b.drop pos = cs.flatMap String.utf8EncodeChar ++ b.drop e := by
  induction h with
  | last hel =>
    obtain ⟨v, hv⟩ := htexts _ List.mem_cons_self
    exact drop_of_element hel (by decide) hv
  | more hel hins ih =>
    rw [List.forall_mem_cons] at htexts
    obtain ⟨⟨v, hv⟩, htexts⟩ := htexts
    obtain ⟨cs, hcs⟩ := drop_of_element hel (by decide) hv
    obtain ⟨cs', hcs'⟩ := ih htexts
    exact ⟨cs ++ cs', by rw [hcs, hcs', List.flatMap_append, List.append_assoc]⟩

/-! ## Frames without their texts -/

/-- The frame at the front and its length in bytes. -/
def lookFrame (b : List UInt8) : Option (Except GuacError (Unit × Nat)) :=
  match scanFrom b (maxElements + 1) 0 [] with
  | .ok none => none
  | .error e => some (.error e)
  | .ok (some (stop, _)) => some (.ok ((), stop))

theorem lookFrame_eq_none : lookFrame b = none ↔ Unfinished b := by
  unfold lookFrame Unfinished
  rcases scanFrom b (maxElements + 1) 0 [] with e | _ | ⟨stop, es⟩ <;> simp

theorem lookFrame_eq_some : lookFrame b = some (.ok ((), n)) ↔
    ∃ es, es.length ≤ maxElements ∧ IsInstruction b 0 es n := by
  unfold lookFrame
  constructor
  · intro h
    split at h
    · cases h
    · cases h
    · rename_i stop es hframe
      cases h
      exact ⟨es, frame_eq_some.1 hframe⟩
  · rintro ⟨es, hes⟩
    rw [frame_eq_some.2 hes]

theorem open_lookFrame : Open lookFrame maxInstructionBytes b ↔ Open look maxInstructionBytes b := by
  rw [Open, Open, lookFrame_eq_none, look_eq_none]

theorem lookFrame_of_look {i : Instruction} (h : look b = some (.ok (i, n))) : lookFrame b = some (.ok ((), n)) := by
  obtain ⟨es, hlen, hins, -⟩ := look_eq_some.1 h
  exact lookFrame_eq_some.2 ⟨es, hlen, hins⟩

/-- Instructions at the front are a text, and frames. -/
theorem text_of_starts {xs : List (Instruction × Nat)} {r : List UInt8} (h : Starts look b xs r) :
    Starts lookFrame b (xs.map fun x => ((), x.2)) r ∧
      ∃ cs : List Char, b = cs.flatMap String.utf8EncodeChar ++ r := by
  induction h with
  | nil => exact ⟨.nil, [], rfl⟩
  | cons hlook _ ih =>
    obtain ⟨hframes, cs, hcs⟩ := ih
    obtain ⟨es, -, hins, htexts⟩ := look_eq_some.1 hlook
    obtain ⟨cs', hcs'⟩ := hins.drop fun r hr =>
      (Except.exists_of_mem_mapM htexts hr).imp fun v hv => hv.2
    refine ⟨.cons (lookFrame_of_look hlook) hframes, cs' ++ cs, ?_⟩
    rw [List.flatMap_append, List.append_assoc, ← hcs, ← hcs']
    rfl

/-- Frames of a text are instructions. -/
theorem starts_of_text {raws : List (Unit × Nat)} {r : List UInt8} {cs : List Char} (h : Starts lookFrame b raws r)
    (hb : b = cs.flatMap String.utf8EncodeChar ++ r) :
    ∃ xs, Starts look b xs r ∧ xs.length = raws.length := by
  induction h generalizing cs with
  | nil => exact ⟨[], .nil, rfl⟩
  | @cons b r x n raws hframe hrest ih =>
    obtain ⟨es, hlen, hins⟩ := lookFrame_eq_some.1 hframe
    obtain ⟨p, hp⟩ := hrest.suffix
    have hin : n ≤ 0 + (cs.flatMap String.utf8EncodeChar).length := by
      have hlength := congrArg List.length hb
      have hlength' := congrArg List.length hp
      have hend := hins.bounds
      simp only [List.length_drop, List.length_append] at hlength hlength'
      omega
    obtain ⟨⟨texts, htexts⟩, cs', hcs'⟩ := hins.texts (List.drop_zero.trans hb) hin
    obtain ⟨xs, hxs, hcount⟩ := ih hcs'
    cases texts with
    | nil =>
      have hforall := Except.forall₂_of_mapM htexts
      cases hforall
      exact absurd rfl hins.ne_nil
    | cons opcode args =>
      exact ⟨(⟨opcode, args⟩, n) :: xs, .cons (look_eq_some.2 ⟨es, hlen, hins, htexts⟩) hxs, congrArg (· + 1) hcount⟩

end Gateway
