import RemoteHub.Lib.Framing
import RemoteHub.Lib.Answer
import RemoteHub.Gateway.Proof.Scan

/-!
# Instructions survive the wire

* `decodes_instruction`: the parser takes an encoded instruction off the front of a buffer, and
  never takes one off a part of it, whatever separators, digits or multi-byte characters its values
  hold (`nextInstruction_whole`, `unfinished_of_part`).
* `nextInstruction_wellFormed`: what the parser yields can be encoded and read again.
* `framing_round_trip`: instructions within guacd's limits, encoded one after the other and cut into
  chunks anywhere, come out as they went in, one by one or as texts of whole instructions.
-/

namespace Gateway

open Framing (Decodes Quiet)

/-! ## The encoding -/

/-- `LENGTH.VALUE`. -/
def elementBytes (value : String) : List UInt8 :=
  bytes (toString value.length) ++ 46 :: bytes value

theorem bytes_pushElement (out value : String) :
    bytes (pushElement out value) = bytes out ++ elementBytes value := by
  simp only [pushElement, bytes_append, elementBytes, show bytes "." = [46] by decide]
  simp

theorem bytes_foldl_pushElement (args : List String) (out : String) :
    bytes (args.foldl (fun out arg => pushElement (out ++ ",") arg) out) =
      bytes out ++ args.flatMap fun arg => 44 :: elementBytes arg := by
  induction args generalizing out with
  | nil => simp
  | cons arg args ih =>
    rw [List.foldl_cons, ih, bytes_pushElement, bytes_append, show bytes "," = [44] by decide]
    simp

theorem bytes_encode (i : Instruction) :
    bytes i.encode =
      elementBytes i.opcode ++ (i.args.flatMap fun arg => 44 :: elementBytes arg) ++ [59] := by
  unfold Instruction.encode encodeInto
  rw [bytes_append, bytes_foldl_pushElement, bytes_pushElement, show bytes ";" = [59] by decide,
    show bytes "" = [] by decide, List.nil_append]

theorem encode_ne_nil (i : Instruction) : bytes i.encode ≠ [] := by
  rw [bytes_encode]
  simp

/-- guacd takes so many elements, and a length has five digits at most. -/
def Instruction.WellFormed (i : Instruction) : Prop :=
  i.args.length + 1 ≤ maxElements ∧ ∀ v ∈ i.opcode :: i.args, v.length ≤ 99999

/-- guacd takes so many bytes. -/
def Instruction.Fits (i : Instruction) : Prop := (bytes i.encode).length ≤ maxInstructionBytes

/-! ## An encoded instruction is found -/

theorem digitsAt_whole {b : List UInt8} {pos n : Nat} {rest : List UInt8}
    (h : b.drop pos = bytes (toString n) ++ 46 :: rest) : digitsAt b pos = bytes (toString n) := by
  unfold digitsAt
  rw [h, List.takeWhile_append_of_pos]
  · simp [show isAsciiDigit 46 = false by decide]
  · intro d hd
    exact List.all_eq_true.1 (toString_all_digits n) d hd

theorem getElem?_of_drop {b : List UInt8} {pos : Nat} {p : List UInt8} {x : UInt8}
    {rest : List UInt8} (h : b.drop pos = p ++ x :: rest) : b[pos + p.length]? = some x := by
  rw [← List.getElem?_drop, h]
  simp

theorem drop_of_drop {b : List UInt8} {pos : Nat} {p rest : List UInt8}
    (h : b.drop pos = p ++ rest) : b.drop (pos + p.length) = rest := by
  rw [← List.drop_drop, h, List.drop_left]

theorem isElement_whole {b : List UInt8} {pos : Nat} {v : String} {separator : UInt8}
    {rest : List UInt8} (hv : v.length ≤ 99999)
    (h : b.drop pos = elementBytes v ++ separator :: rest) :
    ∃ start stop, IsElement b pos start stop separator v.length ∧
      elementText b (start, stop) = .ok v ∧ stop = pos + (elementBytes v).length := by
  unfold elementBytes at h
  rw [List.append_assoc, List.cons_append] at h
  have hdigits := digitsAt_whole h
  have hdot := getElem?_of_drop h
  have hvalue : b.drop (pos + (bytes (toString v.length)).length + 1) =
      bytes v ++ separator :: rest := by
    rw [← List.drop_drop, drop_of_drop h]
    rfl
  have hnext := getElem?_of_drop hvalue
  obtain ⟨hlt, -⟩ := List.getElem?_eq_some_iff.1 hnext
  have hskip : skipChars b v.length (pos + (bytes (toString v.length)).length + 1) =
      .ok (some (pos + (bytes (toString v.length)).length + 1 + (bytes v).length)) := by
    have hchars := hvalue
    rw [bytes_eq_flatMap v] at hchars ⊢
    rw [← String.length_toList]
    exact skipChars_whole hchars
  refine ⟨_, _, ⟨?_, ?_, ?_, ?_, ?_, hskip, hnext⟩, ?_, ?_⟩
  · rw [hdigits]
  · rw [hdigits]
    exact toString_ne_nil _
  · rw [hdigits]
    exact length_toString_le hv
  · rw [hdigits]
    exact hdot
  · rw [hdigits]
    exact digitsValue_toString _
  · unfold elementText
    rw [slice_eq ⟨by omega, by omega⟩, hvalue, Nat.add_sub_cancel_left, List.take_left]
    simp only [bind, Except.bind, fromUtf8_bytes]
    rfl
  · unfold elementBytes
    simp only [List.length_append, List.length_cons]
    omega

/-- The ranges `scan` finds in an encoded instruction hold its values. -/
theorem isInstruction_whole {b : List UInt8} {pos : Nat} {v : String} {vs : List String}
    {rest : List UInt8} (hv : ∀ w ∈ v :: vs, w.length ≤ 99999)
    (h : b.drop pos =
      elementBytes v ++ (vs.flatMap fun w => 44 :: elementBytes w) ++ 59 :: rest) :
    ∃ es, IsInstruction b pos es
        (pos + (elementBytes v ++ (vs.flatMap fun w => 44 :: elementBytes w) ++ [59]).length) ∧
      es.length = vs.length + 1 ∧ es.mapM (elementText b) = .ok (v :: vs) := by
  induction vs generalizing pos v with
  | nil =>
    have h' : b.drop pos = elementBytes v ++ 59 :: rest := by simpa using h
    obtain ⟨start, stop, hel, htext, hstop⟩ := isElement_whole (hv v (.head _)) h'
    refine ⟨[(start, stop)], ?_, rfl, ?_⟩
    · have hend : pos + (elementBytes v ++
          (([] : List String).flatMap fun w => 44 :: elementBytes w) ++ [59]).length = stop + 1 := by
        simp [hstop, Nat.add_assoc]
      rw [hend]
      exact .last hel
    · rw [List.mapM_cons, htext]
      rfl
  | cons w vs ih =>
    have h' : b.drop pos = elementBytes v ++ 44 ::
        (elementBytes w ++ (vs.flatMap fun w => 44 :: elementBytes w) ++ 59 :: rest) := by
      simpa using h
    obtain ⟨start, stop, hel, htext, hstop⟩ := isElement_whole (hv v (.head _)) h'
    have hrest : b.drop (stop + 1) =
        elementBytes w ++ (vs.flatMap fun w => 44 :: elementBytes w) ++ 59 :: rest := by
      rw [hstop, ← List.drop_drop, drop_of_drop h']
      rfl
    obtain ⟨es, hins, hlen, htexts⟩ := ih (fun u hu => hv u (.tail _ hu)) hrest
    refine ⟨(start, stop) :: es, ?_, by rw [List.length_cons, hlen, List.length_cons], ?_⟩
    · have := IsInstruction.more hel hins
      have hend : stop + 1 +
          (elementBytes w ++ (vs.flatMap fun w => 44 :: elementBytes w) ++ [59]).length = pos +
          (elementBytes v ++ ((w :: vs).flatMap fun w => 44 :: elementBytes w) ++ [59]).length := by
        simp only [hstop, List.flatMap_cons, List.length_append, List.length_cons]
        omega
      rwa [hend] at this
    · rw [List.mapM_cons, htext, htexts]
      rfl

theorem scan_whole {i : Instruction} (hi : i.WellFormed) (q : List UInt8) :
    ∃ es, scan (bytes i.encode ++ q) = .ok (some ((bytes i.encode).length, es)) ∧
      es.mapM (elementText (bytes i.encode ++ q)) = .ok (i.opcode :: i.args) := by
  have hb : (bytes i.encode ++ q).drop 0 = elementBytes i.opcode ++
      (i.args.flatMap fun w => 44 :: elementBytes w) ++ 59 :: q := by
    rw [bytes_encode]
    simp
  obtain ⟨es, hins, hlen, htexts⟩ := isInstruction_whole hi.2 hb
  rw [Nat.zero_add, ← bytes_encode] at hins
  exact ⟨es, scan_eq_some.2 ⟨by rw [hlen]; exact hi.1, hins⟩, htexts⟩

/-- **An encoded instruction is read**, whatever its values hold and whatever follows it. -/
theorem nextInstruction_whole {i : Instruction} (hi : i.WellFormed) (q : List UInt8) :
    Parser.nextInstruction ⟨bytes i.encode ++ q⟩ = .ok (some (i, ⟨q⟩)) := by
  obtain ⟨es, hscan, htexts⟩ := scan_whole hi q
  unfold Parser.nextInstruction
  simp only [hscan, bind, Except.bind, pure, Except.pure]
  cases es with
  | nil => cases htexts
  | cons e es =>
    rw [List.mapM_cons] at htexts
    simp only [bind, Except.bind, pure, Except.pure] at htexts
    cases hop : elementText (bytes i.encode ++ q) e with
    | error e => simp [hop] at htexts
    | ok opcode =>
      simp only [hop] at htexts
      cases hargs : es.mapM (elementText (bytes i.encode ++ q)) with
      | error e => simp [hargs] at htexts
      | ok args =>
        simp only [hargs, Except.ok.injEq, List.cons.injEq] at htexts
        simp [hop, hargs, drainFront, htexts.1, htexts.2]

/-- **A part of an encoded instruction is neither an instruction nor wrong.** -/
theorem unfinished_of_part {i : Instruction} (hi : i.WellFormed) {p r : List UInt8}
    (hp : bytes i.encode = p ++ r) (hr : r ≠ []) : Unfinished p := by
  by_contra hu
  obtain ⟨es, hscan, -⟩ := scan_whole hi []
  -- what `scan` decides on the part it would decide on the whole
  rw [List.append_nil, hp, scan_append r hu] at hscan
  have hle := (scan_eq_some.1 hscan).2.bounds.2
  have := List.length_pos_of_ne_nil hr
  rw [List.length_append] at hle
  omega

theorem incomplete_of_part {α : Type} {i : Instruction} (hf : i.Fits) {p r : List UInt8}
    (hp : bytes i.encode = p ++ r) : (incomplete p : Except GuacError (Option α)) = .ok none := by
  unfold Instruction.Fits at hf
  rw [hp, List.length_append] at hf
  exact if_neg (by omega)

/-! ## What the parser yields -/

theorem length_of_elementText {b : List UInt8} {r : Nat × Nat} {s : String} {n : Nat}
    (hr : r.1 ≤ r.2 ∧ r.2 ≤ b.length) (hskip : skipChars b n r.1 = .ok (some r.2))
    (h : elementText b r = .ok s) : s.length = n := by
  unfold elementText at h
  rw [slice_eq hr] at h
  simp only [bind, Except.bind, pure, Except.pure] at h
  cases hs : fromUtf8 ((b.drop r.1).take (r.2 - r.1)) with
  | none =>
    rw [hs] at h
    cases h
  | some text =>
    simp only [hs, Except.ok.injEq] at h
    rw [← h]
    exact length_of_skipChars hskip hr.2 (bytes_of_fromUtf8 hs)

/-- What a successful call found in the buffer. -/
theorem nextInstruction_eq_some {b : List UInt8} {i : Instruction} {p : Parser}
    (h : Parser.nextInstruction ⟨b⟩ = .ok (some (i, p))) :
    ∃ stop es, scan b = .ok (some (stop, es)) ∧
      List.Forall₂ (fun r v => elementText b r = .ok v) es (i.opcode :: i.args) ∧
      p = ⟨b.drop stop⟩ := by
  unfold Parser.nextInstruction at h
  simp only [bind, Except.bind, pure, Except.pure] at h
  rcases hscan : scan b with e | _ | ⟨stop, es⟩
  · simp [hscan] at h
  · simp [hscan] at h
  · simp only [hscan] at h
    cases es with
    | nil => cases h
    | cons e es =>
      simp only at h
      cases hop : elementText b e with
      | error e => simp [hop] at h
      | ok opcode =>
        simp only [hop] at h
        cases hargs : es.mapM (elementText b) with
        | error e => simp [hargs] at h
        | ok args =>
          simp only [hargs, drainFront, (scan_eq_some.1 hscan).2.bounds.2, if_true,
            Except.ok.injEq, Option.some.injEq, Prod.mk.injEq] at h
          obtain ⟨rfl, rfl⟩ := h
          exact ⟨stop, e :: es, rfl, .cons hop (Except.forall₂_of_mapM hargs), rfl⟩

/-- **What the parser yields can be encoded and read again.** -/
theorem nextInstruction_wellFormed {b : List UInt8} {i : Instruction} {p : Parser}
    (h : Parser.nextInstruction ⟨b⟩ = .ok (some (i, p))) : i.WellFormed := by
  obtain ⟨stop, es, hscan, htexts, -⟩ := nextInstruction_eq_some h
  obtain ⟨hlen, hins⟩ := scan_eq_some.1 hscan
  have heq := htexts.length_eq
  constructor
  · rw [List.length_cons] at heq
    omega
  · intro v hv
    obtain ⟨⟨k, hk⟩, rfl⟩ := List.get_of_mem hv
    have htext := htexts.get (heq ▸ hk) hk
    obtain ⟨hle, hb, n, hn, hskip⟩ := hins.element (List.get_mem es ⟨k, heq ▸ hk⟩)
    rw [length_of_elementText ⟨hle, hb⟩ hskip htext]
    exact hn

/-! ## The parser as a decoder -/

section

variable {α : Type} (take : Parser → Except GuacError (Option (α × Parser)))

/-- A method of the parser as a function of its buffer. -/
def onBuffer (b : List UInt8) : Except GuacError (Option (α × List UInt8)) :=
  (take ⟨b⟩).map (Option.map fun x => (x.1, x.2.buffer))

theorem drain_eq (fuel : Nat) (b : List UInt8) :
    Parser.drain take fuel ⟨b⟩ =
      ((Framing.drainN (onBuffer take) fuel b).1,
        (Framing.drainN (onBuffer take) fuel b).2.map Parser.mk) := by
  induction fuel generalizing b with
  | zero => rfl
  | succ fuel ih =>
    unfold Parser.drain Framing.drainN onBuffer
    rcases take ⟨b⟩ with e | _ | ⟨x, ⟨b'⟩⟩
    · rfl
    · rfl
    · simp only [Except.map, Option.map_some]
      rw [ih b']
      rfl

theorem feed_eq (b : List UInt8) (chunks : List (List UInt8)) :
    Parser.feed take ⟨b⟩ chunks =
      ((Framing.feed (onBuffer take) b chunks).1,
        (Framing.feed (onBuffer take) b chunks).2.map Parser.mk) := by
  induction chunks generalizing b with
  | nil => rfl
  | cons c cs ih =>
    simp only [Parser.feed, Framing.feed, Parser.push, Framing.drain]
    rw [drain_eq]
    rcases Framing.drainN (onBuffer take) ((b ++ c).length + 1) (b ++ c) with ⟨xs, e | b'⟩
    · rfl
    · simp only [Except.map]
      rw [ih b']
      rfl

end

theorem nextInstruction_of_unfinished {b : List UInt8} (h : Unfinished b) :
    Parser.nextInstruction ⟨b⟩ = incomplete b := by
  unfold Parser.nextInstruction
  rw [scan_of_unfinished h]
  unfold incomplete
  split_ifs <;> rfl

/-- **The parser decodes what `encode` writes.** -/
theorem decodes_instruction :
    Decodes (onBuffer Parser.nextInstruction) (fun i => bytes i.encode)
      Instruction.WellFormed where
  empty := by decide
  ne_nil i _ := encode_ne_nil i
  whole i q hi := by
    unfold onBuffer
    rw [nextInstruction_whole hi]
    rfl
  part i p r hi hp hr y := by
    unfold onBuffer
    rw [nextInstruction_of_unfinished (unfinished_of_part hi hp hr)]
    unfold incomplete
    split_ifs <;> simp [Except.map]

theorem quiet_instruction :
    Quiet (onBuffer Parser.nextInstruction) (fun i => bytes i.encode)
      fun i => i.WellFormed ∧ i.Fits := by
  intro i p r hi hp hr
  unfold onBuffer
  rw [nextInstruction_of_unfinished (unfinished_of_part hi.1 hp hr), incomplete_of_part hi.2 hp]
  rfl

/-! ## Texts of whole instructions -/

/-- The bytes of the first complete instruction. -/
def takeRaw (b : List UInt8) : Except GuacError (Option (List UInt8 × List UInt8)) :=
  (scan b).map (Option.map fun found => (b.take found.1, b.drop found.1))

/-- The bytes of an instruction within guacd's limits. -/
def IsRaw (raw : List UInt8) : Prop :=
  ∃ i : Instruction, i.WellFormed ∧ i.Fits ∧ raw = bytes i.encode

theorem quiet_raw : Quiet takeRaw id IsRaw := by
  rintro raw p r ⟨i, hi, hf, rfl⟩ hp hr
  unfold takeRaw
  rw [scan_of_unfinished (unfinished_of_part hi hp hr), incomplete_of_part hf hp]
  rfl

theorem decodes_raw : Decodes takeRaw id IsRaw where
  empty := by decide
  ne_nil := by
    rintro raw ⟨i, -, -, rfl⟩
    exact encode_ne_nil i
  whole := by
    rintro raw q ⟨i, hi, -, rfl⟩
    obtain ⟨es, hscan, -⟩ := scan_whole hi q
    unfold takeRaw
    rw [id, hscan]
    simp [Except.map]
  part raw p r hraw hp hr y := by
    rw [quiet_raw raw p r hraw hp hr]
    simp

/-- `take_complete` finds the end of what is taken off raw. -/
theorem completeEnd_eq {b : List UInt8} {fuel stop : Nat} {raws : List (List UInt8)}
    {b' : List UInt8} (hstop : stop ≤ b.length) (hfuel : b.length - stop < fuel)
    (h : Framing.drainN takeRaw fuel (b.drop stop) = (raws, .ok b')) :
    completeEnd b fuel stop = .ok (stop + raws.flatten.length) ∧
      raws.flatten ++ b' = b.drop stop := by
  induction fuel generalizing stop raws with
  | zero => omega
  | succ fuel ih =>
    have hslice : slice b stop b.length = .ok (b.drop stop) := by
      rw [slice_eq ⟨hstop, le_refl _⟩, List.take_of_length_le (by simp)]
    unfold completeEnd
    simp only [hslice, bind, Except.bind, pure, Except.pure]
    rw [Framing.drainN] at h
    rcases hscan : scan (b.drop stop) with e | _ | ⟨len, es⟩
    · simp [takeRaw, hscan, Except.map] at h
    · have htake : takeRaw (b.drop stop) = .ok none := by
        rw [takeRaw, hscan]
        rfl
      simp only [htake, Prod.mk.injEq, Except.ok.injEq] at h
      obtain ⟨rfl, rfl⟩ := h
      simp
    · obtain ⟨hpos, hlen⟩ := (scan_eq_some.1 hscan).2.bounds
      rw [List.length_drop] at hlen
      have htake : takeRaw (b.drop stop) =
          .ok (some ((b.drop stop).take len, b.drop (stop + len))) := by
        rw [takeRaw, hscan, ← List.drop_drop]
        rfl
      rcases hdr : Framing.drainN takeRaw fuel (b.drop (stop + len)) with ⟨raws', res⟩
      simp only [htake, hdr, Prod.mk.injEq] at h
      obtain ⟨rfl, rfl⟩ := h
      obtain ⟨hend, hrest⟩ := ih (by omega) (by omega) hdr
      rw [List.flatten_cons, List.append_assoc, hrest, ← List.drop_drop, List.take_append_drop]
      refine ⟨?_, rfl⟩
      simp only [hend, List.length_append, List.length_take, List.length_drop]
      congr 1
      omega

/-- Instructions one after the other, as one text. -/
def joined (is : List Instruction) : String := String.join (is.map Instruction.encode)

theorem bytes_join (ss : List String) : bytes (String.join ss) = ss.flatMap bytes := by
  suffices h : ∀ out, bytes (ss.foldl (fun r s => r ++ s) out) = bytes out ++ ss.flatMap bytes by
    exact h ""
  intro out
  induction ss generalizing out with
  | nil => simp
  | cons s ss ih => rw [List.foldl_cons, ih, bytes_append, List.flatMap_cons, List.append_assoc]

theorem bytes_joined (is : List Instruction) :
    bytes (joined is) = is.flatMap fun i => bytes i.encode := by
  unfold joined
  rw [bytes_join, List.flatMap_map]

theorem bytes_injective {s t : String} (h : bytes s = bytes t) : s = t := by
  have hs := fromUtf8_bytes s
  rw [h, fromUtf8_bytes] at hs
  exact (Option.some.inj hs).symm

theorem joined_flatten (groups : List (List Instruction)) :
    String.join (groups.map joined) = joined groups.flatten := by
  apply bytes_injective
  rw [bytes_join, bytes_joined, List.flatMap_map, ← List.flatMap_id, List.flatMap_assoc]
  apply List.flatMap_congr
  intro g _
  exact bytes_joined g

theorem joined_ne_nil {is : List Instruction} (h : is ≠ []) : bytes (joined is) ≠ [] := by
  cases is with
  | nil => exact absurd rfl h
  | cons i is =>
    rw [bytes_joined, List.flatMap_cons]
    simp [encode_ne_nil i]

theorem takeComplete_eq {b b' : List UInt8} {text : String} (hne : bytes text ≠ [])
    (hend : completeEnd b (b.length + 1) 0 = .ok (bytes text).length)
    (hsplit : bytes text ++ b' = b) : Parser.takeComplete ⟨b⟩ = (.ok (some text), ⟨b'⟩) := by
  obtain ⟨n, hn⟩ := Nat.exists_eq_succ_of_ne_zero (mt List.length_eq_zero_iff.1 hne)
  have hdrain : drainFront b (n + 1) = .ok (bytes text, b') := by
    unfold drainFront
    rw [← Nat.succ_eq_add_one, ← hn, ← hsplit, if_pos (by simp), List.take_left, List.drop_left]
  unfold Parser.takeComplete
  rw [hend, hn]
  simp [hdrain, fromUtf8_bytes]

/-- What `take_complete` takes off a buffer of encoded instructions: as many of them as are whole. -/
theorem nextText_reads {b r : List UInt8} {is : List Instruction}
    (hi : ∀ i ∈ is, i.WellFormed ∧ i.Fits) (hb : b ++ r = is.flatMap fun i => bytes i.encode) :
    ∃ ys zs b', is = ys ++ zs ∧ b = (ys.flatMap fun i => bytes i.encode) ++ b' ∧
      b' ++ r = (zs.flatMap fun i => bytes i.encode) ∧
      Framing.Short (fun i : Instruction => bytes i.encode) b' zs ∧
      Parser.nextText ⟨b⟩ = .ok (if ys = [] then none else some (joined ys, ⟨b'⟩)) := by
  have hraw : ∀ raw ∈ is.map fun i => bytes i.encode, IsRaw raw := by
    intro raw hraw
    obtain ⟨i, hmem, rfl⟩ := List.mem_map.1 hraw
    exact ⟨i, (hi i hmem).1, (hi i hmem).2, rfl⟩
  have hstream : b ++ r = (is.map fun i => bytes i.encode).flatMap id := by
    rw [hb, List.flatMap_map]
    rfl
  obtain ⟨raws, rest, his, hgot, hend⟩ :=
    Framing.drainN_reads decodes_raw hraw hstream (Nat.lt_succ_self _)
  obtain ⟨ys, zs, rfl, rfl, rfl⟩ := List.map_eq_append_iff.1 his
  obtain ⟨e, -, raw, hmem, p, q, hp, hq, he⟩ | ⟨b', hb', hrest, hshort⟩ := hend
  · rw [quiet_raw raw p q (hraw raw hmem) hp hq] at he
    cases he
  have hdr : Framing.drainN takeRaw (b.length + 1) (b.drop 0) =
      (ys.map fun i => bytes i.encode, .ok b') := by
    rw [List.drop_zero, ← hgot, ← hb']
  obtain ⟨hlen, hsplit⟩ := completeEnd_eq (Nat.zero_le _) (by omega) hdr
  rw [Nat.zero_add] at hlen
  rw [List.drop_zero, ← List.flatMap_def, ← bytes_joined] at hsplit
  rw [← List.flatMap_def, ← bytes_joined] at hlen
  refine ⟨ys, zs, b', rfl, by rw [← bytes_joined, hsplit], ?_, ?_, ?_⟩
  · rw [hrest, List.flatMap_map]
    rfl
  · intro z hz
    apply hshort
    rw [List.head?_map, hz]
    rfl
  · unfold Parser.nextText
    split_ifs with hys
    · subst hys
      unfold Parser.takeComplete
      rw [hlen]
      rfl
    · rw [takeComplete_eq (joined_ne_nil hys) hlen hsplit]

theorem nextText_drain {b r : List UInt8} {is : List Instruction}
    (hi : ∀ i ∈ is, i.WellFormed ∧ i.Fits) (hb : b ++ r = is.flatMap fun i => bytes i.encode) :
    ∃ (gs : List (List Instruction)) (zs : List Instruction) (b' : List UInt8),
      is = gs.flatten ++ zs ∧ (∀ g ∈ gs, g ≠ []) ∧
      b' ++ r = (zs.flatMap fun i => bytes i.encode) ∧
      Framing.Short (fun i : Instruction => bytes i.encode) b' zs ∧
      Parser.drain Parser.nextText (b.length + 1) ⟨b⟩ = (gs.map joined, .ok ⟨b'⟩) := by
  obtain ⟨ys, zs, b', rfl, hsplit, hrest, hshort, htext⟩ := nextText_reads hi hb
  by_cases hys : ys = []
  · subst hys
    rw [if_pos rfl] at htext
    have hbb : b = b' := by simpa using hsplit
    refine ⟨[], zs, b', rfl, by simp, hrest, hshort, ?_⟩
    rw [Parser.drain, htext, hbb]
    rfl
  · -- what is left is no whole instruction: the second call gives nothing
    rw [if_neg hys] at htext
    have hz : ∀ i ∈ zs, i.WellFormed ∧ i.Fits := fun i h => hi i (List.mem_append_right _ h)
    obtain ⟨us, ws, b'', rfl, hsplit', -, -, htext'⟩ := nextText_reads hz hrest
    have hus : us = [] := by
      cases us with
      | nil => rfl
      | cons u us =>
        have hu := hshort u rfl
        rw [hsplit', List.flatMap_cons] at hu
        simp only [List.length_append] at hu
        omega
    refine ⟨[ys], us ++ ws, b', by simp, by simpa using hys, hrest, hshort, ?_⟩
    rw [Parser.drain, htext]
    rw [if_pos hus] at htext'
    have hdone : ∀ n, Parser.drain Parser.nextText n ⟨b'⟩ = ([], .ok ⟨b'⟩)
      | 0 => rfl
      | n + 1 => by rw [Parser.drain, htext']
    simp only [hdone, List.map_singleton]

theorem nextText_feed {chunks : List (List UInt8)} {b : List UInt8} {is : List Instruction}
    (hi : ∀ i ∈ is, i.WellFormed ∧ i.Fits)
    (hshort : Framing.Short (fun i : Instruction => bytes i.encode) b is)
    (hb : b ++ chunks.flatten = is.flatMap fun i => bytes i.encode) :
    ∃ groups : List (List Instruction), groups.flatten = is ∧ (∀ g ∈ groups, g ≠ []) ∧
      Parser.feed Parser.nextText ⟨b⟩ chunks = (groups.map joined, .ok {}) := by
  induction chunks generalizing b is with
  | nil =>
    obtain ⟨rfl, rfl⟩ := hshort.eq_nil (by simpa using hb)
    exact ⟨[], rfl, by simp, rfl⟩
  | cons c cs ih =>
    rw [List.flatten_cons, ← List.append_assoc] at hb
    obtain ⟨gs, zs, b', rfl, hgs, hrest, hshort', hdrain⟩ := nextText_drain hi hb
    have hz : ∀ i ∈ zs, i.WellFormed ∧ i.Fits := fun i h => hi i (List.mem_append_right _ h)
    obtain ⟨groups, rfl, hne, hfeed⟩ := ih hz hshort' hrest
    refine ⟨gs ++ groups, List.flatten_append, ?_, ?_⟩
    · intro g hg
      rcases List.mem_append.1 hg with hg | hg
      · exact hgs g hg
      · exact hne g hg
    · simp only [Parser.feed, Parser.push, hdrain, hfeed, List.map_append]

/-! ## The round trip -/

/-- **Instructions survive the wire.** Instructions of at most 128 elements, of at most 99999
characters each and 32 KiB in all, encoded one after the other and cut into chunks anywhere: the
parser yields them in order without an error and ends empty; `take_complete` yields the encodings as
texts of whole instructions. -/
theorem framing_round_trip (is : List Instruction) (chunks : List (List UInt8))
    (helements : ∀ i ∈ is, i.args.length + 1 ≤ 128)
    (hchars : ∀ i ∈ is, ∀ v ∈ i.opcode :: i.args, v.length ≤ 99999)
    (hbytes : ∀ i ∈ is, (bytes i.encode).length ≤ 32 * 1024)
    (hcut : chunks.flatten = is.flatMap fun i => bytes i.encode) :
    Parser.feed Parser.nextInstruction {} chunks = (is, .ok {}) ∧
      ∃ groups : List (List Instruction), groups.flatten = is ∧ (∀ g ∈ groups, g ≠ []) ∧
        Parser.feed Parser.nextText {} chunks =
          (groups.map fun g => String.join (g.map Instruction.encode), .ok {}) ∧
        String.join (groups.map fun g => String.join (g.map Instruction.encode)) =
          String.join (is.map Instruction.encode) := by
  have hwf : ∀ i ∈ is, i.WellFormed := fun i h => ⟨helements i h, hchars i h⟩
  have hboth : ∀ i ∈ is, i.WellFormed ∧ i.Fits := fun i h => ⟨hwf i h, hbytes i h⟩
  constructor
  · rw [feed_eq, Framing.feed_quiet decodes_instruction quiet_instruction hwf hboth hcut]
    rfl
  · have hshort := Framing.short_nil decodes_instruction hwf
    obtain ⟨groups, hflat, hne, hfeed⟩ := nextText_feed hboth hshort hcut
    refine ⟨groups, hflat, hne, hfeed, ?_⟩
    rw [← hflat]
    exact joined_flatten groups

/-- A key event and a message with separators and a character of four bytes in it, cut inside the
length, inside the character and before the semicolon. -/
theorem framing_round_trip_cut :
    Parser.feed Parser.nextInstruction {}
        [[51], [46, 107, 101, 121, 44, 50, 46, 54, 53, 59, 51, 46, 109, 115, 103, 44, 51, 46, 59, 44,
          240, 159], [146, 150], [59]] =
      ([⟨"key", ["65"]⟩, ⟨"msg", [";,💖"]⟩], .ok {}) :=
  (framing_round_trip [⟨"key", ["65"]⟩, ⟨"msg", [";,💖"]⟩] _ (by decide) (by decide) (by decide)
    (by decide)).1

end Gateway
