import RemoteHub.Gateway.Proof.Look

/-!
# The fast and the plain path

`take_complete` looks at all frames of the buffer before it takes one, and at their bytes as one text:
`of_takeComplete` says what it has taken, `takeComplete_of_starts` when it takes something. What is wrong
further on in the buffer keeps it from delivering what `next_instruction` yields (`paths_agree_iff`).
-/

namespace Gateway

open Lookahead (Starts Stuck Open)

variable {b c : List UInt8} {pos : Nat}

/-! ## `take_complete` -/

theorem scan_cases (b : List UInt8) :
    (Open lookFrame maxInstructionBytes b ∧ scan b = .ok none) ∨ (∃ e, scan b = .error e) ∨
      ∃ stop es, scan b = .ok (some (stop, es)) ∧ lookFrame b = some (.ok ((), stop)) := by
  by_cases hu : Unfinished b
  · rw [scan_of_unfinished hu]
    unfold incomplete
    split
    · exact .inr (.inl ⟨_, rfl⟩)
    · exact .inl ⟨⟨lookFrame_eq_none.2 hu, by omega⟩, rfl⟩
  · rw [scan_of_not_unfinished hu]
    rcases hframe : scanFrom b (maxElements + 1) 0 [] with e | _ | ⟨stop, es⟩
    · exact .inr (.inl ⟨e, rfl⟩)
    · exact absurd hframe hu
    · exact .inr (.inr ⟨stop, es, rfl, lookFrame_eq_some.2 ⟨es, frame_eq_some.1 hframe⟩⟩)

theorem slice_rest (h : pos ≤ b.length) : slice b pos b.length = .ok (b.drop pos) := by
  rw [slice_eq ⟨h, le_refl _⟩, List.take_of_length_le (by simp)]

/-- The loop stops where the frames do. -/
theorem of_completeEnd {fuel e : Nat} (hpos : pos ≤ b.length) (h : completeEnd b fuel pos = .ok e) :
    e ≤ b.length ∧ Open lookFrame maxInstructionBytes (b.drop e) ∧
      ∃ raws, Starts lookFrame (b.drop pos) raws (b.drop e) := by
  induction fuel generalizing pos with
  | zero => cases h
  | succ fuel ih =>
    unfold completeEnd at h
    simp only [slice_rest hpos, bind, Except.bind, pure, Except.pure] at h
    obtain ⟨hopen, hscan⟩ | ⟨e', hscan⟩ | ⟨length, es, hscan, hframe⟩ := scan_cases (b.drop pos)
    · simp only [hscan] at h
      cases h
      exact ⟨hpos, hopen, [], .nil⟩
    · simp only [hscan] at h
      cases h
    · simp only [hscan] at h
      obtain ⟨es', -, hins⟩ := lookFrame_eq_some.1 hframe
      have hend := hins.bounds.2
      rw [List.length_drop] at hend
      obtain ⟨he, hopen, raws, hraws⟩ := ih (by omega) h
      exact ⟨he, hopen, _, .cons hframe (by rwa [List.drop_drop])⟩

theorem completeEnd_of_starts {fuel e : Nat} {raws : List (Unit × Nat)} (he : e ≤ b.length)
    (h : Starts lookFrame (b.drop pos) raws (b.drop e)) (hpos : pos ≤ b.length) (hfuel : b.length - pos < fuel)
    (hopen : Open lookFrame maxInstructionBytes (b.drop e)) : completeEnd b fuel pos = .ok e := by
  induction fuel generalizing pos raws with
  | zero => omega
  | succ fuel ih =>
    unfold completeEnd
    simp only [slice_rest hpos, bind, Except.bind, pure, Except.pure]
    generalize hs : b.drop pos = s at h
    generalize ht : b.drop e = t at h
    cases h with
    | nil =>
      have hsame : pos = e := by
        have hlength := congrArg List.length (hs.trans ht.symm)
        simp only [List.length_drop] at hlength
        omega
      subst hs hsame
      obtain ⟨-, hscan⟩ | ⟨e', hscan⟩ | ⟨length, es, hscan, hframe⟩ := scan_cases (b.drop pos)
      · simp only [hscan]
      · rw [scan_of_unfinished (lookFrame_eq_none.1 hopen.1)] at hscan
        unfold incomplete at hscan
        rw [if_neg (by have := hopen.2; omega)] at hscan
        cases hscan
      · rw [hopen.1] at hframe
        cases hframe
    | @cons _ _ x n raws hframe hrest =>
      subst hs ht
      obtain ⟨es', hlen, hins⟩ := lookFrame_eq_some.1 hframe
      have hend := hins.bounds
      rw [List.length_drop] at hend
      rw [scan_eq_some.2 ⟨hlen, hins⟩]
      rw [List.drop_drop] at hrest
      exact ih hrest (by omega) (by omega)

theorem open_of_takeComplete_none {p : Parser} (h : Parser.takeComplete ⟨b⟩ = (.ok none, p)) :
    Open look maxInstructionBytes b := by
  unfold Parser.takeComplete at h
  split at h
  · cases h
  · rename_i hend
    exact open_lookFrame.1 (of_completeEnd (Nat.zero_le _) hend).2.1
  · split at h
    · cases h
    · split at h <;> cases h

/-- What `take_complete` takes off a buffer. -/
theorem of_takeComplete {text : String} {b' : List UInt8} (h : Parser.takeComplete ⟨b⟩ = (.ok (some text), ⟨b'⟩)) :
    b = bytes text ++ b' ∧ Open look maxInstructionBytes b' ∧
      ∃ xs, Starts look b xs b' ∧ Starts look (bytes text) xs [] := by
  unfold Parser.takeComplete at h
  split at h
  · cases h
  · cases h
  · rename_i e _ hend
    obtain ⟨he, hopen, raws, hraws⟩ := of_completeEnd (Nat.zero_le _) hend
    rw [drainFront, if_pos he] at h
    dsimp only at h
    split at h
    · rename_i hutf8
      cases h
      have hb : b = bytes text ++ b.drop e := by rw [bytes_of_fromUtf8 hutf8, List.take_append_drop]
      rw [List.drop_zero] at hraws
      obtain ⟨xs, hxs, -⟩ := starts_of_text hraws (by rw [← bytes_eq_flatMap]; exact hb)
      refine ⟨hb, open_lookFrame.1 hopen, xs, hxs, Starts.restrict decided_look (c := b.drop e) ?_⟩
      rwa [List.nil_append, ← hb]
    · cases h

theorem takeComplete_of_starts {xs : List (Instruction × Nat)} {r : List UInt8} (h : Starts look b xs r)
    (hopen : Open look maxInstructionBytes r) : ∃ text, b = bytes text ++ r ∧
      Parser.takeComplete ⟨b⟩ = if xs = [] then (.ok none, ⟨b⟩) else (.ok (some text), ⟨r⟩) := by
  obtain ⟨hframes, cs, hcs⟩ := text_of_starts h
  have hb : b = bytes (.ofList cs) ++ r := by rw [bytes_eq_flatMap, String.toList_ofList]; exact hcs
  have hr : b.drop (bytes (.ofList cs)).length = r := by
    conv_lhs => rw [hb]
    rw [List.drop_left]
  have hle : (bytes (.ofList cs)).length ≤ b.length := by
    rw [hb, List.length_append]
    omega
  have hend : completeEnd b (b.length + 1) 0 = .ok (bytes (.ofList cs)).length :=
    completeEnd_of_starts hle (by rwa [List.drop_zero, hr]) (Nat.zero_le _) (by omega) (by rw [hr]; exact open_lookFrame.2 hopen)
  refine ⟨.ofList cs, hb, ?_⟩
  unfold Parser.takeComplete
  split
  · rename_i herror
    rw [hend] at herror
    cases herror
  · rename_i hzero
    rw [hend] at hzero
    have hnil : bytes (.ofList cs) = [] := List.length_eq_zero_iff.1 (Except.ok.inj hzero)
    rw [hnil, List.nil_append] at hb
    subst hb
    rw [if_pos (h.eq_nil decided_look)]
  · rename_i e hne hsome
    rw [hend] at hsome
    cases hsome
    have hxs : xs ≠ [] := by
      rintro rfl
      cases h
      refine hne ?_
      have hlength := congrArg List.length hb
      rw [List.length_append] at hlength
      omega
    have htake : b.take (bytes (.ofList cs)).length = bytes (.ofList cs) := by
      conv_lhs => rw [hb]
      rw [List.take_left]
    simp only [drainFront, if_pos hle, htake, hr, fromUtf8_bytes, if_neg hxs]

/-! ## Both paths -/

/-- The instructions that a text carries. -/
def carried (text : String) : List Instruction :=
  (Parser.drain Parser.nextInstruction ((bytes text).length + 1) ⟨bytes text⟩).1

/-- What repeated calls of `next_instruction` yield. -/
def plain (b : List UInt8) : List Instruction × Except GuacError Parser :=
  Parser.drain Parser.nextInstruction (b.length + 1) ⟨b⟩

/-- What repeated calls of `take_complete` deliver. -/
def fast (b : List UInt8) : List Instruction × Except GuacError Parser :=
  let got := Parser.drain Parser.nextText (b.length + 1) ⟨b⟩
  (got.1.flatMap carried, got.2)

/-- Both deliver the same instructions and leave the same rest where none fails. -/
def Agree (b : List UInt8) : Prop :=
  (fast b).1 = (plain b).1 ∧ ∀ p p', (fast b).2 = .ok p → (plain b).2 = .ok p' → p = p'

theorem plain_outcome (b : List UInt8) : ∃ xs r, Starts look b xs r ∧ Stuck look r ∧ (plain b).1 = xs.map (·.1) ∧
    (Open look maxInstructionBytes r ∧ (plain b).2 = .ok ⟨r⟩ ∨
      ¬Open look maxInstructionBytes r ∧ ∃ e, (plain b).2 = .error e) := by
  obtain ⟨xs, r, hxs, hstuck, hgot, hend⟩ := Lookahead.drainN_outcome (m := maxInstructionBytes)
    (t := GuacError.malformed "instruction too long") decided_look (Nat.lt_succ_self b.length)
  rw [plain, drain_eq, onBuffer_nextInstruction]
  refine ⟨xs, r, hxs, hstuck, hgot, hend.imp ?_ ?_⟩
  · rintro ⟨hopen, hok⟩
    exact ⟨hopen, by rw [hok]; rfl⟩
  · rintro ⟨hclosed, e, herror⟩
    exact ⟨hclosed, e, by rw [herror]; rfl⟩

theorem carried_eq {text : String} {xs : List (Instruction × Nat)} (h : Starts look (bytes text) xs []) :
    carried text = xs.map (·.1) := by
  obtain ⟨ys, r, hys, hstuck, hgot, -⟩ := plain_outcome (bytes text)
  obtain ⟨rfl, -⟩ := h.unique_stuck (Lookahead.open_nil (m := 0) decided_look).stuck hys hstuck
  exact hgot

/-- Where all that is complete is text and nothing else is wrong, it is delivered. -/
theorem fast_of_starts {xs : List (Instruction × Nat)} {r : List UInt8} (h : Starts look b xs r)
    (hopen : Open look maxInstructionBytes r) : fast b = (xs.map (·.1), .ok ⟨r⟩) := by
  obtain ⟨text, hb, htake⟩ := takeComplete_of_starts h hopen
  have hdone : ∀ fuel, Parser.drain Parser.nextText fuel ⟨r⟩ = ([], .ok ⟨r⟩)
    | 0 => rfl
    | fuel + 1 => by
      obtain ⟨text, -, hnone⟩ := takeComplete_of_starts .nil hopen
      rw [Parser.drain, Parser.nextText, hnone]
      rfl
  by_cases hxs : xs = []
  · subst hxs
    cases h
    rw [fast, hdone]
    rfl
  · rw [if_neg hxs] at htake
    have hstarts : Starts look (bytes text) xs [] := by
      refine Starts.restrict decided_look (c := r) ?_
      rwa [List.nil_append, ← hb]
    rw [fast, Parser.drain, Parser.nextText, htake]
    simp only [hdone, List.flatMap_cons, List.flatMap_nil, List.append_nil, carried_eq hstarts]

/-- Otherwise the connection ends without a text. -/
theorem fast_of_closed {xs : List (Instruction × Nat)} {r : List UInt8} (h : Starts look b xs r)
    (hstuck : Stuck look r) (hclosed : ¬Open look maxInstructionBytes r) : ∃ e, fast b = ([], .error e) := by
  rw [fast, Parser.drain, Parser.nextText]
  rcases htake : Parser.takeComplete ⟨b⟩ with ⟨e | _ | text, ⟨b'⟩⟩
  · exact ⟨e, rfl⟩
  · have hopen := open_of_takeComplete_none htake
    obtain ⟨-, rfl⟩ := h.unique_stuck hstuck .nil hopen.stuck
    exact absurd hopen hclosed
  · obtain ⟨-, hopen, ys, hys, -⟩ := of_takeComplete htake
    obtain ⟨-, rfl⟩ := h.unique_stuck hstuck hys hopen.stuck
    exact absurd hopen hclosed

/-- The paths agree on a buffer exactly if it starts with no instruction or if instructions are followed by
nothing but a part of one that may still be completed. -/
theorem paths_agree_iff (b : List UInt8) : Agree b ↔
    Stuck look b ∨ ∃ xs r, Starts look b xs r ∧ Open look maxInstructionBytes r := by
  obtain ⟨xs, r, hxs, hstuck, hgot, hend⟩ := plain_outcome b
  obtain ⟨hopen, hok⟩ | ⟨hclosed, e, herror⟩ := hend
  · refine iff_of_true ?_ (.inr ⟨xs, r, hxs, hopen⟩)
    rw [Agree, fast_of_starts hxs hopen, hgot, hok]
    exact ⟨rfl, fun p p' hp hp' => Except.ok.inj (hp.symm.trans hp')⟩
  · obtain ⟨e', hfast⟩ := fast_of_closed hxs hstuck hclosed
    rw [Agree, hfast, hgot]
    constructor
    · rintro ⟨hnone, -⟩
      have hnil : xs = [] := List.map_eq_nil_iff.1 hnone.symm
      subst hnil
      cases hxs
      exact .inl hstuck
    · rintro (hfront | ⟨ys, r', hys, hopen⟩)
      · refine ⟨?_, fun p p' hp => nomatch hp⟩
        cases hxs with
        | nil => rfl
        | cons hlook => exact absurd hlook (hfront _)
      · obtain ⟨-, rfl⟩ := hxs.unique_stuck hstuck hys hopen.stuck
        exact absurd hopen hclosed

/-- `nop` is lost where a byte of garbage came with it. -/
theorem nop_lost : ¬∀ b, Agree b := by
  intro h
  have hnop := (h [51, 46, 110, 111, 112, 59, 120]).1
  revert hnop
  decide

end Gateway
