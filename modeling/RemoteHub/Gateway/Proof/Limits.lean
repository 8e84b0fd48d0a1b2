import RemoteHub.Gateway.Proof.Paths

/-!
# The limit on instructions

The length of a buffer is only looked at while nothing in it is complete: an instruction that is too long
gets through where its end has come before anyone looked. `limited_iff` says for which streams that
happens, however they are cut.
-/

namespace Gateway

open Lookahead (Starts)

/-! ## The limit -/

section
variable {b : List UInt8} {texts : List String} {got : Except GuacError Parser} {stream : List UInt8}

/-- Instructions that are delivered come first in the buffer. -/
theorem of_drain_nextText {fuel : Nat} (h : Parser.drain Parser.nextText fuel ⟨b⟩ = (texts, got)) :
    (∀ text ∈ texts, ∀ i ∈ carried text, ∃ xs r, Starts look b xs r ∧ i ∈ xs.map (·.1)) ∧
      ∀ b', got = .ok ⟨b'⟩ → ∃ xs, Starts look b xs b' := by
  induction fuel generalizing b texts with
  | zero =>
    cases h
    exact ⟨fun _ h => absurd h List.not_mem_nil, fun b' hb' => by cases hb'; exact ⟨[], .nil⟩⟩
  | succ fuel ih =>
    rw [Parser.drain, Parser.nextText] at h
    rcases htake : Parser.takeComplete ⟨b⟩ with ⟨e | _ | text, ⟨b'⟩⟩
    · rw [htake] at h
      cases h
      exact ⟨fun _ h => absurd h List.not_mem_nil, fun b' hb' => by cases hb'⟩
    · rw [htake] at h
      cases h
      exact ⟨fun _ h => absurd h List.not_mem_nil, fun b' hb' => by cases hb'; exact ⟨[], .nil⟩⟩
    · rw [htake] at h
      obtain ⟨-, -, xs, hxs, htext⟩ := of_takeComplete htake
      rcases hdrain : Parser.drain Parser.nextText fuel ⟨b'⟩ with ⟨texts', got'⟩
      simp only [hdrain] at h
      cases h
      obtain ⟨hcarried, hrest⟩ := ih hdrain
      refine ⟨fun text' htext' i hi => ?_, fun b'' hb'' => ?_⟩
      · rcases List.mem_cons.1 htext' with rfl | htext'
        · exact ⟨xs, b', hxs, carried_eq htext ▸ hi⟩
        · obtain ⟨ys, r, hys, hi⟩ := hcarried text' htext' i hi
          exact ⟨xs ++ ys, r, hxs.append hys, by rw [List.map_append]; exact List.mem_append_right _ hi⟩
      · obtain ⟨ys, hys⟩ := hrest b'' hb''
        exact ⟨xs ++ ys, hxs.append hys⟩

theorem of_feed_nextText {chunks : List (List UInt8)}
    (h : Parser.feed Parser.nextText ⟨b⟩ chunks = (texts, got)) {text : String} (htext : text ∈ texts)
    {i : Instruction} (hi : i ∈ carried text) :
    ∃ xs r, Starts look (b ++ chunks.flatten) xs r ∧ i ∈ xs.map (·.1) := by
  induction chunks generalizing b texts with
  | nil =>
    cases h
    cases htext
  | cons chunk chunks ih =>
    rw [Parser.feed, Parser.push] at h
    rw [List.flatten_cons, ← List.append_assoc]
    rcases hdrain : Parser.drain Parser.nextText ((b ++ chunk).length + 1) ⟨b ++ chunk⟩ with ⟨texts', e | p⟩
    · simp only [hdrain] at h
      cases h
      obtain ⟨xs, r, hxs, hmem⟩ := (of_drain_nextText hdrain).1 text htext i hi
      exact ⟨xs, _, hxs.extend decided_look chunks.flatten, hmem⟩
    · obtain ⟨b'⟩ := p
      obtain ⟨hcarried, hrest⟩ := of_drain_nextText hdrain
      rcases hfeed : Parser.feed Parser.nextText ⟨b'⟩ chunks with ⟨texts'', got'⟩
      simp only [hdrain, hfeed] at h
      cases h
      rcases List.mem_append.1 htext with htext | htext
      · obtain ⟨xs, r, hxs, hmem⟩ := hcarried text htext i hi
        exact ⟨xs, _, hxs.extend decided_look chunks.flatten, hmem⟩
      · obtain ⟨ys, hys⟩ := hrest b' rfl
        obtain ⟨xs, r, hxs, hmem⟩ := ih hfeed htext
        refine ⟨ys ++ xs, r, (hys.extend decided_look chunks.flatten).append hxs, ?_⟩
        rw [List.map_append]
        exact List.mem_append_right _ hmem

/-- No instruction that is too long gets through, and the cuts of the stream do not matter. -/
structure Limited (stream : List UInt8) : Prop where
  yields : ∀ chunks : List (List UInt8), chunks.flatten = stream →
    ∀ i ∈ (Parser.feed Parser.nextInstruction {} chunks).1, i.Fits
  forwards : ∀ chunks : List (List UInt8), chunks.flatten = stream →
    ∀ text ∈ (Parser.feed Parser.nextText {} chunks).1, ∀ i ∈ carried text, i.Fits
  cuts : ∀ chunks chunks' : List (List UInt8), chunks.flatten = stream → chunks'.flatten = stream →
    let got := Parser.feed Parser.nextInstruction {} chunks
    let got' := Parser.feed Parser.nextInstruction {} chunks'
    got.1 = got'.1 ∧ got.2.isOk = got'.2.isOk

/-- The instructions at the front of a stream are within the limit, up to a byte that the check of the buffer
does not see. -/
def Short (stream : List UInt8) : Prop :=
  ∀ xs r, Starts look stream xs r → ∀ x ∈ xs, x.2 ≤ maxInstructionBytes + 1 ∧ x.1.Fits

theorem feed_nextInstruction (chunks : List (List UInt8)) : Parser.feed Parser.nextInstruction {} chunks =
    let got := Framing.feed (Lookahead.next look maxInstructionBytes (.malformed "instruction too long")) [] chunks
    (got.1, got.2.map Parser.mk) := by
  rw [← onBuffer_nextInstruction]
  exact feed_eq Parser.nextInstruction [] chunks

theorem isOk_map (got : Except GuacError (List UInt8)) : (got.map Parser.mk).isOk = got.isOk := by
  cases got <;> rfl

theorem limited_of_short (h : Short stream) : Limited stream where
  yields := by
    rintro chunks rfl i hi
    rw [feed_nextInstruction] at hi
    have hshort : ∀ xs r, Starts look ([] ++ chunks.flatten) xs r → ∀ x ∈ xs, x.2 ≤ maxInstructionBytes + 1 :=
      fun xs r hxs x hx => (h xs r hxs x hx).1
    obtain ⟨xs, r, hxs, -, hgot, -⟩ := Lookahead.feed_outcome (t := GuacError.malformed "instruction too long")
      decided_look (Lookahead.open_nil decided_look) hshort
    rw [show _ = xs.map (·.1) from hgot] at hi
    obtain ⟨x, hx, rfl⟩ := List.mem_map.1 hi
    exact (h xs r hxs x hx).2
  forwards := by
    rintro chunks rfl text htext i hi
    obtain ⟨xs, r, hxs, hmem⟩ := of_feed_nextText (b := []) rfl htext hi
    obtain ⟨x, hx, rfl⟩ := List.mem_map.1 hmem
    exact (h xs r hxs x hx).2
  cuts := by
    intro chunks chunks' hchunks hchunks'
    rw [feed_nextInstruction, feed_nextInstruction]
    dsimp only
    rw [isOk_map, isOk_map]
    exact (Lookahead.cuts_alike_iff decided_look).2 (fun xs r hxs x hx => (h xs r hxs x hx).1) chunks chunks' hchunks
      hchunks'

theorem short_of_limited (h : Limited stream) : Short stream := by
  intro xs r hxs x hx
  constructor
  · refine (Lookahead.cuts_alike_iff (t := GuacError.malformed "instruction too long") decided_look).1
      (fun chunks chunks' hchunks hchunks' => ?_) xs r hxs x hx
    have hcuts := h.cuts chunks chunks' hchunks hchunks'
    rw [feed_nextInstruction, feed_nextInstruction] at hcuts
    dsimp only at hcuts
    rwa [isOk_map, isOk_map] at hcuts
  · refine h.yields [stream] (by simp) x.1 ?_
    rw [feed_nextInstruction]
    obtain ⟨ys, r', hys, hstuck, hgot, -⟩ := Lookahead.feed_singleton (m := maxInstructionBytes)
      (t := GuacError.malformed "instruction too long") decided_look stream
    obtain ⟨zs, rfl, -⟩ := hxs.unique hys hstuck
    rw [show _ = (xs ++ zs).map (·.1) from hgot]
    exact List.mem_map_of_mem (List.mem_append_left _ hx)

/-- The limit holds for a stream, and its cuts do not matter, exactly if its instructions keep to it. -/
theorem limited_iff (stream : List UInt8) : Limited stream ↔ Short stream :=
  ⟨short_of_limited, limited_of_short⟩

/-- An instruction with a value of so many characters. -/
def blob (n : Nat) : Instruction := ⟨"blob", ["0", .ofList (List.replicate n 'a')]⟩

theorem length_bytes_replicate (n : Nat) : (bytes (.ofList (List.replicate n 'a'))).length = n := by
  rw [bytes_eq_flatMap, String.toList_ofList]
  induction n with
  | zero => rfl
  | succ n ih =>
    rw [List.replicate_succ, List.flatMap_cons, List.length_append, ih, Nat.add_comm]
    rfl

theorem blob_wellFormed {n : Nat} (hn : n ≤ 99999) : (blob n).WellFormed := by
  refine ⟨Nat.le_of_ble_eq_true rfl, fun v hv => ?_⟩
  simp only [blob, List.mem_cons, List.not_mem_nil, or_false] at hv
  rcases hv with rfl | rfl | rfl
  · decide
  · decide
  · rwa [← String.length_toList, String.toList_ofList, List.length_replicate]

theorem not_limited_blob {n : Nat} (hlong : maxInstructionBytes < n) (hn : n ≤ 99999) :
    ¬Limited (bytes (blob n).encode) := by
  intro h
  have hnext := nextInstruction_whole (blob_wellFormed hn) []
  rw [List.append_nil] at hnext
  obtain ⟨length, hlook⟩ := look_of_nextInstruction hnext
  have hfits := (short_of_limited h _ _ (.cons hlook .nil) _ List.mem_cons_self).2
  rw [Instruction.Fits, bytes_encode] at hfits
  simp only [blob, List.flatMap_cons, elementBytes, List.length_append, List.length_cons,
    length_bytes_replicate] at hfits
  omega

/-- An instruction of more than 40000 bytes that comes in one piece is yielded. -/
theorem long_blob_yielded : ¬Limited (bytes (blob 40000).encode) :=
  not_limited_blob (by decide) (by decide)

end

end Gateway
