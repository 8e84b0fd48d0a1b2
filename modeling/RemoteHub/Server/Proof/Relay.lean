import RemoteHub.Gateway.Proof.Framing
import RemoteHub.Server.Relay

/-!
# What of the browser's stream reaches guacd

The relay parses, filters and encodes again. Over every run, whatever the messages hold and however
the stream is cut into them:

* `loop_spec`, `text_spec`: what one message adds to what is forwarded and to what is dropped;
* `holds_of_run`: the two, for a whole run, in terms of the instructions parsed so far (`parsed`)
  and the session's answers (`judge`);
* `relay_filters`: what was sent reads as the instructions that may go on, and as nothing else,
  whoever reads it from its start and in whatever pieces.

A message that turns out malformed ends the relay before anything of it is sent: the instructions in
front of the malformed one are lost with it (`relay_loses_message`).
-/

namespace Server.Relay

open Gateway

/-! ## The verdicts -/

/-- May an instruction go on? Its opcode is allowed and, when it is input, it meets an unlocked
session; `k` questions were asked before. -/
def goes (answers : Nat → Bool) (k : Nat) (i : Instruction) : Bool :=
  allowedFromBrowser i.opcode && (!isInput i.opcode || answers k)

/-- Each instruction with whether it may go on. -/
def judge (answers : Nat → Bool) : Nat → List Instruction → List (Instruction × Bool)
  | _, [] => []
  | k, i :: is =>
    (i, goes answers k i) :: judge answers (if isInput i.opcode then k + 1 else k) is

/-- The instructions that may go on. -/
def forwarded (answers : Nat → Bool) (k : Nat) (is : List Instruction) : List Instruction :=
  ((judge answers k is).filter (·.2)).map (·.1)

/-- How many may not. -/
def withheld (answers : Nat → Bool) (k : Nat) (is : List Instruction) : Nat :=
  (judge answers k is).countP (!·.2)

/-- How many questions are asked about the instructions. -/
def inputs (is : List Instruction) : Nat := is.countP (isInput ·.opcode)

theorem allowed_of_isInput {opcode : String} (h : isInput opcode = true) :
    allowedFromBrowser opcode = true := by
  simp only [isInput, allowedFromBrowser, decide_eq_true_eq, List.mem_cons] at h ⊢
  tauto

theorem inputs_cons (i : Instruction) (is : List Instruction) (k : Nat) :
    (if isInput i.opcode then k + 1 else k) + inputs is = k + inputs (i :: is) := by
  unfold inputs
  rw [List.countP_cons]
  split_ifs <;> omega

theorem judge_append (answers : Nat → Bool) (xs ys : List Instruction) (k : Nat) :
    judge answers k (xs ++ ys) = judge answers k xs ++ judge answers (k + inputs xs) ys := by
  induction xs generalizing k with
  | nil => rfl
  | cons x xs ih => rw [List.cons_append, judge, judge, ih, List.cons_append, inputs_cons]

theorem forwarded_append (answers : Nat → Bool) (xs ys : List Instruction) (k : Nat) :
    forwarded answers k (xs ++ ys) =
      forwarded answers k xs ++ forwarded answers (k + inputs xs) ys := by
  unfold forwarded
  rw [judge_append, List.filter_append, List.map_append]

theorem withheld_append (answers : Nat → Bool) (xs ys : List Instruction) (k : Nat) :
    withheld answers k (xs ++ ys) =
      withheld answers k xs + withheld answers (k + inputs xs) ys := by
  unfold withheld
  rw [judge_append, List.countP_append]

theorem mem_judge {answers : Nat → Bool} {k : Nat} {is : List Instruction} {j : Instruction × Bool}
    (h : j ∈ judge answers k is) : j.1 ∈ is ∧ (j.2 = true → allowedFromBrowser j.1.opcode) := by
  induction is generalizing k with
  | nil => cases h
  | cons i is ih =>
    rcases List.mem_cons.1 h with rfl | h
    · refine ⟨.head _, fun hj => ?_⟩
      exact (Bool.and_eq_true_iff.1 hj).1
    · obtain ⟨hmem, hallowed⟩ := ih h
      exact ⟨.tail _ hmem, hallowed⟩

theorem mem_forwarded {answers : Nat → Bool} {k : Nat} {is : List Instruction} {i : Instruction}
    (h : i ∈ forwarded answers k is) : i ∈ is ∧ allowedFromBrowser i.opcode := by
  obtain ⟨j, hj, rfl⟩ := List.mem_map.1 h
  obtain ⟨hmem, hgo⟩ := List.mem_filter.1 hj
  obtain ⟨h1, h2⟩ := mem_judge hmem
  exact ⟨h1, h2 hgo⟩

/-! ## One message -/

theorem joined_cons (i : Instruction) (is : List Instruction) :
    joined (i :: is) = i.encode ++ joined is := by
  apply bytes_injective
  rw [bytes_append, bytes_joined, bytes_joined, List.flatMap_cons]

/-- The loop's state after an instruction: all four of its branches. -/
def Filter.next (answers : Nat → Bool) (f : Filter) (i : Instruction) (p : Parser) : Filter where
  parser := p
  asked := if isInput i.opcode then f.asked + 1 else f.asked
  dropped := if goes answers f.asked i then f.dropped else f.dropped + 1
  forward := if goes answers f.asked i then f.forward ++ i.encode else f.forward

theorem loop_some {answers : Nat → Bool} {fuel : Nat} {f : Filter} {i : Instruction} {p : Parser}
    (h : f.parser.nextInstruction = .ok (some (i, p))) :
    Filter.loop answers (fuel + 1) f = Filter.loop answers fuel (f.next answers i p) := by
  rw [Filter.loop, h]
  unfold Filter.next goes
  simp only
  by_cases hin : isInput i.opcode
  · cases answers f.asked <;> simp [hin, allowed_of_isInput hin]
  · by_cases hal : allowedFromBrowser i.opcode
    · simp [hin, hal]
    · simp [hin, hal]

/-- What the loop does with the instructions `is` it takes off its parser. -/
structure Filter.Did (answers : Nat → Bool) (f g : Filter) (is : List Instruction) : Prop where
  asked : g.asked = f.asked + inputs is
  dropped : g.dropped = f.dropped + withheld answers f.asked is
  forward : g.forward = f.forward ++ joined (forwarded answers f.asked is)

theorem Filter.Did.nil (answers : Nat → Bool) (f : Filter) : Filter.Did answers f f [] :=
  ⟨rfl, rfl, String.append_empty.symm⟩

theorem Filter.Did.cons {answers : Nat → Bool} {f g : Filter} {i : Instruction} {p : Parser}
    {is : List Instruction} (h : Filter.Did answers (f.next answers i p) g is) :
    Filter.Did answers f g (i :: is) := by
  obtain ⟨ha, hd, hf⟩ := h
  simp only [Filter.next] at ha hd hf
  refine ⟨?_, ?_, ?_⟩
  · rw [ha, inputs_cons]
  · rw [hd]
    unfold withheld
    rw [judge, List.countP_cons]
    cases goes answers f.asked i
    · simp only [Bool.not_false, if_true, Bool.false_eq_true, if_false]
      omega
    · simp
  · rw [hf]
    unfold forwarded
    rw [judge]
    cases goes answers f.asked i
    · simp
    · simp [joined_cons, String.append_assoc]

/-- **The loop over a message** forwards what may go on of the instructions it drains from the
parser, and counts the others. -/
theorem loop_spec (answers : Nat → Bool) (fuel : Nat) (f : Filter) :
    Filter.Did answers f (Filter.loop answers fuel f).1
        (Parser.drain Parser.nextInstruction fuel f.parser).1 ∧
      (∀ p, (Parser.drain Parser.nextInstruction fuel f.parser).2 = .ok p →
        (Filter.loop answers fuel f).2 = true ∧ (Filter.loop answers fuel f).1.parser = p) ∧
      ∀ e, (Parser.drain Parser.nextInstruction fuel f.parser).2 = .error e →
        (Filter.loop answers fuel f).2 = false := by
  induction fuel generalizing f with
  | zero =>
    refine ⟨.nil answers f, ?_, ?_⟩
    · intro p hp
      cases hp
      exact ⟨rfl, rfl⟩
    · intro e he
      cases he
  | succ fuel ih =>
    rcases hnext : f.parser.nextInstruction with e | _ | ⟨i, p⟩
    · simp only [Filter.loop, Parser.drain, hnext]
      refine ⟨.nil answers f, ?_, fun _ _ => trivial⟩
      intro p hp
      cases hp
    · simp only [Filter.loop, Parser.drain, hnext]
      refine ⟨.nil answers f, ?_, ?_⟩
      · intro p hp
        cases hp
        exact ⟨trivial, rfl⟩
      · intro e he
        cases he
    · obtain ⟨hdid, hok, herr⟩ := ih (f.next answers i p)
      rw [loop_some hnext]
      simp only [Parser.drain, hnext]
      exact ⟨hdid.cons, hok, herr⟩

/-! ## A run -/

/-- The texts of the browser among the events. -/
def heard (events : List Event) : List String :=
  events.filterMap fun
    | .socket (some (.text text)) _ => some text
    | _ => none

/-- The instructions the browser's parser yields from the texts, and how it ends. -/
def parsed (texts : List String) : List Instruction × Except GuacError Parser :=
  Parser.feed Parser.nextInstruction {} (texts.map bytes)

theorem feed_concat {α : Type} {take : Parser → Except GuacError (Option (α × Parser))}
    {chunks : List (List UInt8)} {p p' : Parser} (c : List UInt8)
    (h : (Parser.feed take p chunks).2 = .ok p') :
    Parser.feed take p (chunks ++ [c]) =
      ((Parser.feed take p chunks).1 ++
          (Parser.drain take ((p'.push c).buffer.length + 1) (p'.push c)).1,
        (Parser.drain take ((p'.push c).buffer.length + 1) (p'.push c)).2) := by
  induction chunks generalizing p with
  | nil =>
    cases h
    simp only [List.nil_append, Parser.feed]
    rcases Parser.drain take ((p'.push c).buffer.length + 1) (p'.push c) with ⟨xs, e | q⟩
    · rfl
    · simp
  | cons d ds ih =>
    simp only [List.cons_append, Parser.feed] at h ⊢
    rcases hd : Parser.drain take ((p.push d).buffer.length + 1) (p.push d) with ⟨xs, e | q⟩
    · rw [hd] at h
      cases h
    · rw [hd] at h
      simp only at h ⊢
      rw [ih h, List.append_assoc]

/-- What a relay has done when it has heard `texts`: sent what may go on, of all of them or, when the
last is malformed, of those before it. -/
structure Holds (answers : Nat → Bool) (texts : List String) (s : State) : Prop where
  asked : s.asked = inputs (parsed texts).1
  dropped : s.outcome.dropped = withheld answers 0 (parsed texts).1
  ok : ∀ p, (parsed texts).2 = .ok p → s.fromBrowser = p ∧
    String.join s.toGuacd = joined (forwarded answers 0 (parsed texts).1)
  error : ∀ e, (parsed texts).2 = .error e → s.ended = true ∧
    String.join s.toGuacd = joined (forwarded answers 0 (parsed texts.dropLast).1)

theorem joined_append (xs ys : List Instruction) : joined (xs ++ ys) = joined xs ++ joined ys := by
  apply bytes_injective
  rw [bytes_append, bytes_joined, bytes_joined, bytes_joined, List.flatMap_append]

theorem join_concat (ss : List String) (s : String) : String.join (ss ++ [s]) = String.join ss ++ s := by
  apply bytes_injective
  rw [bytes_append, bytes_join, bytes_join, List.flatMap_append]
  simp

/-- **One message**: what a relay does when it hears one more text. -/
theorem text_spec {answers : Nat → Bool} {texts : List String} {s : State} (text : String)
    (sent : Bool) (hended : s.ended = false) (h : Holds answers texts s) :
    Holds answers (texts ++ [text]) (s.text answers text sent) := by
  obtain ⟨p, hp⟩ : ∃ p, (parsed texts).2 = .ok p := by
    rcases hr : (parsed texts).2 with e | p
    · rw [(h.error e hr).1] at hended
      cases hended
    · exact ⟨p, rfl⟩
  obtain ⟨hparser, hsent⟩ := h.ok p hp
  have hfeed : parsed (texts ++ [text]) =
      ((parsed texts).1 ++ (Parser.drain Parser.nextInstruction
          ((p.push (bytes text)).buffer.length + 1) (p.push (bytes text))).1,
        (Parser.drain Parser.nextInstruction
          ((p.push (bytes text)).buffer.length + 1) (p.push (bytes text))).2) := by
    unfold parsed at hp ⊢
    rw [List.map_append, List.map_singleton, feed_concat (bytes text) hp]
  obtain ⟨⟨hasked, hdropped, hforward⟩, hok, herr⟩ := loop_spec answers
    ((p.push (bytes text)).buffer.length + 1)
    ⟨p.push (bytes text), s.asked, s.outcome.dropped, ""⟩
  rcases hdrain : Parser.drain Parser.nextInstruction ((p.push (bytes text)).buffer.length + 1)
    (p.push (bytes text)) with ⟨is, res⟩
  unfold State.text
  rw [hparser]
  rcases hloop : Filter.loop answers ((p.push (bytes text)).buffer.length + 1)
    ⟨p.push (bytes text), s.asked, s.outcome.dropped, ""⟩ with ⟨f, good⟩
  simp only [hloop, hdrain] at hasked hdropped hforward hok herr hfeed ⊢
  have hall := withheld_append answers (parsed texts).1 is 0
  have hcount : inputs ((parsed texts).1 ++ is) = inputs (parsed texts).1 + inputs is :=
    List.countP_append
  rw [Nat.zero_add] at hall
  rw [h.asked] at hasked hdropped hforward
  rw [h.dropped, ← hall] at hdropped
  rw [← hcount] at hasked
  cases res with
  | error e =>
    -- the message is malformed: nothing of it is sent
    rw [herr e rfl]
    refine ⟨by rw [hfeed]; exact hasked, by rw [hfeed]; exact hdropped, ?_, ?_⟩
    · intro q hq
      rw [hfeed] at hq
      cases hq
    · intro e' _
      rw [List.dropLast_concat]
      exact ⟨rfl, hsent⟩
  | ok q =>
    obtain ⟨hgood, hq⟩ := hok q rfl
    rw [hgood]
    refine ⟨by rw [hfeed]; exact hasked, by rw [hfeed]; exact hdropped, ?_, ?_⟩
    · intro q' hq'
      rw [hfeed] at hq'
      cases hq'
      refine ⟨hq, ?_⟩
      rw [hfeed, forwarded_append, Nat.zero_add, joined_append, ← hsent]
      rw [String.empty_append] at hforward
      rw [← hforward]
      simp only
      split_ifs with hempty
      · rw [hempty, String.append_empty]
      · exact join_concat _ _
    · intro e he
      rw [hfeed] at he
      cases he

/-- A round that hears no text leaves alone what the filter works on. -/
theorem step_other {answers : Nat → Bool} {s s' : State} {e : Event}
    (h : s.step answers e = some s') :
    s.ended = false ∧
      ((∃ text sent, e = .socket (some (.text text)) sent ∧ s' = s.text answers text sent) ∨
        (∀ es, heard (es ++ [e]) = heard es) ∧ s'.asked = s.asked ∧
          s'.outcome.dropped = s.outcome.dropped ∧ s'.fromBrowser = s.fromBrowser ∧
          s'.toGuacd = s.toGuacd) := by
  unfold State.step at h
  split_ifs at h with hended
  refine ⟨by simpa using hended, ?_⟩
  rw [Option.some.injEq] at h
  subst h
  have hquiet : ∀ e : Event, (∀ text sent, e ≠ .socket (some (.text text)) sent) →
      ∀ es, heard (es ++ [e]) = heard es := by
    intro e he es
    unfold heard
    rw [List.filterMap_append]
    rcases e with _ | ⟨_ | ⟨text⟩ | _ | _, sent⟩ | _
    all_goals first | exact absurd rfl (he _ _) | simp
  rcases e with (_ | ⟨_ | _ | _ | _⟩) | ⟨_ | ⟨text⟩ | _ | _, sent⟩ | ⟨_ | text, delivered⟩
  all_goals first
    | exact .inl ⟨_, _, rfl, rfl⟩
    | exact .inr ⟨hquiet _ (by simp), rfl, rfl, rfl, rfl⟩

/-- **A whole run** does what the instructions it heard and the session's answers say. -/
theorem holds_of_run {answers : Nat → Bool} {events : List Event} {s : State}
    (h : runFrom answers events = some s) : Holds answers (heard events) s := by
  refine Run.inv_of_run (I := fun es s => Holds answers (heard es) s) ?_ ?_ h
  · refine ⟨rfl, rfl, fun p hp => ?_, fun e he => ?_⟩
    · cases hp
      exact ⟨rfl, rfl⟩
    · cases he
  · intro es t e t' _ hstep ht
    obtain ⟨hended, ⟨text, sent, rfl, rfl⟩ | ⟨hquiet, h1, h2, h3, h4⟩⟩ := step_other hstep
    · have hheard : heard (es ++ [.socket (some (.text text)) sent]) = heard es ++ [text] := by
        simp [heard]
      rw [hheard]
      exact text_spec text sent hended ht
    · rw [hquiet]
      refine ⟨by rw [h1, ht.asked], by rw [h2, ht.dropped], ?_, ?_⟩
      · rw [h3, h4]
        exact ht.ok
      · intro e he
        rw [(ht.error e he).1] at hended
        cases hended

/-! ## What guacd can read -/

theorem drain_wellFormed (fuel : Nat) (p : Parser) :
    ∀ i ∈ (Parser.drain Parser.nextInstruction fuel p).1, i.WellFormed := by
  induction fuel generalizing p with
  | zero => simp [Parser.drain]
  | succ fuel ih =>
    rw [Parser.drain]
    rcases hnext : p.nextInstruction with e | _ | ⟨i, p'⟩
    · simp
    · simp
    · intro j hj
      rcases List.mem_cons.1 hj with rfl | hj
      · exact nextInstruction_wellFormed hnext
      · exact ih p' j hj

theorem parsed_wellFormed (texts : List String) : ∀ i ∈ (parsed texts).1, i.WellFormed := by
  unfold parsed
  generalize ({} : Parser) = p
  induction texts.map bytes generalizing p with
  | nil => simp [Parser.feed]
  | cons c cs ih =>
    rw [Parser.feed]
    have hdrain := drain_wellFormed ((p.push c).buffer.length + 1) (p.push c)
    rcases hd : Parser.drain Parser.nextInstruction ((p.push c).buffer.length + 1) (p.push c) with
      ⟨xs, e | q⟩
    · rw [hd] at hdrain
      exact hdrain
    · rw [hd] at hdrain
      intro i hi
      rcases List.mem_append.1 hi with hi | hi
      · exact hdrain i hi
      · exact ih q i hi

/-- The bytes handed to guacd. -/
def State.sentBytes (s : State) : List UInt8 := bytes (String.join s.toGuacd)

/-- Whoever reads `b` from its start reads `is`, and nothing else: all of them at once; in pieces
the first of them; in pieces and to the end all of them, if they keep to guacd's limit. -/
structure ReadsAs (b : List UInt8) (is : List Instruction) : Prop where
  whole : Parser.feed Parser.nextInstruction {} [b] = (is, .ok {})
  part : ∀ chunks, chunks.flatten <+: b → (Parser.feed Parser.nextInstruction {} chunks).1 <+: is
  pieces : (∀ i ∈ is, i.Fits) → ∀ chunks, chunks.flatten = b →
    Parser.feed Parser.nextInstruction {} chunks = (is, .ok {})

theorem readsAs_joined {is : List Instruction} (h : ∀ i ∈ is, i.WellFormed) :
    ReadsAs (bytes (joined is)) is := by
  rw [bytes_joined]
  refine ⟨?_, ?_, ?_⟩
  · rw [feed_eq]
    simp only [Framing.feed, List.nil_append, Framing.drain_whole decodes_instruction h,
      List.append_nil]
    rfl
  · intro chunks hchunks
    rw [feed_eq]
    exact Framing.feed_prefix decodes_instruction h hchunks
  · intro hfits chunks hchunks
    rw [feed_eq, Framing.feed_quiet decodes_instruction quiet_instruction h
      (fun i hi => ⟨h i hi, hfits i hi⟩) hchunks]
    rfl

/-- **The browser's stream is filtered, not rewritten.** For every run, with `whole` the instructions
parsed from all the messages or, when the last one is malformed, from those before it: guacd reads
from its start exactly the subsequence of `whole` that may go on, whatever the values hold, and no
instruction the browser may not send. `dropped` counts the parsed instructions that may not go on. -/
theorem relay_filters (answers : Nat → Bool) (events : List Event) (s : State)
    (hrun : runFrom answers events = some s) :
    ∃ whole : List Instruction,
      ((∃ p, (parsed (heard events)).2 = .ok p) ∧ whole = (parsed (heard events)).1 ∨
        (∃ e, (parsed (heard events)).2 = .error e) ∧ s.ended = true ∧
          whole = (parsed (heard events).dropLast).1) ∧
      ReadsAs s.sentBytes (forwarded answers 0 whole) ∧
      (∀ chunks, chunks.flatten <+: s.sentBytes →
        ∀ i ∈ (Parser.feed Parser.nextInstruction {} chunks).1, allowedFromBrowser i.opcode) ∧
      s.outcome.dropped = withheld answers 0 (parsed (heard events)).1 := by
  have h := holds_of_run hrun
  have hreads : ∀ texts, String.join s.toGuacd = joined (forwarded answers 0 (parsed texts).1) →
      ReadsAs s.sentBytes (forwarded answers 0 (parsed texts).1) := by
    intro texts hsent
    unfold State.sentBytes
    rw [hsent]
    exact readsAs_joined fun i hi => parsed_wellFormed texts i (mem_forwarded hi).1
  have hallowed : ∀ is, ReadsAs s.sentBytes (forwarded answers 0 is) →
      ∀ chunks, chunks.flatten <+: s.sentBytes →
        ∀ i ∈ (Parser.feed Parser.nextInstruction {} chunks).1, allowedFromBrowser i.opcode := by
    intro is his chunks hchunks i hi
    exact (mem_forwarded ((his.part chunks hchunks).subset hi)).2
  rcases hr : (parsed (heard events)).2 with e | p
  · obtain ⟨hended, hsent⟩ := h.error e hr
    exact ⟨_, .inr ⟨⟨e, rfl⟩, hended, rfl⟩, hreads _ hsent, hallowed _ (hreads _ hsent), h.dropped⟩
  · obtain ⟨-, hsent⟩ := h.ok p hr
    exact ⟨_, .inl ⟨⟨p, rfl⟩, rfl⟩, hreads _ hsent, hallowed _ (hreads _ hsent), h.dropped⟩

/-- A key in two pieces meets a locked session, `argv` is not allowed: `nop` alone goes on. -/
theorem relay_filters_locked :
    ∃ s, runFrom (fun _ => false)
        [.socket (some (.text "3.key,2.65")) true, .guacd (some "4.sync,1.7;") true,
          .socket (some (.text ",1.1;4.argv,1.;;3.n")) true, .socket (some (.text "op;")) true] =
        some s ∧
      ReadsAs s.sentBytes [⟨"nop", []⟩] ∧ s.outcome.dropped = 2 := by
  have hrun : runFrom (fun _ => false)
      [.socket (some (.text "3.key,2.65")) true, .guacd (some "4.sync,1.7;") true,
        .socket (some (.text ",1.1;4.argv,1.;;3.n")) true, .socket (some (.text "op;")) true] =
      some { outcome := { sent := 6, received := 11, dropped := 2 }, asked := 1,
             toGuacd := ["3.nop;"] } := by decide
  obtain ⟨whole, ⟨-, rfl⟩ | ⟨⟨e, he⟩, -⟩, hreads, -, hdropped⟩ := relay_filters _ _ _ hrun
  · refine ⟨_, hrun, ?_, hdropped⟩
    have hgo : forwarded (fun _ => false) 0 (parsed ["3.key,2.65", ",1.1;4.argv,1.;;3.n", "op;"]).1 =
        [⟨"nop", []⟩] := by decide
    rw [← hgo]
    exact hreads
  · have hok : (parsed ["3.key,2.65", ",1.1;4.argv,1.;;3.n", "op;"]).2 = .ok {} := by decide
    rw [show heard _ = ["3.key,2.65", ",1.1;4.argv,1.;;3.n", "op;"] from rfl, hok] at he
    cases he

/-- The instruction in front of a malformed one, in the same message, is neither sent nor counted. -/
theorem relay_loses_message :
    ¬∀ (answers : Nat → Bool) (events : List Event) (s : State),
      runFrom answers events = some s →
        ReadsAs s.sentBytes (forwarded answers 0 (parsed (heard events)).1) ∧
          s.outcome.dropped + (forwarded answers 0 (parsed (heard events)).1).length =
            (parsed (heard events)).1.length := by
  intro h
  have hrun : runFrom (fun _ => true) [.socket (some (.text "3.nop;x")) true] =
      some { fromBrowser := ⟨[120]⟩, ended := true } := by decide
  have hparsed : (parsed ["3.nop;x"]).1 = [⟨"nop", []⟩] := by decide
  have hgo : forwarded (fun _ => true) 0 [⟨"nop", []⟩] = [⟨"nop", []⟩] := by decide
  obtain ⟨hreads, -⟩ := h _ _ _ hrun
  rw [show heard _ = ["3.nop;x"] from rfl, hparsed, hgo] at hreads
  have hnothing : Parser.feed Parser.nextInstruction {} [[]] = ([], .ok {}) := by decide
  cases hnothing.symm.trans hreads.whole

end Server.Relay
