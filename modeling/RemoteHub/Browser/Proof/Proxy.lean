import Mathlib.Data.List.TakeDrop
import RemoteHub.Browser.Proxy
import RemoteHub.Lib.Split

/-!
# Where a session's Chromium gets to

The head is the bytes up to the first empty line, however they were cut into chunks, and the rest goes to the
destination (`readHead_spec`). So a connection leads to the device or to what stands in for it, and it
carries exactly what stands behind the head (`serve_spec`).
-/

namespace Browser.Proxy

open Text

/-! ## Heads -/

/-- The end of a head. -/
def blank : Bytes := [13, 10, 13, 10]

/-- A head: it ends with an empty line, and no shorter beginning of it does. -/
def IsHead (head : Bytes) : Prop :=
  blank <:+ head ∧ ∀ front, front <+: head → blank <:+ front → front = head

theorem headEnd_cons (b : UInt8) (bytes : Bytes) :
    headEnd (b :: bytes) = if blank <+: b :: bytes then some 4 else (headEnd bytes).map (· + 1) := by
  have hiff : [13, 10, 13, 10].isPrefixOf (b :: bytes) = true ↔ blank <+: b :: bytes :=
    List.isPrefixOf_iff_prefix
  rw [headEnd]
  by_cases h : blank <+: b :: bytes
  · rw [if_pos h, if_pos (hiff.2 h)]
  · rw [if_neg h, if_neg fun hp => h (hiff.1 hp)]

theorem headEnd_bounds {bytes : Bytes} {n : Nat} (h : headEnd bytes = some n) :
    4 ≤ n ∧ n ≤ bytes.length := by
  induction bytes generalizing n with
  | nil => cases h
  | cons b bytes ih =>
    rw [headEnd_cons] at h
    split at h
    · rename_i hprefix
      cases h
      exact ⟨Nat.le_refl 4, hprefix.length_le⟩
    · obtain ⟨m, hm, rfl⟩ := Option.map_eq_some_iff.1 h
      have := ih hm
      rw [List.length_cons]
      omega

/-- A head that is whole stays as it is. -/
theorem headEnd_append {bytes : Bytes} (more : Bytes) {n : Nat} (h : headEnd bytes = some n) :
    headEnd (bytes ++ more) = some n := by
  induction bytes generalizing n with
  | nil => cases h
  | cons b bytes ih =>
    have hsome := h
    rw [headEnd_cons] at h
    rw [List.cons_append, headEnd_cons]
    have hiff : blank <+: b :: (bytes ++ more) ↔ blank <+: b :: bytes := by
      constructor
      · intro hlong
        exact List.prefix_of_prefix_length_le hlong (List.prefix_append (b :: bytes) more)
          ((headEnd_bounds hsome).1.trans (headEnd_bounds hsome).2)
      · intro hshort
        exact hshort.trans (List.prefix_append (b :: bytes) more)
    simp only [hiff]
    split at h
    · rename_i hprefix
      rw [if_pos hprefix, ← h]
    · rename_i hprefix
      obtain ⟨m, hm, rfl⟩ := Option.map_eq_some_iff.1 h
      rw [if_neg hprefix, ih hm, Option.map_some]

theorem isHead_blank : IsHead blank :=
  ⟨List.suffix_rfl, fun _ hfront hblank => hfront.eq_of_length
    (Nat.le_antisymm hfront.length_le hblank.length_le)⟩

/-- What does not begin with an empty line is a head if the rest of it is. -/
theorem isHead_cons {b : UInt8} {bytes : Bytes} (h : ¬ blank <+: b :: bytes) :
    IsHead (b :: bytes) ↔ IsHead bytes := by
  have hsuffix {front : Bytes} (hfront : b :: front <+: b :: bytes) :
      blank <:+ b :: front ↔ blank <:+ front := by
    rw [List.suffix_cons_iff]
    exact or_iff_right fun heq => h (heq ▸ hfront)
  constructor
  · rintro ⟨hends, hleast⟩
    refine ⟨(hsuffix (List.prefix_refl _)).1 hends, fun front hfront hblank => ?_⟩
    have hcons : b :: front <+: b :: bytes := (List.prefix_cons_inj b).2 hfront
    exact (List.cons.inj (hleast _ hcons ((hsuffix hcons).2 hblank))).2
  · rintro ⟨hends, hleast⟩
    refine ⟨(hsuffix (List.prefix_refl _)).2 hends, fun front hfront hblank => ?_⟩
    cases front with
    | nil => exact absurd hblank.length_le (by decide)
    | cons c front =>
      obtain ⟨rfl, htail⟩ := List.cons_prefix_cons.1 hfront
      rw [hleast front htail ((hsuffix hfront).1 hblank)]

/-- What is sent has one head. -/
theorem IsHead.eq_of_append {head head' tail tail' : Bytes} (h : IsHead head) (h' : IsHead head')
    (heq : head ++ tail = head' ++ tail') : head = head' := by
  have hprefix : head <+: head' ++ tail' := heq ▸ List.prefix_append head tail
  rcases List.prefix_or_prefix_of_prefix hprefix (List.prefix_append head' tail') with hle | hle
  · exact h'.2 head hle h.1
  · exact (h.2 head' hle h'.1).symm

/-- A head is found where it is. -/
theorem headEnd_of_isHead {head : Bytes} (h : IsHead head) (more : Bytes) :
    headEnd (head ++ more) = some head.length := by
  refine headEnd_append more ?_
  induction head with
  | nil => exact absurd h.1.length_le (by decide)
  | cons b head ih =>
    rw [headEnd_cons]
    by_cases hprefix : blank <+: b :: head
    · rw [if_pos hprefix, ← h.2 blank hprefix List.suffix_rfl]
      rfl
    · rw [if_neg hprefix, ih ((isHead_cons hprefix).1 h)]
      rfl

theorem isHead_of_headEnd {bytes : Bytes} {n : Nat} (h : headEnd bytes = some n) :
    IsHead (bytes.take n) := by
  induction bytes generalizing n with
  | nil => cases h
  | cons b bytes ih =>
    rw [headEnd_cons] at h
    split at h
    · rename_i hprefix
      cases h
      have htake : blank = (b :: bytes).take 4 := List.prefix_iff_eq_take.1 hprefix
      rw [← htake]
      exact isHead_blank
    · rename_i hprefix
      obtain ⟨m, hm, rfl⟩ := Option.map_eq_some_iff.1 h
      rw [List.take_succ_cons]
      refine (isHead_cons fun hp => hprefix (hp.trans ?_)).2 (ih hm)
      exact (List.prefix_cons_inj b).2 (List.take_prefix m bytes)

/-! ## Chunks -/

/-- Chunks as `read` gives them. -/
def Chunks (chunks : List Bytes) : Prop := ∀ chunk ∈ chunks, chunk ≠ [] ∧ chunk.length ≤ chunkSize

/-- What is read as the head is the head of all that is sent, and what is behind it is what follows it. -/
theorem readHead_sound {buffer : Bytes} {chunks : List Bytes} {head rest : Bytes} {left : List Bytes}
    (hchunks : Chunks chunks) (hbuffer : buffer.length ≤ maxHead)
    (h : readHead buffer chunks = some (head, rest, left)) :
    IsHead head ∧ head ++ rest ++ left.flatten = buffer ++ chunks.flatten ∧
      head.length ≤ maxHead + chunkSize := by
  induction chunks generalizing buffer with
  | nil => cases h
  | cons chunk chunks ih =>
    obtain ⟨hne, hsize⟩ := hchunks chunk List.mem_cons_self
    rw [readHead, if_neg hne] at h
    dsimp only at h
    split at h
    · rename_i n hn
      cases h
      have hbounds := (headEnd_bounds hn).2
      rw [List.length_append] at hbounds
      refine ⟨isHead_of_headEnd hn, ?_, ?_⟩
      · rw [List.take_append_drop, List.flatten_cons, List.append_assoc]
      · rw [List.length_take, List.length_append]
        omega
    · rename_i hnone
      split at h
      · cases h
      · rename_i hshort
        have hrest := ih (fun c hc => hchunks c (List.mem_cons_of_mem _ hc)) (Nat.le_of_not_lt hshort) h
        rwa [List.append_assoc buffer, ← List.flatten_cons] at hrest

/-- A head of no more than the longest one is read, however it is cut. -/
theorem readHead_complete {buffer : Bytes} {chunks : List Bytes} {head tail : Bytes}
    (hchunks : Chunks chunks) (hhead : IsHead head) (hlen : head.length ≤ maxHead)
    (hbuffer : buffer.length < head.length) (h : buffer ++ chunks.flatten = head ++ tail) :
    ∃ rest left, readHead buffer chunks = some (head, rest, left) ∧ rest ++ left.flatten = tail := by
  have hend : headEnd (buffer ++ chunks.flatten) = some head.length := by
    rw [h]
    exact headEnd_of_isHead hhead tail
  induction chunks generalizing buffer with
  | nil =>
    have := congrArg List.length h
    simp at this
    omega
  | cons chunk chunks ih =>
    obtain ⟨hne, hsize⟩ := hchunks chunk List.mem_cons_self
    rw [List.flatten_cons, ← List.append_assoc] at h hend
    rw [readHead, if_neg hne]
    dsimp only
    cases hn : headEnd (buffer ++ chunk) with
    | some n =>
      obtain rfl : n = head.length := by
        rw [headEnd_append chunks.flatten hn] at hend
        exact Option.some.inj hend
      have hle := (headEnd_bounds hn).2
      refine ⟨_, chunks, congrArg some (Prod.ext ?_ rfl), ?_⟩
      · have htake := congrArg (List.take head.length) h
        rwa [List.take_append_of_le_length hle, List.take_left] at htake
      · have hdrop := congrArg (List.drop head.length) h
        rwa [List.drop_append_of_le_length hle, List.drop_left] at hdrop
    | none =>
      have hshort : (buffer ++ chunk).length < head.length := by
        by_contra hlong
        have hprefix : head <+: buffer ++ chunk :=
          List.prefix_of_prefix_length_le (h ▸ List.prefix_append head tail)
            (List.prefix_append _ _) (Nat.le_of_not_lt hlong)
        obtain ⟨more, hmore⟩ := hprefix
        rw [← hmore, headEnd_of_isHead hhead] at hn
        cases hn
      dsimp only
      rw [if_neg (by omega)]
      exact ih (fun c hc => hchunks c (List.mem_cons_of_mem _ hc)) hshort h hend

/-! ## Requests -/

variable {lossy : Bytes → String} {connects : String → Bool} {allowed : String} {via : Option String}

/-- The first two words of a head. -/
def Asks (lossy : Bytes → String) (head : Bytes) (method target : String) : Prop :=
  let words := splitWhitespace ((lines (lossy head)).headD "")
  words.headD "" = method ∧ words.tail.headD "" = target

/-- A head asks for a tunnel to the device. -/
def AsksFor (lossy : Bytes → String) (head : Bytes) (allowed target : String) : Prop :=
  Asks lossy head "CONNECT" target ∧ eqIgnoreAsciiCase target allowed = true

theorem answer_eq_tunnel {head rest first : Bytes} {chunks left : List Bytes} {destination : String} :
    answer lossy connects allowed via head rest chunks = .tunnel destination first left ↔
      ∃ target, AsksFor lossy head allowed target ∧ destination = via.getD target ∧
        connects destination = true ∧ first = rest ∧ left = chunks := by
  unfold answer AsksFor Asks
  dsimp only
  constructor
  · intro h
    split at h
    · cases h
    · rename_i hasks
      rw [not_or, not_not, Bool.not_eq_false] at hasks
      split at h
      · rename_i hconnects
        cases h
        exact ⟨_, ⟨⟨hasks.1, rfl⟩, hasks.2⟩, rfl, hconnects, rfl, rfl⟩
      · cases h
  · rintro ⟨target, ⟨⟨hmethod, rfl⟩, hallowed⟩, rfl, hconnects, rfl, rfl⟩
    refine (if_neg ?_).trans (if_pos hconnects)
    rw [not_or, not_not, Bool.not_eq_false]
    exact ⟨hmethod, hallowed⟩

theorem answer_eq_forbidden {head rest : Bytes} {chunks : List Bytes} :
    answer lossy connects allowed via head rest chunks = .forbidden ↔
      ∀ target, ¬ AsksFor lossy head allowed target := by
  unfold answer AsksFor Asks
  dsimp only
  constructor
  · rintro h target ⟨⟨hmethod, rfl⟩, hallowed⟩
    split at h
    · rename_i hneither
      rcases hneither with hother | hother
      · exact hother hmethod
      · exact Bool.false_ne_true (hother.symm.trans hallowed)
    · split at h <;> cases h
  · intro h
    refine if_pos ?_
    by_contra hasks
    rw [not_or, not_not, Bool.not_eq_false] at hasks
    exact h _ ⟨⟨hasks.1, rfl⟩, hasks.2⟩

theorem serve_eq_tunnel {chunks left : List Bytes} {first : Bytes} {destination : String} :
    serve lossy connects allowed via chunks = .tunnel destination first left ↔
      ∃ head rest chunks', readHead [] chunks = some (head, rest, chunks') ∧
        answer lossy connects allowed via head rest chunks' = .tunnel destination first left := by
  unfold serve
  cases h : readHead [] chunks with
  | none => simp
  | some found =>
    obtain ⟨head, rest, chunks'⟩ := found
    simp

/-! ## The device -/

theorem not_isWhitespace {c : Char} (h : c.isAlphanum = true ∨ c ∈ ['.', '-', '_', ':', '[', ']']) :
    isWhitespace c = false := by
  rcases h with h | h
  · rw [isAlphanum_iff] at h
    simp only [isWhitespace, Bool.or_eq_false_iff, Bool.and_eq_false_iff, decide_eq_false_iff_not]
    omega
  · have hall : ∀ d ∈ ['.', '-', '_', ':', '[', ']'], isWhitespace d = false := by decide
    exact hall c h

theorem mem_authority {request : Open} (hvalid : request.validHost = true) {c : Char}
    (h : c ∈ request.authority.toList) : c.isAlphanum = true ∨ c ∈ ['.', '-', '_', ':', '[', ']'] := by
  have hhost : ∀ d ∈ (toAsciiLowercase request.host).toList,
      d.isAlphanum = true ∨ d ∈ ['.', '-', '_', ':', '[', ']'] := by
    intro d hd
    rw [toAsciiLowercase, String.toList_ofList] at hd
    obtain ⟨e, he, rfl⟩ := List.mem_map.1 hd
    have hall := List.all_eq_true.1 (Bool.and_eq_true_iff.1 hvalid).2 e he
    rw [Bool.or_eq_true, decide_eq_true_eq] at hall
    rcases hall with hall | hall
    · exact .inl (by rwa [isAlphanum_toLower])
    · have hsame : ∀ f ∈ ['.', '-', '_', ':'], f.toLower ∈ ['.', '-', '_', ':', '[', ']'] := by decide
      exact .inr (hsame e hall)
  have hport : ∀ d ∈ request.port.toNat.repr.toList, d.isAlphanum = true := by
    intro d hd
    have hmem : d ∈ Nat.toDigits 10 request.port.toNat := by simpa [Nat.repr] using hd
    have hdigit := Nat.isDigit_of_mem_toDigits (by decide) (by decide) hmem
    simp [Char.isAlphanum, hdigit]
  rw [Open.authority] at h
  split at h
  · simp only [String.toList_append, List.mem_append] at h
    rcases h with ((h | h) | h) | h
    · exact .inr (by simp at h; simp [h])
    · exact hhost c h
    · exact .inr (by simp at h; rcases h with h | h <;> simp [h])
    · exact .inl (hport c h)
  · simp only [String.toList_append, List.mem_append] at h
    rcases h with (h | h) | h
    · exact hhost c h
    · exact .inr (by simp at h; simp [h])
    · exact .inl (hport c h)

theorem headD_lines {first more : String} (h : '\n' ∉ first.toList) :
    (lines (first ++ "\n" ++ more)).headD "" = stripCarriageReturn first := by
  have hparts : split '\n' (first ++ "\n" ++ more) = first :: split '\n' more := by
    have htext : (first ++ "\n" ++ more).toList = first.toList ++ '\n' :: more.toList := by
      simp [String.toList_append]
    rw [split, htext, pieces_append_cons h, List.map_cons, List.nil_append, String.ofList_toList, split]
  have hne : split '\n' more ≠ [] := by
    rw [split]
    exact fun hnil => pieces_ne_nil (List.map_eq_nil_iff.1 hnil)
  obtain ⟨part, parts, hmore⟩ := List.exists_cons_of_ne_nil hne
  simp [lines, hparts, hmore]

theorem splitWhitespace_cons {word rest : String} (hword : ∀ c ∈ word.toList, isWhitespace c = false)
    (hne : word ≠ "") : splitWhitespace (word ++ " " ++ rest) = word :: splitWhitespace rest := by
  have htext : (word ++ " " ++ rest).toList = word.toList ++ ' ' :: rest.toList := by
    simp [String.toList_append]
  rw [splitWhitespace, htext, List.splitOnP_append_cons_of_forall_mem hword ' ' (by decide),
    List.filter_cons_of_pos (by simpa using hne), List.map_cons, String.ofList_toList, splitWhitespace]

theorem authority_ne (request : Open) : request.authority ≠ "" := by
  intro h
  have hlength := congrArg String.length h
  rw [Open.authority] at hlength
  split at hlength <;> simp at hlength

/-- Chromium's request for the device asks for it. -/
theorem asksFor_device {request : Open} (hvalid : request.validHost = true)
    (hlossy : ∀ s, lossy (utf8 s) = s) (headers : String) :
    AsksFor lossy (utf8 ("CONNECT " ++ request.authority ++ " HTTP/1.1\r\n" ++ headers)) request.authority
      request.authority := by
  have hplain : ∀ c ∈ request.authority.toList, isWhitespace c = false := fun c hc =>
    not_isWhitespace (mem_authority hvalid hc)
  have hfirst : '\n' ∉ ("CONNECT " ++ request.authority ++ " HTTP/1.1\r").toList := by
    intro hmem
    simp only [String.toList_append, List.mem_append] at hmem
    rcases hmem with (hmem | hmem) | hmem
    · exact absurd hmem (by decide)
    · exact absurd (hplain _ hmem) (by decide)
    · exact absurd hmem (by decide)
  have htext : "CONNECT " ++ request.authority ++ " HTTP/1.1\r\n" ++ headers =
      "CONNECT " ++ request.authority ++ " HTTP/1.1\r" ++ "\n" ++ headers := by
    simp [← String.toList_inj]
  have hstrip : stripCarriageReturn ("CONNECT " ++ request.authority ++ " HTTP/1.1\r") =
      "CONNECT" ++ " " ++ (request.authority ++ " " ++ "HTTP/1.1") := by
    have hreturn (line : String) : stripCarriageReturn (line ++ "\r") = line := by
      simp [stripCarriageReturn, String.toList_append]
    have hsame : "CONNECT " ++ request.authority ++ " HTTP/1.1\r" =
        "CONNECT" ++ " " ++ (request.authority ++ " " ++ "HTTP/1.1") ++ "\r" := by
      simp [← String.toList_inj]
    rw [hsame, hreturn]
  have hwords : splitWhitespace ("CONNECT" ++ " " ++ (request.authority ++ " " ++ "HTTP/1.1")) =
      "CONNECT" :: request.authority :: splitWhitespace "HTTP/1.1" := by
    rw [splitWhitespace_cons (by decide) (by decide), splitWhitespace_cons hplain (authority_ne request)]
  refine ⟨?_, by simp [eqIgnoreAsciiCase]⟩
  rw [Asks, hlossy, htext, headD_lines hfirst, hstrip, hwords]
  exact ⟨rfl, rfl⟩

/-! ## A connection -/

/-- **The only way out.** A tunnel leads to the device, whose authority the client spelt in some case, or to what
stands in for it, and carries exactly what follows the head; anything else that asks with a head gets nowhere.
The way is open for the device: Chromium's request for it is answered with a tunnel however its bytes are cut,
as long as its head is none too long. -/
theorem serve_spec (lossy : Bytes → String) (connects : String → Bool) (allowed : String)
    (via : Option String) (chunks : List Bytes) (hchunks : Chunks chunks) :
    (∀ destination first left, serve lossy connects allowed via chunks = .tunnel destination first left →
      ∃ head target, IsHead head ∧ head.length ≤ maxHead + chunkSize ∧
        head ++ first ++ left.flatten = chunks.flatten ∧ AsksFor lossy head allowed target ∧
        destination = via.getD target) ∧
    (∀ head tail, IsHead head → head.length ≤ maxHead → chunks.flatten = head ++ tail →
      (serve lossy connects allowed via chunks = .forbidden ↔ ∀ target, ¬ AsksFor lossy head allowed target) ∧
      ∀ target, AsksFor lossy head allowed target → connects (via.getD target) = true →
        ∃ first left, serve lossy connects allowed via chunks = .tunnel (via.getD target) first left ∧
          first ++ left.flatten = tail) ∧
    (∀ head tail, IsHead head → chunks.flatten = head ++ tail → (∀ target, ¬ AsksFor lossy head allowed target) →
      serve lossy connects allowed via chunks = .forbidden ∨
        serve lossy connects allowed via chunks = .closed ∧ maxHead < head.length) ∧
    ∀ (request : Open) (headers : String) (tail : Bytes), request.validHost = true →
      (∀ s, lossy (utf8 s) = s) → request.authority = allowed → connects (via.getD allowed) = true →
      let head := utf8 ("CONNECT " ++ request.authority ++ " HTTP/1.1\r\n" ++ headers)
      IsHead head → head.length ≤ maxHead → chunks.flatten = head ++ tail →
      ∃ first left, serve lossy connects allowed via chunks = .tunnel (via.getD allowed) first left ∧
        first ++ left.flatten = tail := by
  have hcomplete : ∀ head tail, IsHead head → head.length ≤ maxHead → chunks.flatten = head ++ tail →
      (serve lossy connects allowed via chunks = .forbidden ↔ ∀ target, ¬ AsksFor lossy head allowed target) ∧
      ∀ target, AsksFor lossy head allowed target → connects (via.getD target) = true →
        ∃ first left, serve lossy connects allowed via chunks = .tunnel (via.getD target) first left ∧
          first ++ left.flatten = tail := by
    intro head tail hhead hlen hflat
    have hpos : ([] : Bytes).length < head.length :=
      Nat.lt_of_lt_of_le (by decide) hhead.1.length_le
    obtain ⟨rest, left, hread, htail⟩ := readHead_complete hchunks hhead hlen hpos hflat
    constructor
    · rw [serve, hread]
      exact answer_eq_forbidden
    · intro target hasks hconnects
      refine ⟨rest, left, ?_, htail⟩
      rw [serve, hread]
      exact answer_eq_tunnel.2 ⟨target, hasks, rfl, hconnects, rfl, rfl⟩
  refine ⟨fun destination first left h => ?_, hcomplete, fun head tail hhead hflat hother => ?_, ?_⟩
  · obtain ⟨head, rest, left', hread, hanswer⟩ := serve_eq_tunnel.1 h
    obtain ⟨target, hasks, hdestination, -, rfl, rfl⟩ := answer_eq_tunnel.1 hanswer
    obtain ⟨hhead, hall, hlen⟩ := readHead_sound hchunks (Nat.zero_le _) hread
    exact ⟨head, target, hhead, hlen, hall, hasks, hdestination⟩
  · by_cases hlen : head.length ≤ maxHead
    · exact .inl ((hcomplete head tail hhead hlen hflat).1.2 hother)
    · cases hread : readHead [] chunks with
      | none => exact .inr ⟨by rw [serve, hread], Nat.lt_of_not_le hlen⟩
      | some found =>
        obtain ⟨head', rest, left⟩ := found
        obtain ⟨hhead', hall, -⟩ := readHead_sound hchunks (Nat.zero_le _) hread
        have hsame : head ++ tail = head' ++ (rest ++ left.flatten) := by
          rw [← hflat, ← List.append_assoc]
          exact hall.symm
        obtain rfl := hhead.eq_of_append hhead' hsame
        refine .inl ?_
        rw [serve, hread]
        exact answer_eq_forbidden.2 hother
  · rintro request headers tail hvalid hlossy rfl hconnects head hhead hlen hflat
    exact (hcomplete head tail hhead hlen hflat).2 _ (asksFor_device hvalid hlossy headers) hconnects

/-- The text of ASCII. -/
def ascii (bytes : Bytes) : String := .ofList (bytes.map fun b => .ofNat b.toNat)

theorem serve_spec_forward :
    ∃ first left, serve ascii (fun _ => true) "site:443" (some "10.0.0.9:40000")
        [utf8 "CONN", utf8 "ECT SITE:443 HTTP/1.1\r\n\r", utf8 "\nhe", utf8 "llo"] =
        .tunnel "10.0.0.9:40000" first left ∧ first ++ left.flatten = utf8 "hello" := by
  have hend : headEnd (utf8 "CONNECT SITE:443 HTTP/1.1\r\n\r\n") = some 29 := by decide
  have htake : (utf8 "CONNECT SITE:443 HTTP/1.1\r\n\r\n").take 29 =
      utf8 "CONNECT SITE:443 HTTP/1.1\r\n\r\n" := by decide
  have hhead : IsHead (utf8 "CONNECT SITE:443 HTTP/1.1\r\n\r\n") := htake ▸ isHead_of_headEnd hend
  have hspec := serve_spec ascii (fun _ => true) "site:443" (some "10.0.0.9:40000")
    [utf8 "CONN", utf8 "ECT SITE:443 HTTP/1.1\r\n\r", utf8 "\nhe", utf8 "llo"]
    (by unfold Chunks; decide)
  exact (hspec.2.1 _ _ hhead (by decide) (by decide)).2 "SITE:443"
    ⟨⟨by decide, by decide⟩, by decide⟩ rfl

end Browser.Proxy
