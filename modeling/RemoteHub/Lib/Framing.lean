import Mathlib.Data.List.Infix

/-!
# Items framed in a stream

`next : List β → Except ε (Option (ι × List β))` takes the first item off a buffer: `none` when the
buffer holds no whole item yet, an error when it cannot start with one. `drain` takes items until
there is no more, `feed` does so after each of the chunks a stream arrives in.

For an encoding `enc` of the items that `next` decodes (`Decodes`), a stream of encoded items gives
back the items, however it is cut:

* `feed_prefix`: never anything but the first items, in order;
* `feed_quiet`: all of them and an empty buffer, where an unfinished item is no error (`Quiet`);
* `drain_whole`: all of them, where the stream arrives at once.
-/

namespace Framing

variable {β ι ε : Type*} (next : List β → Except ε (Option (ι × List β)))

/-- The items taken off the buffer in at most `n` calls, and what is left. -/
def drainN : Nat → List β → List ι × Except ε (List β)
  | 0, b => ([], .ok b)
  | n + 1, b =>
    match next b with
    | .error e => ([], .error e)
    | .ok none => ([], .ok b)
    | .ok (some (x, r)) => (x :: (drainN n r).1, (drainN n r).2)

/-- Items are taken until there is no more: every item is at least one element of the buffer. -/
def drain (b : List β) : List ι × Except ε (List β) := drainN next (b.length + 1) b

/-- The items of a stream that arrives in chunks, drained after each. An error ends it. -/
def feed : List β → List (List β) → List ι × Except ε (List β)
  | b, [] => ([], .ok b)
  | b, c :: cs =>
    match drain next (b ++ c) with
    | (xs, .error e) => (xs, .error e)
    | (xs, .ok b') => (xs ++ (feed b' cs).1, (feed b' cs).2)

/-- `next` decodes `enc` on the items of `P`, and takes nothing for a part of an encoding. -/
structure Decodes (enc : ι → List β) (P : ι → Prop) : Prop where
  empty : next [] = .ok none
  ne_nil : ∀ x, P x → enc x ≠ []
  whole : ∀ x q, P x → next (enc x ++ q) = .ok (some (x, q))
  part : ∀ x p r, P x → enc x = p ++ r → r ≠ [] → ∀ y, next p ≠ .ok (some y)

/-- A part of an encoding is no error. -/
def Quiet (enc : ι → List β) (P : ι → Prop) : Prop :=
  ∀ x p r, P x → enc x = p ++ r → r ≠ [] → next p = .ok none

/-- What a drained buffer is: shorter than the item that comes next. -/
def Short (enc : ι → List β) (b : List β) (xs : List ι) : Prop :=
  ∀ x ∈ xs.head?, b.length < (enc x).length

/-- The error of a part of one of the encodings. -/
def Broken (enc : ι → List β) (xs : List ι) (e : ε) : Prop :=
  ∃ x ∈ xs, ∃ p r, enc x = p ++ r ∧ r ≠ [] ∧ next p = .error e

/-- How reading `xs` may have gone: `ys` are read, and either the rest is still to come or a part of
an item was refused. -/
def Reads (enc : ι → List β) (xs : List ι) (rest : List β) (got : List ι × Except ε (List β)) :
    Prop :=
  ∃ ys zs, xs = ys ++ zs ∧ got.1 = ys ∧
    ((∃ e, got.2 = .error e ∧ Broken next enc xs e) ∨
      ∃ b, got.2 = .ok b ∧ b ++ rest = zs.flatMap enc ∧ Short enc b zs)

variable {next} {enc : ι → List β} {P : ι → Prop}

/-! ## One buffer -/

/-- A buffer at the front of a stream has the first item, or a part of it. -/
theorem front_cases {b r : List β} {x : ι} {xs : List ι} (h : b ++ r = (x :: xs).flatMap enc) :
    (∃ b', b = enc x ++ b' ∧ b' ++ r = xs.flatMap enc) ∨ ∃ p, enc x = b ++ p ∧ p ≠ [] := by
  rw [List.flatMap_cons] at h
  obtain ⟨p, hp, hr⟩ | ⟨b', hb, hr⟩ := List.append_eq_append_iff.1 h
  · by_cases hn : p = []
    · subst hn
      refine .inl ⟨[], ?_, ?_⟩
      · simpa using hp.symm
      · simpa using hr
    · exact .inr ⟨p, hp, hn⟩
  · exact .inl ⟨b', hb, hr.symm⟩

theorem Reads.cons {x : ι} {xs : List ι} {rest : List β} {got : List ι × Except ε (List β)}
    (h : Reads next enc xs rest got) : Reads next enc (x :: xs) rest (x :: got.1, got.2) := by
  obtain ⟨ys, zs, hxs, hg, h⟩ := h
  refine ⟨x :: ys, zs, by rw [hxs, List.cons_append], by rw [hg], h.imp_left ?_⟩
  rintro ⟨e, he, y, hy, hb⟩
  exact ⟨e, he, y, .tail _ hy, hb⟩

theorem drainN_reads (hd : Decodes next enc P) {r : List β} :
    ∀ {n : Nat} {b : List β} {xs : List ι}, (∀ x ∈ xs, P x) → b ++ r = xs.flatMap enc →
      b.length < n → Reads next enc xs r (drainN next n b)
  | 0, _, _, _, _, hn => absurd hn (Nat.not_lt_zero _)
  | n + 1, b, [], _, hb, _ => by
    obtain ⟨hb', -⟩ := List.append_eq_nil_iff.1 (hb.trans List.flatMap_nil)
    subst hb'
    refine ⟨[], [], rfl, ?_, .inr ⟨[], ?_, hb, ?_⟩⟩
    · simp [drainN, hd.empty]
    · simp [drainN, hd.empty]
    · simp [Short]
  | n + 1, b, x :: xs, hP, hb, hn => by
    obtain hPx := hP x (.head _)
    obtain ⟨b', rfl, hb'⟩ | ⟨p, hp, hne⟩ := front_cases hb
    · -- the first item is there: it is taken, and the rest of the buffer is drained
      have hlen : b'.length < n := by
        have := List.length_pos_of_ne_nil (hd.ne_nil x hPx)
        rw [List.length_append] at hn
        omega
      have ih := drainN_reads hd (fun y hy => hP y (.tail _ hy)) hb' hlen
      simp only [drainN, hd.whole x b' hPx]
      exact ih.cons
    · -- only a part of it is: nothing is taken
      have hpart := hd.part x b p hPx hp hne
      cases hb0 : next b with
      | error e =>
        refine ⟨[], x :: xs, rfl, by simp [drainN, hb0], .inl ⟨e, by simp [drainN, hb0], ?_⟩⟩
        exact ⟨x, .head _, b, p, hp, hne, hb0⟩
      | ok o =>
        cases o with
        | some y => exact absurd hb0 (hpart y)
        | none =>
          refine ⟨[], x :: xs, rfl, by simp [drainN, hb0], .inr ⟨b, by simp [drainN, hb0], hb, ?_⟩⟩
          have := List.length_pos_of_ne_nil hne
          intro y hy
          rw [List.head?_cons, Option.mem_some_iff] at hy
          rw [← hy, hp, List.length_append]
          omega

/-- **A whole stream in one buffer gives all its items.** -/
theorem drain_whole (hd : Decodes next enc P) {xs : List ι} (hP : ∀ x ∈ xs, P x) :
    drain next (xs.flatMap enc) = (xs, .ok []) := by
  suffices h : ∀ n, (xs.flatMap enc).length < n →
      drainN next n (xs.flatMap enc) = (xs, .ok []) from h _ (Nat.lt_succ_self _)
  intro n hn
  induction xs generalizing n with
  | nil =>
    obtain ⟨m, rfl⟩ : ∃ m, n = m + 1 := ⟨n - 1, by simp at hn; omega⟩
    simp [drainN, hd.empty]
  | cons x xs ih =>
    obtain ⟨m, rfl⟩ : ∃ m, n = m + 1 := ⟨n - 1, by omega⟩
    have hx := List.length_pos_of_ne_nil (hd.ne_nil x (hP x (.head _)))
    rw [List.flatMap_cons, List.length_append] at hn
    have ih := ih (fun y hy => hP y (.tail _ hy)) m (by omega)
    simp only [List.flatMap_cons, drainN, hd.whole x _ (hP x (.head _)), ih]

/-! ## A stream in chunks -/

theorem feed_reads (hd : Decodes next enc P) {r : List β} :
    ∀ {cs : List (List β)} {b : List β} {xs : List ι}, (∀ x ∈ xs, P x) → Short enc b xs →
      b ++ (cs.flatten ++ r) = xs.flatMap enc → Reads next enc xs r (feed next b cs)
  | [], b, xs, _, hs, hb => ⟨[], xs, rfl, rfl, .inr ⟨b, rfl, by simpa using hb, hs⟩⟩
  | c :: cs, b, xs, hP, _, hb => by
    have hb' : (b ++ c) ++ (cs.flatten ++ r) = xs.flatMap enc := by
      simpa [List.append_assoc] using hb
    obtain ⟨ys, zs, hxs, hg, h⟩ := drainN_reads hd hP hb' (Nat.lt_succ_self _)
    rcases hdr : drain next (b ++ c) with ⟨got, res⟩
    rw [show drainN next _ (b ++ c) = _ from hdr] at hg h
    obtain ⟨e, rfl, hbr⟩ | ⟨b', rfl, hr, hs'⟩ := h
    · refine ⟨ys, zs, hxs, ?_, .inl ⟨e, ?_, hbr⟩⟩
      · simp only [feed, hdr, hg]
      · simp only [feed, hdr]
    · have hPz : ∀ z ∈ zs, P z := by
        intro z hz
        exact hP z (hxs ▸ List.mem_append_right _ hz)
      obtain ⟨us, ws, hzs, hf, h⟩ := feed_reads hd hPz hs' hr
      refine ⟨ys ++ us, ws, by rw [hxs, hzs, List.append_assoc], ?_, ?_⟩
      · simp only at hg
        simp only [feed, hdr, hg, hf]
      · simp only [feed, hdr]
        refine h.imp_left ?_
        rintro ⟨e, he, x, hx, hbr⟩
        exact ⟨e, he, x, hxs ▸ List.mem_append_right _ hx, hbr⟩

theorem short_nil (hd : Decodes next enc P) {xs : List ι} (hP : ∀ x ∈ xs, P x) :
    Short enc [] xs := by
  intro x hx
  exact List.length_pos_of_ne_nil (hd.ne_nil x (hP x (List.mem_of_mem_head? hx)))

/-- When the whole stream is there, a drained buffer is empty. -/
theorem Short.eq_nil {b : List β} {xs : List ι} (hs : Short enc b xs) (hb : b = xs.flatMap enc) :
    xs = [] ∧ b = [] := by
  cases xs with
  | nil => exact ⟨rfl, hb⟩
  | cons x xs =>
    have hx := hs x rfl
    rw [hb, List.flatMap_cons, List.length_append] at hx
    omega

/-- **However a part of a stream arrives, it gives the first items and no others.** -/
theorem feed_prefix (hd : Decodes next enc P) {xs : List ι} (hP : ∀ x ∈ xs, P x)
    {cs : List (List β)} (hcs : cs.flatten <+: xs.flatMap enc) : (feed next [] cs).1 <+: xs := by
  obtain ⟨r, hr⟩ := hcs
  obtain ⟨ys, zs, hxs, hg, -⟩ := feed_reads hd hP (short_nil hd hP) hr
  exact ⟨zs, by rw [hg, hxs]⟩

/-- **However a stream arrives, it gives its items and leaves nothing**, where a part of an item is
no error. -/
theorem feed_quiet {Q : ι → Prop} (hd : Decodes next enc P) (hq : Quiet next enc Q) {xs : List ι}
    (hP : ∀ x ∈ xs, P x) (hQ : ∀ x ∈ xs, Q x) {cs : List (List β)}
    (hcs : cs.flatten = xs.flatMap enc) : feed next [] cs = (xs, .ok []) := by
  have hr : [] ++ (cs.flatten ++ []) = xs.flatMap enc := by simpa using hcs
  obtain ⟨ys, zs, hxs, hg, h⟩ := feed_reads hd hP (short_nil hd hP) hr
  obtain ⟨e, -, x, hx, p, r, hp, hne, he⟩ | ⟨b, hb, hbz, hs⟩ := h
  · rw [hq x p r (hQ x hx) hp hne] at he
    cases he
  · obtain ⟨rfl, rfl⟩ := hs.eq_nil ((List.append_nil b).symm.trans hbz)
    exact Prod.ext (by rw [hg, hxs, List.append_nil]) hb

end Framing
