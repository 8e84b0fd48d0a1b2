import RemoteHub.Lib.Framing

/-!
# What the front of a buffer shows

`look b` says whether `b` starts with an item, and of how many elements, or with something that is none;
`none` as long as that is open. What it has said stays true whatever follows, and an item that is there is
seen (`Decided`). `next` takes items off a buffer this way and refuses one that is still open after more
than `max` elements.

`Starts look s xs r` says that `s` is the items `xs` and then `r`. In one buffer the items are read up to
where there is none (`drain_outcome`). A stream in chunks is read like that too, unless an item is longer
than `max + 1` (`feed_outcome`), and exactly then its cuts do not matter (`cuts_alike_iff`).
-/

namespace Lookahead

open Framing (drainN drain feed)

variable {β ι ε : Type*}

structure Decided (look : List β → Option (Except ε (ι × Nat))) : Prop where
  empty : look [] = none
  append : ∀ {b c r}, look b = some r → look (b ++ c) = some r
  bounds : ∀ {b x n}, look b = some (.ok (x, n)) → 0 < n ∧ n ≤ b.length
  seen : ∀ {b c x n}, look (b ++ c) = some (.ok (x, n)) → n ≤ b.length → look b ≠ none

/-- The first item of the buffer. -/
def next (look : List β → Option (Except ε (ι × Nat))) (max : Nat) (tooLong : ε) (b : List β) :
    Except ε (Option (ι × List β)) :=
  match look b with
  | none => if max < b.length then .error tooLong else .ok none
  | some (.error e) => .error e
  | some (.ok (x, n)) => .ok (some (x, b.drop n))

inductive Starts (look : List β → Option (Except ε (ι × Nat))) : List β → List (ι × Nat) → List β → Prop
  | nil {b : List β} : Starts look b [] b
  | cons {b r : List β} {x : ι} {n : Nat} {xs : List (ι × Nat)} :
    look b = some (.ok (x, n)) → Starts look (b.drop n) xs r → Starts look b ((x, n) :: xs) r

/-- No item is at the front. -/
def Stuck (look : List β → Option (Except ε (ι × Nat))) (b : List β) : Prop :=
  ∀ x, look b ≠ some (.ok x)

/-- The front may still become an item. -/
def Open (look : List β → Option (Except ε (ι × Nat))) (max : Nat) (b : List β) : Prop :=
  look b = none ∧ b.length ≤ max

/-- How reading `s` ends: with all its items, and with what is left of it if that is open. -/
def Outcome (look : List β → Option (Except ε (ι × Nat))) (max : Nat) (s : List β)
    (got : List ι × Except ε (List β)) : Prop :=
  ∃ xs r, Starts look s xs r ∧ Stuck look r ∧ got.1 = xs.map (·.1) ∧
    (Open look max r ∧ got.2 = .ok r ∨ ¬Open look max r ∧ ∃ e, got.2 = .error e)

variable {look : List β → Option (Except ε (ι × Nat))} {m : Nat} {t : ε} {s b c r r' : List β}
  {x : ι} {n : Nat} {xs ys : List (ι × Nat)}

/-! ## Items at the front -/

theorem Starts.append (h : Starts look s xs b) (h' : Starts look b ys r) : Starts look s (xs ++ ys) r := by
  induction h with
  | nil => exact h'
  | cons hlook _ ih => exact .cons hlook (ih h')

theorem Open.stuck (h : Open look m b) : Stuck look b := fun x hx => by
  rw [h.1] at hx
  cases hx

/-- What stands before an item and after it. -/
theorem Starts.split {x : ι × Nat} (h : Starts look s xs r) (hx : x ∈ xs) :
    ∃ pre b, Starts look s pre b ∧ look b = some (.ok x) := by
  induction h with
  | nil => cases hx
  | cons hlook hrest ih =>
    rcases List.mem_cons.1 hx with rfl | hx
    · exact ⟨[], _, .nil, hlook⟩
    · obtain ⟨pre, b, hpre, hb⟩ := ih hx
      exact ⟨_, b, .cons hlook hpre, hb⟩

/-- Items come first in all that is read. -/
theorem Starts.unique (h : Starts look s xs r) (h' : Starts look s ys r') (hr : Stuck look r') :
    ∃ zs, ys = xs ++ zs ∧ Starts look r zs r' := by
  induction h generalizing ys with
  | nil => exact ⟨ys, rfl, h'⟩
  | cons hlook _ ih =>
    cases h' with
    | nil => exact absurd hlook (hr _)
    | cons hlook' hrest' =>
      cases hlook.symm.trans hlook'
      obtain ⟨zs, rfl, hzs⟩ := ih hrest'
      exact ⟨zs, rfl, hzs⟩

theorem Starts.unique_stuck (h : Starts look s xs r) (hr : Stuck look r) (h' : Starts look s ys r')
    (hr' : Stuck look r') : xs = ys ∧ r = r' := by
  obtain ⟨zs, rfl, hzs⟩ := h.unique h' hr'
  cases hzs with
  | nil => exact ⟨(List.append_nil xs).symm, rfl⟩
  | cons hlook => exact absurd hlook (hr _)

theorem Starts.suffix (h : Starts look s xs r) : ∃ p, s = p ++ r := by
  induction h with
  | nil => exact ⟨[], rfl⟩
  | cons hlook _ ih =>
    obtain ⟨p, hp⟩ := ih
    exact ⟨_ ++ p, by rw [List.append_assoc, ← hp, List.take_append_drop]⟩

section
variable (hd : Decided look)
include hd

theorem Starts.extend (h : Starts look s xs r) (c : List β) : Starts look (s ++ c) xs (r ++ c) := by
  induction h with
  | nil => exact .nil
  | cons hlook _ ih =>
    refine .cons (hd.append hlook) ?_
    rw [List.drop_append_of_le_length (hd.bounds hlook).2]
    exact ih

/-- Items that end inside `b` are at its front. -/
theorem Starts.restrict (h : Starts look (b ++ c) xs (r ++ c)) : Starts look b xs r := by
  generalize hs : b ++ c = s at h
  generalize hend : r ++ c = s' at h
  induction h generalizing b with
  | nil =>
    obtain rfl := List.append_cancel_right (hs.trans hend.symm)
    exact .nil
  | @cons s s' x n xs hlook hrest ih =>
    subst hs
    have hn : n ≤ b.length := by
      obtain ⟨p, hp⟩ := hrest.suffix
      have hlength := congrArg List.length hp
      have hbound := (hd.bounds hlook).2
      rw [← hend] at hlength
      simp only [List.length_drop, List.length_append] at hlength hbound
      omega
    have hb : look b = some (.ok (x, n)) := by
      cases hlookb : look b with
      | none => exact absurd hlookb (hd.seen hlook hn)
      | some y => rw [← hd.append hlookb (c := c), hlook]
    exact .cons hb (ih (by rw [List.drop_append_of_le_length hn]) hend)

theorem Starts.eq_nil (h : Starts look s xs s) : xs = [] := by
  cases h with
  | nil => rfl
  | cons hlook hrest =>
    obtain ⟨p, hp⟩ := hrest.suffix
    have hlength := congrArg List.length hp
    have hpos := hd.bounds hlook
    simp only [List.length_drop, List.length_append] at hlength
    omega

/-! ## One buffer -/

theorem drainN_outcome {fuel : Nat} (hfuel : b.length < fuel) :
    Outcome look m b (drainN (next look m t) fuel b) := by
  induction fuel generalizing b with
  | zero => exact absurd hfuel (Nat.not_lt_zero _)
  | succ fuel ih =>
    rw [drainN, next]
    rcases hlook : look b with _ | (e | ⟨x, n⟩)
    · have hstuck : Stuck look b := fun x hx => by rw [hlook] at hx; cases hx
      by_cases hlong : m < b.length
      · simp only [hlong, if_true]
        exact ⟨[], b, .nil, hstuck, rfl, .inr ⟨fun h => by have := h.2; omega, _, rfl⟩⟩
      · simp only [hlong, if_false]
        exact ⟨[], b, .nil, hstuck, rfl, .inl ⟨⟨hlook, by omega⟩, rfl⟩⟩
    · refine ⟨[], b, .nil, fun x hx => ?_, rfl, .inr ⟨fun h => ?_, e, rfl⟩⟩
      · rw [hlook] at hx
        cases hx
      · have hopen := h.1
        rw [hlook] at hopen
        cases hopen
    · obtain ⟨hpos, hle⟩ := hd.bounds hlook
      obtain ⟨xs, r, hxs, hstuck, hgot, hend⟩ := ih (b := b.drop n) (by rw [List.length_drop]; omega)
      exact ⟨(x, n) :: xs, r, .cons hlook hxs, hstuck, congrArg (x :: ·) hgot, hend⟩

theorem drain_outcome (b : List β) : Outcome look m b (drain (next look m t) b) :=
  drainN_outcome hd (Nat.lt_succ_self _)

/-! ## A stream in chunks -/

theorem feed_outcome {cs : List (List β)} (hb : Open look m b)
    (hshort : ∀ xs r, Starts look (b ++ cs.flatten) xs r → ∀ x ∈ xs, x.2 ≤ m + 1) :
    Outcome look m (b ++ cs.flatten) (feed (next look m t) b cs) := by
  induction cs generalizing b with
  | nil =>
    rw [List.flatten_nil, List.append_nil, feed]
    exact ⟨[], b, .nil, hb.stuck, rfl, .inl ⟨hb, rfl⟩⟩
  | cons c cs ih =>
    rw [List.flatten_cons, ← List.append_assoc] at hshort ⊢
    obtain ⟨xs, r, hxs, hstuck, hgot, hend⟩ := drain_outcome hd (m := m) (t := t) (b ++ c)
    have hall := hxs.extend hd cs.flatten
    rcases hdrain : drain (next look m t) (b ++ c) with ⟨got, res⟩
    rw [hdrain] at hgot hend
    rw [feed, hdrain]
    obtain ⟨hopen, rfl⟩ | ⟨hclosed, e, rfl⟩ := hend
    · -- the rest is read with what comes
      obtain ⟨ys, r', hys, hstuck', hgot', hend'⟩ := ih hopen fun ys r' hys y hy =>
        hshort _ _ (hall.append hys) y (List.mem_append_right xs hy)
      refine ⟨xs ++ ys, r', hall.append hys, hstuck', ?_, hend'⟩
      rw [List.map_append, ← hgot']
      exact congrArg (· ++ _) hgot
    · -- nothing that comes makes an item of the rest
      refine ⟨xs, r ++ cs.flatten, hall, fun x hx => ?_, hgot, .inr ⟨fun h => ?_, e, rfl⟩⟩
      · have hlook : look r = none := by
          cases hlook : look r with
          | none => rfl
          | some y => exact absurd ((hd.append hlook).symm.trans hx ▸ hlook) (hstuck x)
        have hlong : m < r.length := by
          by_contra hle
          exact hclosed ⟨hlook, by omega⟩
        have hle := hshort _ _ (hall.append (.cons hx .nil)) x (by simp)
        exact hd.seen hx (by omega) hlook
      · refine hclosed ⟨?_, ?_⟩
        · cases hlook : look r with
          | none => rfl
          | some y =>
            have hopen := h.1
            rw [hd.append hlook] at hopen
            cases hopen
        · have hle := h.2
          rw [List.length_append] at hle
          omega

/-- Two ways of reading gave the same items, and an error both or neither. -/
def Alike (got got' : List ι × Except ε (List β)) : Prop := got.1 = got'.1 ∧ got.2.isOk = got'.2.isOk

omit hd in
theorem Outcome.alike {got got' : List ι × Except ε (List β)} (h : Outcome look m s got)
    (h' : Outcome look m s got') : Alike got got' := by
  obtain ⟨xs, r, hxs, hr, hgot, hend⟩ := h
  obtain ⟨ys, r', hys, hr', hgot', hend'⟩ := h'
  obtain ⟨rfl, rfl⟩ := hxs.unique_stuck hr hys hr'
  refine ⟨hgot.trans hgot'.symm, ?_⟩
  obtain ⟨hopen, hok⟩ | ⟨hclosed, e, herror⟩ := hend <;> obtain ⟨hopen', hok'⟩ | ⟨hclosed', e', herror'⟩ := hend'
  · rw [hok, hok']
  · exact absurd hopen hclosed'
  · exact absurd hopen' hclosed
  · rw [herror, herror']
    rfl

theorem open_nil : Open look m ([] : List β) := ⟨hd.empty, Nat.zero_le _⟩

/-- In one chunk every item is read. -/
theorem feed_singleton (s : List β) : Outcome look m s (feed (next look m t) [] [s]) := by
  have h := drain_outcome hd (m := m) (t := t) s
  rw [feed, List.nil_append]
  rcases hdrain : drain (next look m t) s with ⟨got, e | r⟩
  · rw [hdrain] at h
    exact h
  · rw [hdrain] at h
    simpa [feed] using h

/-- Just short items are read however the stream is cut. -/
theorem cuts_alike_iff : (∀ cs cs' : List (List β), cs.flatten = s → cs'.flatten = s →
      Alike (feed (next look m t) [] cs) (feed (next look m t) [] cs')) ↔
    ∀ xs r, Starts look s xs r → ∀ x ∈ xs, x.2 ≤ m + 1 := by
  constructor
  · intro halike xs r hxs x hx
    by_contra hlong
    -- cut the first long item after `m + 1` elements
    obtain ⟨pre, b, hpre, hlook⟩ := hxs.split hx
    obtain ⟨p, rfl⟩ := hpre.suffix
    obtain ⟨-, hle⟩ := hd.bounds hlook
    have hlength : (b.take (m + 1)).length = m + 1 := by
      rw [List.length_take]
      omega
    have hpart : Starts look (p ++ b.take (m + 1)) pre (b.take (m + 1)) := by
      refine Starts.restrict hd (c := b.drop (m + 1)) ?_
      rwa [List.append_assoc, List.take_append_drop]
    have hstuck : Stuck look (b.take (m + 1)) := by
      intro y hy
      have hsame := hd.append hy (c := b.drop (m + 1))
      rw [List.take_append_drop, hlook] at hsame
      cases hsame
      have := (hd.bounds hy).2
      omega
    have hrefused : (feed (next look m t) [] [p ++ b.take (m + 1), b.drop (m + 1)]).1 =
        pre.map (·.1) := by
      obtain ⟨ys, r', hys, hr', hgot, hend⟩ :=
        drain_outcome hd (m := m) (t := t) (p ++ b.take (m + 1))
      obtain ⟨rfl, rfl⟩ := hpart.unique_stuck hstuck hys hr'
      obtain ⟨hopen, -⟩ | ⟨-, e, herror⟩ := hend
      · have := hopen.2
        omega
      · rw [feed, List.nil_append]
        rcases hdrain : drain (next look m t) (p ++ b.take (m + 1)) with ⟨got, res⟩
        rw [hdrain] at hgot herror
        rw [show res = .error e from herror]
        exact hgot
    obtain ⟨ys, r', hys, hr', hgot, -⟩ := feed_singleton hd (m := m) (t := t) (p ++ b)
    obtain ⟨zs, rfl, -⟩ := (hpre.append (.cons hlook .nil)).unique hys hr'
    have hsame := (halike [p ++ b] [p ++ b.take (m + 1), b.drop (m + 1)] (by simp) (by simp)).1
    have hcount := congrArg List.length (hgot.symm.trans (hsame.trans hrefused))
    simp at hcount
  · intro hshort cs cs' hcs hcs'
    have hread : ∀ cs : List (List β), cs.flatten = s →
        Outcome look m s (feed (next look m t) [] cs) := by
      rintro cs rfl
      exact feed_outcome hd (open_nil hd) hshort
    exact (hread cs hcs).alike (hread cs' hcs')

end

end Lookahead
