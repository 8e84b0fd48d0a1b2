import RemoteHub.Web.History

/-!
# What an entry's history may take

`popWhile_eq`: the loop keeps the longest run of newest states that is in the budget (`Longest`).
`sealedLength_eq`: what is sealed takes its code units, and what its texts take beyond them in bytes.
-/

namespace Web.Vault

open Stringify

variable {now : JsString} {before next : EntryContent}

/-! ## The loop -/

/-- `n` is the most that `l` may be cut to, so that it is not too large; 0 where there is none. -/
structure Longest {α : Type} (tooLarge : List α → Bool) (l : List α) (n : Nat) : Prop where
  le : n ≤ l.length
  fits : n = 0 ∨ tooLarge (l.take n) = false
  most : ∀ m, n < m → m ≤ l.length → tooLarge (l.take m)

theorem Longest.unique {α : Type} {tooLarge : List α → Bool} {l : List α} {n m : Nat}
    (hn : Longest tooLarge l n) (hm : Longest tooLarge l m) : n = m := by
  rcases Nat.lt_trichotomy n m with h | h | h
  · rcases hm.fits with hzero | hfits
    · omega
    · rw [hn.most m h hm.le] at hfits
      cases hfits
  · exact h
  · rcases hn.fits with hzero | hfits
    · omega
    · rw [hm.most n h hn.le] at hfits
      cases hfits

theorem popWhile_eq {α : Type} (tooLarge : List α → Bool) (l : List α) :
    ∃ n, Longest tooLarge l n ∧ popWhile tooLarge l = l.take n := by
  induction l using popWhile.induct tooLarge with
  | case1 l h ih =>
    obtain ⟨n, hn, hpop⟩ := ih
    have htake {m : Nat} (hm : m ≤ l.length - 1) : l.dropLast.take m = l.take m := by
      rw [List.dropLast_eq_take, List.take_take, Nat.min_eq_left hm]
    have hlength : l.dropLast.length = l.length - 1 := List.length_dropLast
    have hle := hlength ▸ hn.le
    rw [popWhile, if_pos h, hpop, htake hle]
    refine ⟨n, ⟨Nat.le_trans hle (Nat.sub_le _ _), ?_, fun m hm hlast => ?_⟩, rfl⟩
    · rw [← htake hle]
      exact hn.fits
    · by_cases hm' : m = l.length
      · rw [hm', List.take_length]
        exact h.2
      · rw [← htake (by omega)]
        exact hn.most m hm (by omega)
  | case2 l h =>
    rw [popWhile, if_neg h]
    refine ⟨l.length, ⟨Nat.le_refl _, ?_, fun m hm hlast => by omega⟩, List.take_length.symm⟩
    rw [List.take_length, List.length_eq_zero_iff]
    by_cases hl : l = []
    · exact .inl hl
    · exact .inr (Bool.eq_false_iff.2 fun hlarge => h ⟨hl, hlarge⟩)

/-! ## The text of a state -/

theorem mem_keys_of_mem_present {fields : List (JsString × Option Value)} {f : JsString × Value}
    (h : f ∈ present fields) : f.1 ∈ fields.map Prod.fst := by
  obtain ⟨field, hfield, hmap⟩ := List.mem_filterMap.1 h
  obtain ⟨value, -, rfl⟩ := Option.map_eq_some_iff.1 hmap
  exact List.mem_map_of_mem hfield

theorem present_cons (key : JsString) (value : Option Value)
    (fields : List (JsString × Option Value)) :
    present ((key, value) :: fields) =
      (value.map fun v => (key, v)).toList ++ present fields := by
  cases value <;> rfl

theorem present_inj {fs gs : List (JsString × Option Value)}
    (hkeys : fs.map Prod.fst = gs.map Prod.fst) (hnodup : (fs.map Prod.fst).Nodup)
    (h : present fs = present gs) : fs = gs := by
  induction fs generalizing gs with
  | nil => exact (List.map_eq_nil_iff.1 hkeys.symm).symm
  | cons f fs ih =>
    obtain ⟨key, value⟩ := f
    obtain ⟨⟨key', value'⟩, gs, rfl⟩ := List.exists_cons_of_ne_nil (l := gs) (by
      rintro rfl
      cases hkeys)
    obtain ⟨rfl, hkeys'⟩ := List.cons.inj hkeys
    obtain ⟨hnot, hnodup'⟩ := List.nodup_cons.1 hnodup
    have hnot' : key ∉ gs.map Prod.fst := hkeys' ▸ hnot
    rw [present_cons, present_cons] at h
    cases value with
    | none =>
      cases value' with
      | none => rw [ih hkeys' hnodup' h]
      | some v =>
        have hmem : (key, v) ∈ present fs := by
          rw [← List.nil_append (present fs)]
          exact h ▸ List.mem_cons_self
        exact absurd (mem_keys_of_mem_present hmem) hnot
    | some v =>
      cases value' with
      | none =>
        have hmem : (key, v) ∈ present gs := by
          rw [← List.nil_append (present gs)]
          exact h ▸ List.mem_cons_self
        exact absurd (mem_keys_of_mem_present hmem) hnot'
      | some v' =>
        obtain ⟨hv, hrest⟩ := List.cons.inj h
        rw [ih hkeys' hnodup' hrest, (Prod.mk.inj hv).2]

theorem Field.toValue_injective : Function.Injective Field.toValue := by
  rintro ⟨n, v, p⟩ ⟨n', v', p'⟩ h
  simp only [Field.toValue, Value.object.injEq, List.cons.injEq, Prod.mk.injEq, true_and,
    Value.string.injEq, Value.bool.injEq, and_true] at h
  obtain ⟨rfl, rfl, rfl⟩ := h
  rfl

theorem orNull_injective : Function.Injective orNull := by
  intro a b h
  cases a <;> cases b <;> simp_all [orNull]

theorem State.keys_injective : Function.Injective State.keys := by
  intro s t h
  have hstring : Function.Injective Value.string := fun _ _ => Value.string.inj
  have hnumber : Function.Injective Value.number := fun _ _ => Value.number.inj
  have harray {α : Type} {f : α → Value} (hf : Function.Injective f) :
      Function.Injective fun l : List α => Value.array (l.map f) := fun _ _ h =>
    List.map_injective_iff.2 hf (Value.array.inj h)
  simp only [State.keys, List.cons.injEq, Prod.mk.injEq, true_and, and_true, Option.some.injEq,
    Value.string.injEq] at h
  obtain ⟨htitle, husername, hpassword, hurl, hnotes, hfields, hicon, hparent, htotp, htags,
    hexpires⟩ := h
  have hfields := Option.map_injective (harray Field.toValue_injective) hfields
  have hicon := Option.map_injective hnumber hicon
  have hparent := Option.map_injective orNull_injective hparent
  have htotp := Option.map_injective hstring htotp
  have htags := Option.map_injective (harray hstring) htags
  have hexpires := Option.map_injective orNull_injective hexpires
  cases s
  cases t
  simp_all

theorem State.keys_nodup (s : State) : (s.keys.map Prod.fst).Nodup := by
  simp only [State.keys, List.map_cons, List.map_nil]
  decide

/-- A state's text determines the state. -/
theorem State.stringify_inj {s t : State} (h : stringify s.toValue = stringify t.toValue) :
    s = t :=
  State.keys_injective
    (present_inj rfl s.keys_nodup (Value.object.inj (Stringify.stringify_inj h)))

/-! ## The size of what is saved -/

/-- The code units of the JSON of `next` with the history, from those of `next` without one and of
each earlier state: `,"history":[]` are 13. -/
def unitsWith (next : EntryContent) : Option (List EarlierContent) → Nat
  | none => (stringify { next with history := none }.toValue).length
  | some states => (stringify { next with history := none }.toValue).length + 13 +
      (states.map fun state => (stringify state.toValue).length).sum + (states.length - 1)

/-- How many more bytes than code units they take. -/
def wideWith (next : EntryContent) (history : Option (List EarlierContent)) : Nat :=
  { next with history := none }.toValue.wide +
    ((history.getD []).map fun state => state.toValue.wide).sum

theorem present_append (fs gs : List (JsString × Option Value)) :
    present (fs ++ gs) = present fs ++ present gs := List.filterMap_append

/-- Where the history stands among the keys, the first of which may be the title. -/
theorem toValue_history (next : EntryContent) (history : Option (List EarlierContent)) :
    ∃ fs gs, fs ≠ [] ∧ { next with history := none }.toValue = .object (fs ++ gs) ∧
      { next with history := history }.toValue = .object (fs ++ (history.map fun states =>
        (js "history", .array (states.map EarlierContent.toValue))).toList ++ gs) := by
  refine ⟨present ((js "kind", if next.isFolder then some (.string (js "folder")) else none) ::
      next.toState.keys ++ [(js "attachments", next.attachments.map fun files =>
        .array (files.map FileRef.toValue))]),
    present [(js "changed", next.changed.map .string), (js "deleted", next.deleted.map orNull)],
    ?_, ?_, ?_⟩
  · have htitle : (js "title", Value.string next.title) ∈ present next.toState.keys :=
      List.mem_filterMap.2 ⟨(js "title", some (.string next.title)), List.mem_cons_self, rfl⟩
    rw [List.cons_append, ← List.singleton_append, present_append, present_append]
    exact List.ne_nil_of_mem
      (List.mem_append_right _ (List.mem_append_left _ htitle))
  · rw [← present_append]
    simp only [EntryContent.toValue, present_append, present_cons, List.cons_append,
      List.append_assoc]
    rfl
  · simp only [EntryContent.toValue, present_append, present_cons, List.cons_append,
      List.append_assoc]
    cases history <;> rfl

theorem length_withHistory (next : EntryContent) (history : Option (List EarlierContent)) :
    (stringify { next with history := history }.toValue).length = unitsWith next history := by
  cases history with
  | none => rfl
  | some states =>
    obtain ⟨fs, gs, hfs, hnone, hsome⟩ := toValue_history next (some states)
    have hmid : fieldLength (js "history", .array (states.map EarlierContent.toValue)) =
        12 + (states.map fun state => (stringify state.toValue).length).sum +
          (states.length - 1) := by
      have hkey : (quote (js "history")).length = 9 := by decide
      rw [fieldLength, hkey, length_stringify_array, List.map_map, List.length_map]
      simp only [Function.comp_def]
      omega
    rw [unitsWith, hsome, hnone, length_stringify_object (List.append_ne_nil_of_left_ne_nil hfs gs),
      length_stringify_object (List.append_ne_nil_of_left_ne_nil
        (List.append_ne_nil_of_left_ne_nil hfs _) gs)]
    simp only [Option.map_some, Option.toList_some, List.map_append, List.sum_append,
      List.length_append, List.map_cons, List.map_nil, List.sum_cons, List.sum_nil,
      List.length_cons, List.length_nil, hmid]
    omega

theorem wide_withHistory (next : EntryContent) (history : Option (List EarlierContent)) :
    { next with history := history }.toValue.wide = wideWith next history := by
  obtain ⟨fs, gs, -, hnone, hsome⟩ := toValue_history next history
  have hmid : wideFields (history.map fun states =>
      (js "history", Value.array (states.map EarlierContent.toValue))).toList =
        ((history.getD []).map fun state => state.toValue.wide).sum := by
    cases history with
    | none => rfl
    | some states =>
      have hkey : wideText (js "history") = 0 := by decide
      simp only [Option.map_some, Option.toList_some, wideFields, hkey, Value.wide, wideItems_eq,
        List.map_map, Function.comp_def, Option.getD_some]
      omega
  rw [wideWith, hsome, hnone, Value.wide, Value.wide, wideFields_append, wideFields_append,
    wideFields_append, hmid]
  omega

/-- The bytes of what is sealed: its code units, what its texts take beyond, and the tag. -/
theorem sealedLength_eq (next : EntryContent) (history : Option (List EarlierContent)) :
    { next with history := history }.sealedLength =
      unitsWith next history + wideWith next history + 16 := by
  rw [EntryContent.sealedLength, (wide_stringify _).bytes, length_withHistory, wide_withHistory]

theorem overBudget_eq_false {states : List EarlierContent} :
    overBudget next states = false ↔ unitsWith next (some states) ≤ entryBudget := by
  rw [overBudget, length_withHistory, decide_eq_false_iff_not, Nat.not_lt]

theorem sum_map_take_le {α : Type} (f : α → Nat) (l : List α) {m n : Nat} (h : m ≤ n) :
    ((l.take m).map f).sum ≤ ((l.take n).map f).sum := by
  rw [← List.take_append_drop m (l.take n), List.take_take, Nat.min_eq_left h, List.map_append,
    List.sum_append]
  exact Nat.le_add_right _ _

/-- Fewer states take less. -/
theorem unitsWith_take_le (next : EntryContent) (states : List EarlierContent) {m n : Nat}
    (h : m ≤ n) : unitsWith next (some (states.take m)) ≤ unitsWith next (some (states.take n)) := by
  have hsum := sum_map_take_le (fun state => (stringify state.toValue).length) states h
  have hlength : (states.take m).length ≤ (states.take n).length := by
    rw [List.length_take, List.length_take]
    omega
  rw [unitsWith, unitsWith]
  omega

theorem wideWith_take_le (next : EntryContent) (states : List EarlierContent) {m n : Nat}
    (h : m ≤ n) : wideWith next (some (states.take m)) ≤ wideWith next (some (states.take n)) :=
  Nat.add_le_add_left (sum_map_take_le (fun state => state.toValue.wide) states h) _

/-! ## What is saved -/

/-- `result` is `next` with the history it is to have, small enough for the server. -/
structure Keeps (now : JsString) (before next result : EntryContent) : Prop where
  others : { result with history := none } = { next with history := none }
  small : result.sealedLength ≤ maxSealed
  ten : (result.history.getD []).length ≤ maxHistory
  newest : before.toState ≠ next.toState →
    result.history.getD [] <+: earlier now before :: before.history.getD []
  same : before.toState = next.toState → result.history = before.history

/-- The code units of `next` with the history and the bytes its texts take beyond them leave room
for the tag. -/
def Fits (next : EntryContent) (history : Option (List EarlierContent)) : Prop :=
  unitsWith next history + wideWith next history + 16 ≤ maxSealed

/-- Where the state is the same, the old history fits. Else so many newest states as are within the
budget of code units fit in bytes, and so does a history without states. -/
structure Room (now : JsString) (before next : EntryContent) : Prop where
  same : before.toState = next.toState →
    (before.history.getD []).length ≤ maxHistory ∧ Fits next before.history
  changed : before.toState ≠ next.toState → ∀ n ≤ (states now before).length,
    n = 0 ∨ unitsWith next (some ((states now before).take n)) ≤ entryBudget →
      Fits next (some ((states now before).take n))

theorem withHistory_same (h : before.toState = next.toState) :
    withHistory now before next = { next with history := before.history } := by
  rw [withHistory, if_pos (by rw [h])]

theorem withHistory_changed (now : JsString) (h : before.toState ≠ next.toState) :
    ∃ n, Longest (overBudget next) (states now before) n ∧
      withHistory now before next = { next with history := some ((states now before).take n) } := by
  obtain ⟨n, hn, hpop⟩ := popWhile_eq (overBudget next) (states now before)
  refine ⟨n, hn, ?_⟩
  rw [withHistory, if_neg fun heq => h (State.stringify_inj heq), hpop]

/-- What is kept fits exactly when every run of newest states within the budget does. -/
theorem Longest.fits_iff {l : List EarlierContent} {n : Nat} (hn : Longest (overBudget next) l n) :
    Fits next (some (l.take n)) ↔ ∀ m ≤ l.length,
      m = 0 ∨ unitsWith next (some (l.take m)) ≤ entryBudget → Fits next (some (l.take m)) := by
  constructor
  · intro h m hm hfits
    have hle : m ≤ n := by
      by_contra hlt
      rcases hfits with hzero | hunits
      · omega
      · have hover := hn.most m (by omega) hm
        rw [overBudget_eq_false.2 hunits] at hover
        cases hover
    have hunits := unitsWith_take_le next l hle
    have hwide := wideWith_take_le next l hle
    rw [Fits] at h ⊢
    omega
  · intro h
    exact h n hn.le (hn.fits.imp_right overBudget_eq_false.1)

theorem withHistory_iff (now : JsString) (before next : EntryContent) :
    Keeps now before next (withHistory now before next) ↔ Room now before next := by
  by_cases hstate : before.toState = next.toState
  · rw [withHistory_same hstate]
    constructor
    · intro h
      have hsmall := h.small
      rw [sealedLength_eq] at hsmall
      exact ⟨fun _ => ⟨h.ten, hsmall⟩, fun hne => absurd hstate hne⟩
    · intro h
      obtain ⟨hten, hsmall⟩ := h.same hstate
      rw [Fits, ← sealedLength_eq] at hsmall
      exact ⟨rfl, hsmall, hten, fun hne => absurd hstate hne, fun _ => rfl⟩
  · obtain ⟨n, hn, heq⟩ := withHistory_changed now hstate
    rw [heq]
    constructor
    · intro h
      have hsmall := h.small
      rw [sealedLength_eq] at hsmall
      exact ⟨fun hsame => absurd hsame hstate, fun _ => hn.fits_iff.1 hsmall⟩
    · intro h
      have hsmall := hn.fits_iff.2 (h.changed hstate)
      rw [Fits, ← sealedLength_eq] at hsmall
      refine ⟨rfl, hsmall, ?_, fun _ => ?_, fun hsame => absurd hsame hstate⟩
      · change ((states now before).take n).length ≤ maxHistory
        rw [states, List.take_take]
        exact (List.length_take_le _ _).trans (Nat.min_le_right n maxHistory)
      · exact (List.take_prefix _ _).trans (List.take_prefix _ _)

/-- Where all is ASCII, a changed entry keeps its history whenever an empty one fits. -/
theorem room_of_ascii (hstate : before.toState ≠ next.toState)
    (hnext : ∀ u ∈ stringify { next with history := none }.toValue, u < 0x80)
    (hstates : ∀ state ∈ states now before, ∀ u ∈ stringify state.toValue, u < 0x80)
    (hempty : unitsWith next (some []) + 16 ≤ maxSealed) : Room now before next := by
  have hwide {v : Value} (h : ∀ u ∈ stringify v, u < 0x80) : v.wide = 0 := by
    have hbytes := (wide_stringify v).bytes
    rw [(wide_of_ascii h).bytes] at hbytes
    omega
  refine ⟨fun hsame => absurd hsame hstate, fun _ n _ hn => ?_⟩
  have hzero : wideWith next (some ((states now before).take n)) = 0 := by
    rw [wideWith, hwide hnext, Option.getD_some, Nat.zero_add]
    refine List.sum_eq_zero_iff_forall_eq_nat.2 fun k hk => ?_
    obtain ⟨state, hmem, rfl⟩ := List.mem_map.1 hk
    exact hwide (hstates state (List.mem_of_mem_take hmem))
  rw [Fits, hzero]
  rcases hn with rfl | hunits
  · exact hempty
  · rw [entryBudget] at hunits
    rw [maxSealed]
    omega

/-! ## A history that is too large -/

/-- An entry of a title and a password. -/
def plainEntry (title password : JsString) : EntryContent where
  title := title
  username := []
  password := password
  url := []
  notes := []
  fields := none
  icon := none
  parent := none
  totp := none
  tags := none
  expires := none
  isFolder := false
  attachments := none
  history := none
  changed := none
  deleted := none

theorem stringify_plainEntry (password : JsString) :
    stringify (plainEntry (js "b") password).toValue =
      ascii "\x7b\"title\":\"b\",\"username\":\"\",\"password\":" ++
        (quote password ++ ascii ",\"url\":\"\",\"notes\":\"\"\x7d") := rfl

theorem stringify_earlier (password : JsString) :
    stringify (earlier [] (plainEntry (js "a") password)).toValue =
      ascii "\x7b\"title\":\"a\",\"username\":\"\",\"password\":" ++
        (quote password ++ ascii ",\"url\":\"\",\"notes\":\"\",\"at\":\"\"\x7d") := rfl

theorem wide_plainEntry (password : JsString) :
    (plainEntry (js "b") password).toValue.wide = wideText password := by
  change wideFields [(js "title", .string (js "b")), (js "username", .string []),
    (js "password", .string password), (js "url", .string []), (js "notes", .string [])] = _
  have hkeys : wideText (js "title") = 0 ∧ wideText (js "username") = 0 ∧
      wideText (js "password") = 0 ∧ wideText (js "url") = 0 ∧ wideText (js "notes") = 0 ∧
      wideText (js "b") = 0 := by decide
  simp [wideFields, Value.wide, hkeys, wideText]

theorem wide_earlier (password : JsString) :
    (earlier [] (plainEntry (js "a") password)).toValue.wide = wideText password := by
  change wideFields [(js "title", .string (js "a")), (js "username", .string []),
    (js "password", .string password), (js "url", .string []), (js "notes", .string []),
    (js "at", .string [])] = _
  have hkeys : wideText (js "title") = 0 ∧ wideText (js "username") = 0 ∧
      wideText (js "password") = 0 ∧ wideText (js "url") = 0 ∧ wideText (js "notes") = 0 ∧
      wideText (js "at") = 0 ∧ wideText (js "a") = 0 := by decide
  simp [wideFields, Value.wide, hkeys, wideText]

section
variable {password : JsString} (hlength : (quote password).length = 20002)
include hlength

theorem length_plainEntry : (stringify (plainEntry (js "b") password).toValue).length = 20061 := by
  have hbefore : (ascii "\x7b\"title\":\"b\",\"username\":\"\",\"password\":").length = 38 := by
    decide
  have hafter : (ascii ",\"url\":\"\",\"notes\":\"\"\x7d").length = 21 := by decide
  rw [stringify_plainEntry, List.length_append, List.length_append, hlength, hbefore, hafter]

theorem length_earlier :
    (stringify (earlier [] (plainEntry (js "a") password)).toValue).length = 20069 := by
  have hbefore : (ascii "\x7b\"title\":\"a\",\"username\":\"\",\"password\":").length = 38 := by
    decide
  have hafter : (ascii ",\"url\":\"\",\"notes\":\"\",\"at\":\"\"\x7d").length = 29 := by decide
  rw [stringify_earlier, List.length_append, List.length_append, hlength, hbefore, hafter]

variable (hwide : wideText password = 40000)
include hwide

theorem plainEntry_small :
    { plainEntry (js "b") password with history := none }.sealedLength ≤ maxSealed := by
  rw [sealedLength_eq]
  change (stringify (plainEntry (js "b") password).toValue).length +
    ((plainEntry (js "b") password).toValue.wide + 0) + 16 ≤ 65536
  rw [length_plainEntry hlength, wide_plainEntry, hwide]
  decide

theorem not_room_plainEntry :
    ¬Room [] (plainEntry (js "a") password) (plainEntry (js "b") password) := by
  intro h
  have hstate : (plainEntry (js "a") password).toState ≠ (plainEntry (js "b") password).toState := by
    intro heq
    have htitle : js "a" = js "b" := congrArg State.title heq
    exact absurd htitle (by decide)
  have hunits : unitsWith (plainEntry (js "b") password)
      (some [earlier [] (plainEntry (js "a") password)]) = 40143 := by
    change (stringify (plainEntry (js "b") password).toValue).length + 13 +
      ((stringify (earlier [] (plainEntry (js "a") password)).toValue).length + 0) + 0 = 40143
    rw [length_plainEntry hlength, length_earlier hlength]
  have hbeyond : wideWith (plainEntry (js "b") password)
      (some [earlier [] (plainEntry (js "a") password)]) = 80000 := by
    change (plainEntry (js "b") password).toValue.wide +
      ((earlier [] (plainEntry (js "a") password)).toValue.wide + 0) = 80000
    rw [wide_plainEntry, wide_earlier, hwide]
  have hfits : unitsWith (plainEntry (js "b") password)
      (some [earlier [] (plainEntry (js "a") password)]) + wideWith (plainEntry (js "b") password)
        (some [earlier [] (plainEntry (js "a") password)]) + 16 ≤ maxSealed :=
    h.changed hstate 1 (Nat.le_refl 1) (.inr (by
      change unitsWith _ (some [earlier [] (plainEntry (js "a") password)]) ≤ 60000
      rw [hunits]
      decide))
  rw [hunits, hbeyond, maxSealed] at hfits
  omega

end

theorem wideText_replicate (n : Nat) : wideText (.replicate n 0x20ac) = 2 * n := by
  have hhigh : ¬(isHigh 0x20ac ∧ isLow 0x20ac) := by decide
  have hunit : wideUnit 0x20ac = 2 := by decide
  induction n with
  | zero => rfl
  | succ n ih =>
    cases n with
    | zero => exact hunit
    | succ n =>
      rw [List.replicate_succ, List.replicate_succ, wideText, if_neg hhigh, hunit,
        ← List.replicate_succ, ih]
      omega

/-- Two states of 20000 euro signs are in the budget, and take 120000 bytes. -/
theorem history_too_large : ¬∀ (now : JsString) (before next : EntryContent),
    { next with history := none }.sealedLength ≤ maxSealed →
      Keeps now before next (withHistory now before next) := by
  intro h
  have hquote : quote (.replicate 20000 0x20ac) = 0x22 :: .replicate 20000 0x20ac ++ [0x22] := by
    rw [quote, escapes_of_plain]
    intro u hu
    rw [List.eq_of_mem_replicate hu]
    decide
  have hlength : (quote (.replicate 20000 0x20ac)).length = 20002 := by
    rw [hquote, List.length_append, List.length_cons, List.length_replicate]
    rfl
  have hwide := wideText_replicate 20000
  exact not_room_plainEntry hlength hwide
    ((withHistory_iff [] _ _).1 (h [] _ _ (plainEntry_small hlength hwide)))

end Web.Vault
