import RemoteHub.Web.Rank
import Mathlib.Algebra.Field.Rat
import Mathlib.Algebra.Order.Field.Basic
import Mathlib.Algebra.Order.Ring.Rat
import Mathlib.Tactic.Linarith
import Mathlib.Tactic.Positivity

/-!
# What learning keeps

`remember` adds one pick and, where there would be more than `maxPicks`, takes the last one of the order by
what picks are worth. A new pick is the last of all that are worth as much: it is the one that goes unless some
other is worth less than it, which is 1 at its own time (`kept_iff`).
-/

namespace Web.Rank

variable {R : Type} [Field R] [LinearOrder R] {tables : Tables R} {picks : List Pick} {key query : JsString}
  {now : Int}

/-! ## The end of a sorted list -/

section
variable {α : Type} {r : α → α → Prop} [DecidableRel r]

theorem orderedInsert_append_singleton {a b : α} (h : r a b) (l : List α) :
    (l ++ [b]).orderedInsert r a = l.orderedInsert r a ++ [b] := by
  induction l with
  | nil => simp [h]
  | cons c l ih =>
    rw [List.cons_append, List.orderedInsert, List.orderedInsert]
    split
    · rfl
    · rw [ih, List.cons_append]

/-- What nothing has to stand behind stays the last. -/
theorem insertionSort_append_singleton {b : α} {l : List α} (h : ∀ a ∈ l, r a b) :
    (l ++ [b]).insertionSort r = l.insertionSort r ++ [b] := by
  induction l with
  | nil => rfl
  | cons a l ih =>
    rw [List.forall_mem_cons] at h
    rw [List.cons_append, List.insertionSort_cons, List.insertionSort_cons, ih h.2,
      orderedInsert_append_singleton h.1]

end

/-! ## What is kept -/

/-- What a pick is of. -/
def Pick.of (pick : Pick) : JsString × JsString := (pick.key, pick.query)

/-- The pick just made is kept, counted once more, and no other changes; one that is worth least among
them goes if there would be more than `maxPicks`. -/
structure Kept (tables : Tables R) (picks : List Pick) (key query : JsString) (now : Int) (out : List Pick) :
    Prop where
  length_le : out.length ≤ maxPicks
  nodup : (out.map Pick.of).Nodup
  made : ∃ pick ∈ out, pick.of = (key, queryKey tables query) ∧ pick.last = now ∧
    pick.count = ((picks.find? (·.of = (key, queryKey tables query))).map (·.count)).getD 0 + 1
  unchanged : ∀ pick ∈ out, pick.of ≠ (key, queryKey tables query) → pick ∈ picks
  all : picks.length < maxPicks ∨ (key, queryKey tables query) ∈ picks.map Pick.of →
    ∀ pick ∈ picks, pick.of ≠ (key, queryKey tables query) → pick ∈ out
  one : maxPicks ≤ picks.length → (key, queryKey tables query) ∉ picks.map Pick.of →
    ∃ gone ∈ picks, gone ∉ out ∧ (∀ pick ∈ picks, pick ≠ gone → pick ∈ out) ∧
      ∀ pick ∈ picks, worth tables now gone ≤ worth tables now pick

/-- Whether the pick is one of those kept. -/
abbrev Known (tables : Tables R) (picks : List Pick) (key query : JsString) : Prop :=
  (key, queryKey tables query) ∈ picks.map Pick.of

theorem of_eq_iff {pick : Pick} {normalized : JsString} :
    pick.of = (key, normalized) ↔ pick.key = key ∧ pick.query = normalized := Prod.ext_iff

theorem exists_findIdx {α : Type} {p : α → Bool} {l : List α} (h : ∃ x ∈ l, p x = true) (g : α → α) :
    ∃ before x after i, l = before ++ x :: after ∧ p x = true ∧ l.findIdx? p = some i ∧
      l.modify i g = before ++ g x :: after := by
  induction l with
  | nil =>
    obtain ⟨x, hx, -⟩ := h
    cases hx
  | cons a l ih =>
    cases ha : p a with
    | true => exact ⟨[], a, l, 0, rfl, ha, by rw [List.findIdx?_cons, ha]; rfl, rfl⟩
    | false =>
      have htail : ∃ x ∈ l, p x = true := by
        obtain ⟨x, hx, hpx⟩ := h
        rcases List.mem_cons.1 hx with rfl | hx
        · rw [ha] at hpx
          cases hpx
        · exact ⟨x, hx, hpx⟩
      obtain ⟨before, x, after, i, rfl, hpx, hfind, hmodify⟩ := ih htail
      refine ⟨a :: before, x, after, i + 1, rfl, hpx, ?_, ?_⟩
      · rw [List.findIdx?_cons, ha, hfind]
        rfl
      · rw [List.modify_succ_cons, hmodify, List.cons_append]

/-- A pick made before is counted once more, where it stands. -/
theorem remember_of_known (now : Int) (h : Known tables picks key query) (hlen : picks.length ≤ maxPicks) :
    ∃ before pick after, picks = before ++ pick :: after ∧ pick.of = (key, queryKey tables query) ∧
      remember tables picks key query now = before ++ { pick with count := pick.count + 1, last := now } :: after := by
  obtain ⟨known, hknown, hof⟩ := List.mem_map.1 h
  obtain ⟨before, pick, after, i, hpicks, hpick, hfind, hmodify⟩ := exists_findIdx
    (p := fun pick => pick.key = key ∧ pick.query = queryKey tables query)
    ⟨known, hknown, decide_eq_true (of_eq_iff.1 hof)⟩ fun pick => { pick with count := pick.count + 1, last := now }
  refine ⟨before, pick, after, hpicks, of_eq_iff.2 (of_decide_eq_true hpick), ?_⟩
  unfold remember
  dsimp only
  rw [hfind]
  dsimp only
  rw [List.length_modify, if_pos hlen, hmodify]

/-- The pick that is new. -/
def newPick (tables : Tables R) (key query : JsString) (now : Int) : Pick := ⟨key, queryKey tables query, 1, now⟩

omit [LinearOrder R] in
/-- A new pick is worth 1. -/
theorem worth_newPick (hdecay : tables.decay 0 = 1) : worth tables now (newPick tables key query now) = 1 := by
  rw [worth, newPick, sub_self, hdecay, mul_one, Nat.cast_one]

theorem remember_of_new (h : ¬Known tables picks key query) : remember tables picks key query now =
    if (picks ++ [newPick tables key query now]).length ≤ maxPicks then picks ++ [newPick tables key query now]
    else ((picks ++ [newPick tables key query now]).insertionSort
      fun a b => worth tables now b ≤ worth tables now a).take maxPicks := by
  have hnone : picks.findIdx? (fun pick => pick.key = key ∧ pick.query = queryKey tables query) = none := by
    rw [List.findIdx?_eq_none_iff]
    exact fun pick hpick => decide_eq_false fun hof => h (List.mem_map.2 ⟨pick, hpick, of_eq_iff.2 hof⟩)
  unfold remember
  dsimp only
  rw [hnone]
  rfl

theorem kept_of_known (h : Known tables picks key query) (hlen : picks.length ≤ maxPicks)
    (hnodup : (picks.map Pick.of).Nodup) : Kept tables picks key query now (remember tables picks key query now) := by
  obtain ⟨before, pick, after, rfl, hof, hremember⟩ := remember_of_known now h hlen
  rw [hremember]
  have hother : ∀ p ∈ before ++ after, p.of ≠ pick.of := by
    intro p hp heq
    rw [List.map_append, List.map_cons, List.nodup_middle, List.nodup_cons, ← List.map_append] at hnodup
    exact hnodup.1 (heq ▸ List.mem_map_of_mem hp)
  have hfind : (before ++ pick :: after).find? (·.of = (key, queryKey tables query)) = some pick := by
    have hbefore : before.find? (·.of = (key, queryKey tables query)) = none := by
      rw [List.find?_eq_none]
      intro p hp
      simpa [← hof] using hother p (List.mem_append_left _ hp)
    rw [List.find?_append, hbefore, Option.none_or, List.find?_cons_of_pos (by simpa using hof)]
  refine ⟨?_, ?_, ⟨_, List.mem_append_right _ List.mem_cons_self, hof, rfl, ?_⟩, fun p hp hne => ?_,
    fun _ p hp hne => ?_, fun _ hnew => absurd h hnew⟩
  · simpa using hlen
  · simpa [Pick.of] using hnodup
  · rw [hfind]
    rfl
  · rcases List.mem_append.1 hp with hp | hp
    · exact List.mem_append_left _ hp
    · rcases List.mem_cons.1 hp with rfl | hp
      · exact absurd hof hne
      · exact List.mem_append_right _ (List.mem_cons_of_mem _ hp)
  · rcases List.mem_append.1 hp with hp | hp
    · exact List.mem_append_left _ hp
    · rcases List.mem_cons.1 hp with rfl | hp
      · exact absurd hof hne
      · exact List.mem_append_right _ (List.mem_cons_of_mem _ hp)

section
variable (hnew : ¬Known tables picks key query)
include hnew

omit [Field R] [LinearOrder R] in
theorem nodup_append_new (now : Int) (hnodup : (picks.map Pick.of).Nodup) :
    ((picks ++ [newPick tables key query now]).map Pick.of).Nodup := by
  rw [List.map_append, List.nodup_append]
  refine ⟨hnodup, List.nodup_singleton _, ?_⟩
  rintro k hk _ hk' rfl
  rw [List.map_singleton, List.mem_singleton] at hk'
  rw [hk'] at hk
  exact hnew hk

omit [Field R] [LinearOrder R] in
theorem find_new : picks.find? (·.of = (key, queryKey tables query)) = none := by
  rw [List.find?_eq_none]
  exact fun pick hpick hof => hnew (List.mem_map.2 ⟨pick, hpick, by simpa using hof⟩)

/-- Where there is room, a new pick is put at the end. -/
theorem kept_of_room (hroom : picks.length < maxPicks) (hnodup : (picks.map Pick.of).Nodup) :
    Kept tables picks key query now (remember tables picks key query now) := by
  have hlen : (picks ++ [newPick tables key query now]).length ≤ maxPicks := by
    rw [List.length_append, List.length_singleton]
    omega
  rw [remember_of_new hnew, if_pos hlen]
  refine ⟨hlen, nodup_append_new hnew now hnodup, ⟨newPick tables key query now, by simp, rfl, rfl, ?_⟩,
    fun pick hpick hne => ?_, fun _ pick hpick _ => List.mem_append_left _ hpick, fun hfull => ?_⟩
  · rw [find_new hnew]
    rfl
  · rcases List.mem_append.1 hpick with hpick | hpick
    · exact hpick
    · rw [List.mem_singleton.1 hpick] at hne
      exact absurd rfl hne
  · omega

/-- **The new pick goes, if no other is worth less than it.** -/
theorem notMem_remember (hdecay : tables.decay 0 = 1) (hfull : picks.length = maxPicks)
    (hworth : ∀ pick ∈ picks, 1 ≤ worth tables now pick) :
    ∀ pick ∈ remember tables picks key query now, pick.of ≠ (key, queryKey tables query) := by
  have hlong : ¬(picks ++ [newPick tables key query now]).length ≤ maxPicks := by
    rw [List.length_append, List.length_singleton]
    omega
  rw [remember_of_new hnew, if_neg hlong, insertionSort_append_singleton fun pick hpick => by
    rw [worth_newPick hdecay]
    exact hworth pick hpick]
  rw [List.take_left' (by rw [List.length_insertionSort, hfull])]
  intro pick hpick hof
  exact hnew (List.mem_map.2 ⟨pick, (List.mem_insertionSort _).1 hpick, hof⟩)

/-- **Else the one that is worth least goes.** -/
theorem kept_of_less (hdecay : tables.decay 0 = 1) (hfull : picks.length = maxPicks)
    (hnodup : (picks.map Pick.of).Nodup) {less : Pick} (hless : less ∈ picks) (hworth : worth tables now less < 1) :
    Kept tables picks key query now (remember tables picks key query now) := by
  have hlong : ¬(picks ++ [newPick tables key query now]).length ≤ maxPicks := by
    rw [List.length_append, List.length_singleton]
    omega
  rw [remember_of_new hnew, if_neg hlong]
  have hperm := List.perm_insertionSort (fun a b => worth tables now b ≤ worth tables now a)
    (picks ++ [newPick tables key query now])
  have hsorted : ((picks ++ [newPick tables key query now]).insertionSort
      fun a b => worth tables now b ≤ worth tables now a).Pairwise
        fun a b => worth tables now b ≤ worth tables now a := by
    have htotal : Std.Total fun a b : Pick => worth tables now b ≤ worth tables now a := ⟨fun a b => le_total _ _⟩
    have htrans : IsTrans Pick fun a b => worth tables now b ≤ worth tables now a :=
      ⟨fun _ _ _ hab hbc => le_trans hbc hab⟩
    exact List.pairwise_insertionSort _ _
  generalize (picks ++ [newPick tables key query now]).insertionSort
    (fun a b => worth tables now b ≤ worth tables now a) = sorted at hperm hsorted
  have hlength := hperm.length_eq
  rw [List.length_append, List.length_singleton, hfull] at hlength
  obtain ⟨out, gone, rfl⟩ : ∃ out gone, sorted = out ++ [gone] := by
    rcases List.eq_nil_or_concat sorted with rfl | ⟨out, gone, rfl⟩
    · cases hlength
    · exact ⟨out, gone, List.concat_eq_append⟩
  rw [List.length_append, List.length_singleton, Nat.add_right_cancel_iff] at hlength
  rw [List.take_left' hlength]
  have hleast : ∀ pick ∈ out, worth tables now gone ≤ worth tables now pick := fun pick hpick =>
    (List.pairwise_append.1 hsorted).2.2 pick hpick gone (List.mem_singleton.2 rfl)
  have hkeys := (hperm.map Pick.of).nodup_iff.2 (nodup_append_new hnew now hnodup)
  rw [List.map_append, List.map_singleton, List.nodup_append] at hkeys
  have hmem : ∀ pick, pick ∈ out ++ [gone] ↔ pick ∈ picks ++ [newPick tables key query now] :=
    fun pick => hperm.mem_iff
  have hgone : gone ≠ newPick tables key query now := by
    rintro rfl
    have hin : less ∈ out := by
      refine (List.mem_append.1 ((hmem less).2 (List.mem_append_left _ hless))).resolve_right fun heq => ?_
      rw [List.mem_singleton.1 heq] at hless
      exact hnew (List.mem_map_of_mem hless)
    have hle := hleast less hin
    rw [worth_newPick hdecay] at hle
    exact absurd hworth (not_lt.2 hle)
  have hgonein : gone ∈ picks := by
    refine (List.mem_append.1 ((hmem gone).1 (by simp))).resolve_right fun heq => hgone (List.mem_singleton.1 heq)
  have hmade : newPick tables key query now ∈ out := by
    refine (List.mem_append.1 ((hmem _).2 (by simp))).resolve_right fun heq => hgone (List.mem_singleton.1 heq).symm
  refine ⟨hlength.le, hkeys.1, ⟨_, hmade, rfl, rfl, ?_⟩, fun pick hpick hne => ?_, fun hroom => ?_,
    fun _ _ => ⟨gone, hgonein, fun hin => ?_, fun pick hpick hne => ?_, fun pick hpick => ?_⟩⟩
  · rw [find_new hnew]
    rfl
  · rcases List.mem_append.1 ((hmem pick).1 (List.mem_append_left _ hpick)) with hpick | hpick
    · exact hpick
    · rw [List.mem_singleton.1 hpick] at hne
      exact absurd rfl hne
  · exact absurd hroom (not_or.2 ⟨by omega, hnew⟩)
  · exact hkeys.2.2 _ (List.mem_map_of_mem hin) _ (List.mem_singleton.2 rfl) rfl
  · exact (List.mem_append.1 ((hmem pick).2 (List.mem_append_left _ hpick))).resolve_right fun heq =>
      hne (List.mem_singleton.1 heq)
  · rcases List.mem_append.1 ((hmem pick).2 (List.mem_append_left _ hpick)) with hin | heq
    · exact hleast pick hin
    · rw [List.mem_singleton.1 heq]

end

/-- **When the latest choice is kept.** As long as there is room or the pick is known, and else exactly if
some other is worth less than the new one. -/
theorem kept_iff (hdecay : tables.decay 0 = 1) (hlen : picks.length ≤ maxPicks) (hnodup : (picks.map Pick.of).Nodup) :
    Kept tables picks key query now (remember tables picks key query now) ↔
      picks.length < maxPicks ∨ (key, queryKey tables query) ∈ picks.map Pick.of ∨
        ∃ pick ∈ picks, worth tables now pick < 1 := by
  constructor
  · intro h
    by_contra hnot
    rw [not_or, not_or, not_exists] at hnot
    obtain ⟨pick, hpick, hof, -⟩ := h.made
    exact notMem_remember hnot.2.1 hdecay (by omega)
      (fun pick hpick => not_lt.1 fun hlt => hnot.2.2 pick ⟨hpick, hlt⟩) pick hpick hof
  · rintro (hroom | hknown | ⟨less, hless, hworth⟩)
    · by_cases hknown : Known tables picks key query
      · exact kept_of_known hknown hlen hnodup
      · exact kept_of_room hknown hroom hnodup
    · exact kept_of_known hknown hlen hnodup
    · by_cases hknown : Known tables picks key query
      · exact kept_of_known hknown hlen hnodup
      · by_cases hroom : picks.length < maxPicks
        · exact kept_of_room hknown hroom hnodup
        · exact kept_of_less hknown hdecay (by omega) hnodup hless hworth

/-! ## A full list -/

/-- What the examples take for the browser's tables. -/
def plainTables : Tables Rat where
  normalize := id
  isWord _ := true
  compare _ _ := .eq
  log2 := id
  decay age := if age ≤ 0 then 1 - age else 1 / (1 + age)

theorem plainTables_pos (age : Int) : 0 < plainTables.decay age := by
  rw [plainTables]
  dsimp only
  split
  · have h : (age : Rat) ≤ 0 := by exact_mod_cast ‹age ≤ 0›
    linarith
  · have h : (0 : Rat) < age := by exact_mod_cast not_le.1 ‹¬age ≤ 0›
    positivity

theorem plainTables_lt (age age' : Int) (h : age < age') : plainTables.decay age' < plainTables.decay age := by
  have hcast : (age : Rat) < age' := by exact_mod_cast h
  rw [plainTables]
  dsimp only
  split
  · rw [if_pos (by omega)]
    linarith
  · have hpos : (0 : Rat) < age' := by exact_mod_cast not_le.1 ‹¬age' ≤ 0›
    split
    · have hle : (age : Rat) ≤ 0 := by exact_mod_cast ‹age ≤ 0›
      have hone : 1 / (1 + (age' : Rat)) < 1 := by
        rw [div_lt_one (by linarith)]
        linarith
      linarith
    · have hpos' : (0 : Rat) < age := by exact_mod_cast not_le.1 ‹¬age ≤ 0›
      exact one_div_lt_one_div_of_lt (by linarith) (by linarith)

/-- As many picks as are kept, each made twice just now. -/
def fullPicks : List Pick := (List.range maxPicks).map fun n => ⟨[.ofNat n], [], 2, 0⟩

theorem nodup_fullPicks : (fullPicks.map Pick.of).Nodup := by
  rw [fullPicks, List.map_map]
  refine List.nodup_range.map_on fun m hm n hn heq => ?_
  have hm := List.mem_range.1 hm
  have hn := List.mem_range.1 hn
  have hkey : [UInt16.ofNat m] = [UInt16.ofNat n] := (Prod.mk.inj heq).1
  have hnum := congrArg UInt16.toNat (List.cons.inj hkey).1
  rw [UInt16.toNat_ofNat', UInt16.toNat_ofNat'] at hnum
  have hmax : maxPicks = 300 := rfl
  omega

theorem length_fullPicks : fullPicks.length = maxPicks := by rw [fullPicks, List.length_map, List.length_range]

/-- The picks but one, which was made once a while ago: the new one takes its place. -/
theorem kept_iff_full : Kept plainTables (⟨js "old", [], 1, -1⟩ :: fullPicks.tail) (js "a") (js "dc") 0
    (remember plainTables (⟨js "old", [], 1, -1⟩ :: fullPicks.tail) (js "a") (js "dc") 0) := by
  have hlength : (⟨js "old", [], 1, -1⟩ :: fullPicks.tail).length = maxPicks := by
    rw [List.length_cons, List.length_tail, length_fullPicks]
    rfl
  have hnodup : ((⟨js "old", [], 1, -1⟩ :: fullPicks.tail).map Pick.of).Nodup := by
    rw [List.map_cons, List.nodup_cons, List.map_tail]
    refine ⟨fun hmem => ?_, nodup_fullPicks.tail⟩
    obtain ⟨pick, hpick, hof⟩ := List.mem_map.1 (List.mem_of_mem_tail hmem)
    obtain ⟨n, -, rfl⟩ := List.mem_map.1 hpick
    have hlength : 1 = 3 := congrArg (fun key : JsString × JsString => key.1.length) hof
    cases hlength
  refine (kept_iff (by decide +kernel) hlength.le hnodup).2 (.inr (.inr ⟨_, List.mem_cons_self, ?_⟩))
  exact show (1 : Rat) * plainTables.decay (0 - -1) < 1 by decide +kernel

/-- The pick just made is not among those kept. -/
theorem latest_lost : ¬∀ (tables : Tables Rat) (picks : List Pick) (key query : JsString) (now : Int),
    (∀ age, 0 < tables.decay age) → (∀ age age', age < age' → tables.decay age' < tables.decay age) →
    tables.decay 0 = 1 → picks.length ≤ maxPicks → (picks.map Pick.of).Nodup → (∀ pick ∈ picks, pick.last ≤ now) →
    Kept tables picks key query now (remember tables picks key query now) := by
  intro h
  have hlength := length_fullPicks
  have hworth : ∀ pick ∈ fullPicks, 1 ≤ worth plainTables 0 pick := by
    intro pick hpick
    obtain ⟨n, -, rfl⟩ := List.mem_map.1 hpick
    exact show (1 : Rat) ≤ 2 * plainTables.decay 0 by decide +kernel
  have hnew : ¬Known plainTables fullPicks [300] [] := by
    intro hknown
    obtain ⟨pick, hpick, hof⟩ := List.mem_map.1 hknown
    obtain ⟨n, hn, rfl⟩ := List.mem_map.1 hpick
    have hkey : [UInt16.ofNat n] = [300] := (Prod.mk.inj hof).1
    have hnum := congrArg UInt16.toNat (List.cons.inj hkey).1
    have hn := List.mem_range.1 hn
    rw [UInt16.toNat_ofNat'] at hnum
    have hmax : maxPicks = 300 := rfl
    have h300 : (300 : UInt16).toNat = 300 := rfl
    omega
  obtain ⟨pick, hpick, hof, -⟩ := (h plainTables fullPicks [300] [] 0 plainTables_pos plainTables_lt
    (by decide +kernel) hlength.le nodup_fullPicks (fun pick hpick => by
      obtain ⟨n, -, rfl⟩ := List.mem_map.1 hpick
      exact le_rfl)).made
  exact notMem_remember hnew (by decide +kernel) hlength hworth pick hpick hof

end Web.Rank
