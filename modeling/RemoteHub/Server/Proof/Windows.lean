import Mathlib.Algebra.GroupWithZero.Nat
import RemoteHub.Lib.Trim
import RemoteHub.Server.Proof.SignInLimiter
import Mathlib.Data.List.MinMax
import Mathlib.Order.Bounds.Basic

/-!
# What the limiter answers over a history of calls

`failures` are the times of a key's failures that no success has cleared, and `begins` says when the
last of their windows began: a window begins with the first failure after the one before is over.
`Agrees` relates the stored windows to these times: those that are not over are the same
(`agrees_after`), whatever was dropped meanwhile, and so are the answers, as long as the number of
failures does not wrap.
-/

namespace Server.SignInLimiter

/-! ## The windows of a history -/

/-- When the last window of failures at `times` began. -/
def begins (window : Int) (times : List Int) : Option Int :=
  times.foldl (fun since time =>
    some (since.elim time fun since => if time - since < window then since else time)) none

/-- The last window: when it began, and how many failures it counts. -/
def lastWindow (window : Int) (times : List Int) : Option (Int × Nat) :=
  (begins window times).map fun since => (since, times.countP (since ≤ ·))

/-- The last window, unless it is over. -/
def openWindow (window : Int) (times : List Int) (now : Int) : Option (Int × Nat) :=
  (lastWindow window times).filter fun w => now - w.1 < window

/-- The times of the failures of a key that no success of that user has cleared. -/
def failures (config : Config) (key : Key) (calls : List (Int × Call)) : List Int :=
  calls.foldl (fun times call =>
    match call.2 with
    | .check _ => times
    | .failed keys => times ++ List.replicate ((config.keys keys).count key) call.1
    | .succeeded user => if config.key .user user = key then [] else times) []

/-- At `now` the key has used up its failures, for `left` longer. -/
def Blocked (config : Config) (calls : List (Int × Call)) (now : Int) (key : Key) (left : Int) : Prop :=
  ∃ w, openWindow config.window (failures config key calls) now = some w ∧
    key.kind.maxFailures ≤ w.2 ∧ left = config.window - (now - w.1)

variable {config : Config} {s : Shared} {key key' : Key} {keys : List Key} {window now start t : Int}
  {times : List Int} {calls : List (Int × Call)}

theorem begins_concat (window : Int) (times : List Int) (t : Int) : begins window (times ++ [t]) =
    some ((begins window times).elim t fun since => if t - since < window then since else t) := by
  unfold begins
  rw [List.foldl_append, List.foldl_cons, List.foldl_nil]

theorem begins_mem {since : Int} (h : begins window times = some since) : since ∈ times := by
  induction times using List.reverseRecOn generalizing since with
  | nil => cases h
  | append_singleton times t ih =>
    rw [begins_concat] at h
    cases hb : begins window times with
    | none =>
      rw [hb] at h
      cases h
      exact List.mem_append_right _ List.mem_cons_self
    | some since' =>
      rw [hb, Option.elim_some, Option.some.injEq] at h
      split at h
      · exact List.mem_append_left _ (ih (hb.trans (congrArg some h)))
      · rw [← h]
        exact List.mem_append_right _ List.mem_cons_self

/-- No failure is later than the last window. -/
theorem begins_covers {since : Int} (hwindow : 0 < window) (hsorted : times.Pairwise (· ≤ ·))
    (h : begins window times = some since) : ∀ t ∈ times, t - since < window := by
  induction times using List.reverseRecOn generalizing since with
  | nil => exact fun t ht => absurd ht List.not_mem_nil
  | append_singleton times t ih =>
    obtain ⟨hsorted, -, hlast⟩ := List.pairwise_append.1 hsorted
    rw [begins_concat, Option.some.injEq] at h
    intro t' ht'
    have hle : t' ≤ t := by
      rcases List.mem_append.1 ht' with ht' | ht'
      · exact hlast t' ht' t List.mem_cons_self
      · exact le_of_eq (List.mem_singleton.1 ht')
    cases hb : begins window times with
    | none =>
      rw [hb, Option.elim_none] at h
      omega
    | some since' =>
      rw [hb, Option.elim_some] at h
      split at h
      · omega
      · omega

/-- A failure is counted in the window that is open, or begins the next one. -/
theorem openWindow_concat (hsorted : times.Pairwise (· ≤ ·)) (hpast : ∀ t' ∈ times, t' ≤ t) :
    openWindow window (times ++ [t]) t =
      (some ((openWindow window times t).elim (t, 1) fun w => (w.1, w.2 + 1))).filter
        fun w => t - w.1 < window := by
  unfold openWindow lastWindow
  rw [begins_concat, Option.map_some]
  cases hb : begins window times with
  | none =>
    have htimes : times = [] := by
      cases times using List.reverseRecOn with
      | nil => rfl
      | append_singleton times t =>
        rw [begins_concat] at hb
        cases hb
    subst htimes
    simp
  | some since =>
    have hle : since ≤ t := hpast since (begins_mem hb)
    by_cases hopen : t - since < window
    · simp [hopen, List.countP_append, hle, Option.filter]
    · by_cases hwindow : 0 < window
      · have hnone : times.countP (t ≤ ·) = 0 := by
          refine List.countP_eq_zero.2 fun t' ht' => ?_
          have hcovers := begins_covers hwindow hsorted hb t' ht'
          simp only [decide_eq_true_eq, not_le]
          omega
        simp [hopen, List.countP_append, hnone, Option.filter]
      · have hover : ¬t - t < window := by omega
        simp only [Option.elim_some, Option.map_some, Option.filter_some, hover, hopen, decide_false,
          Bool.false_eq_true, if_false, Option.elim_none]

/-! ## The stored windows -/

/-- The windows that are not over are those of the failures at `times`; the number of a window wraps. -/
structure Agrees (config : Config) (s : Shared) (times : Key → List Int) : Prop where
  sorted : ∀ key, (times key).Pairwise (· ≤ ·)
  past : ∀ key, ∀ t ∈ times key, t ≤ s.clock
  current : ∀ key, (s.current config key).map (fun window => (window.since, window.failures)) =
    (openWindow config.window (times key) s.clock).map fun w => (w.1, w.2 % 2 ^ 32)

variable {agreed : Key → List Int}

theorem filter_later {α : Type} {o : Option α} {since : α → Int} {clock : Int} (h : now ≤ clock) :
    o.filter (fun a => clock - since a < window) =
      (o.filter fun a => now - since a < window).filter fun a => clock - since a < window := by
  cases o with
  | none => rfl
  | some a =>
    by_cases hnow : now - since a < window
    · simp [Option.filter, hnow]
    · have hclock : ¬clock - since a < window := by omega
      simp [Option.filter, hnow, hclock]

theorem Agrees.tick (hs : Agrees config s agreed) {clock : Int} (hclock : s.clock ≤ clock) :
    Agrees config { s with clock } agreed := by
  refine ⟨hs.sorted, fun key t ht => le_trans (hs.past key t ht) hclock, fun key => ?_⟩
  have hcurrent : { s with clock }.current config key =
      (s.current config key).filter fun window => clock - window.since < config.window :=
    filter_later hclock
  have hopen : openWindow config.window (agreed key) clock =
      (openWindow config.window (agreed key) s.clock).filter fun w => clock - w.1 < config.window :=
    filter_later hclock
  have hold := congrArg (Option.filter fun w : Int × Nat => clock - w.1 < config.window) (hs.current key)
  rw [Option.filter_map, Option.filter_map] at hold
  rw [hcurrent, hopen]
  exact hold

theorem Agrees.retain (hs : Agrees config s agreed) :
    Agrees config { s with windows := s.retain config } agreed :=
  ⟨hs.sorted, hs.past, fun key => by rw [current_retain]; exact hs.current key⟩

/-- One more failure of `key'`, now. -/
theorem Agrees.count (hs : Agrees config s agreed) (key' : Key) : Agrees config (s.count config key')
    fun key => agreed key ++ List.replicate ([key'].count key) s.clock := by
  refine ⟨fun key => ?_, fun key t ht => ?_, fun key => ?_⟩
  · refine List.pairwise_append.2 ⟨hs.sorted key, List.pairwise_replicate.2 (.inr le_rfl), ?_⟩
    intro t ht t' ht'
    rw [List.eq_of_mem_replicate ht']
    exact hs.past key t ht
  · rw [count_clock]
    rcases List.mem_append.1 ht with ht | ht
    · exact hs.past key t ht
    · exact le_of_eq (List.eq_of_mem_replicate ht)
  · have hold := hs.current key
    unfold Shared.current
    rw [lookup_count, count_clock]
    by_cases heq : key = key'
    · subst heq
      rw [if_pos rfl, List.count_singleton_self, List.replicate_one,
        openWindow_concat (hs.sorted key) (hs.past key)]
      cases hcurrent : s.current config key with
      | none =>
        rw [hcurrent, Option.map_none, eq_comm, Option.map_eq_none_iff] at hold
        by_cases hwindow : 0 < config.window <;> simp [hold, Option.filter, hwindow]
      | some w =>
        rw [hcurrent, Option.map_some, eq_comm, Option.map_eq_some_iff] at hold
        obtain ⟨⟨since, n⟩, hopen, hsame⟩ := hold
        obtain ⟨rfl, hn⟩ := Prod.mk.inj hsame
        have hnext : (w.failures + 1) % 2 ^ 32 = (n + 1) % 2 ^ 32 := by omega
        rw [hopen, Option.elim_some, Option.elim_some, Option.filter_some, Option.filter_some]
        by_cases hover : s.clock - w.since < config.window
        · rw [if_pos (decide_eq_true hover), if_pos (decide_eq_true hover), Option.map_some,
            Option.map_some, hnext]
        · rw [if_neg (by simpa using hover), if_neg (by simpa using hover)]
          rfl
    · have hzero : [key'].count key = 0 := by simp [Ne.symm heq]
      rw [if_neg heq, hzero, List.replicate_zero, List.append_nil]
      exact hold

theorem Agrees.foldl (hs : Agrees config s agreed) (keys : List Key) :
    Agrees config (keys.foldl (fun s key => s.count config key) s)
      fun key => agreed key ++ List.replicate (keys.count key) s.clock := by
  induction keys generalizing s agreed with
  | nil => simpa using hs
  | cons key' keys ih =>
    have hrest := ih (hs.count key')
    rw [List.foldl_cons]
    simp only [List.append_assoc, count_clock, List.replicate_append_replicate] at hrest
    simp only [List.count_cons, List.count_nil] at hrest ⊢
    simpa only [Nat.zero_add, Nat.add_comm] using hrest

theorem Agrees.succeeded (hs : Agrees config s agreed) (user : String) :
    Agrees config (s.succeeded config user)
      fun key => if config.key .user user = key then [] else agreed key := by
  refine ⟨fun key => ?_, fun key t ht => ?_, fun key => ?_⟩
  · split
    · exact .nil
    · exact hs.sorted key
  · split at ht
    · cases ht
    · exact hs.past key t ht
  · unfold Shared.current Shared.succeeded
    split
    · subst key
      rw [AList.lookup_erase]
      rfl
    · rename_i hne
      rw [AList.lookup_erase_ne (Ne.symm hne)]
      exact hs.current key

theorem foldl_count_clock (config : Config) (s : Shared) (keys : List Key) :
    (keys.foldl (fun s key => s.count config key) s).clock = s.clock := by
  induction keys generalizing s with
  | nil => rfl
  | cons key keys ih => rw [List.foldl_cons, ih, count_clock]

/-! ## Runs -/

/-- The same calls, and `failed` drops nothing. -/
def Shared.callKeeping (config : Config) (s : Shared) (clock : Int) : Call → Shared
  | .check _ => { s with clock }
  | .failed keys => (config.keys keys).foldl (fun s key => s.count config key) { s with clock }
  | .succeeded user => { s with clock }.succeeded config user

def afterKeeping (config : Config) (start : Int) (calls : List (Int × Call)) : Shared :=
  calls.foldl (fun s call => s.callKeeping config call.1 call.2) { clock := start }

/-- The times of the failures after one more call. -/
theorem failures_concat (config : Config) (key : Key) (calls : List (Int × Call)) (t : Int) (call : Call) :
    failures config key (calls ++ [(t, call)]) =
      match call with
      | .check _ => failures config key calls
      | .failed keys => failures config key calls ++ List.replicate ((config.keys keys).count key) t
      | .succeeded user => if config.key .user user = key then [] else failures config key calls := by
  unfold failures
  rw [List.foldl_append, List.foldl_cons, List.foldl_nil]

theorem Agrees.call (hs : Agrees config s (failures config · calls)) (ht : s.clock ≤ t) (call : Call) :
    Agrees config (s.call config t call) (failures config · (calls ++ [(t, call)])) ∧
      Agrees config (s.callKeeping config t call) (failures config · (calls ++ [(t, call)])) := by
  have htick := hs.tick ht
  simp only [failures_concat]
  cases call with
  | check keys => exact ⟨htick, htick⟩
  | failed keys => exact ⟨htick.retain.foldl _, htick.foldl _⟩
  | succeeded user => exact ⟨htick.succeeded user, htick.succeeded user⟩

theorem agrees_run (step : Shared → Int → Call → Shared)
    (hstep : ∀ s calls t call, Agrees config s (failures config · calls) → s.clock ≤ t →
      Agrees config (step s t call) (failures config · (calls ++ [(t, call)])) ∧
        (step s t call).clock = t)
    (hsorted : (start :: calls.map (·.1)).Pairwise (· ≤ ·)) :
    Agrees config (calls.foldl (fun s call => step s call.1 call.2) { clock := start })
        (failures config · calls) ∧
      (calls.foldl (fun s call => step s call.1 call.2) { clock := start }).clock ∈
        start :: calls.map (·.1) := by
  induction calls using List.reverseRecOn with
  | nil => exact ⟨⟨fun key => .nil, fun key t ht => absurd ht List.not_mem_nil, fun key => rfl⟩, List.mem_cons_self⟩
  | append_singleton calls call ih =>
    rw [List.map_append, ← List.cons_append, List.pairwise_append] at hsorted
    obtain ⟨hs, hclock⟩ := ih hsorted.1
    have hle := hsorted.2.2 _ hclock call.1 List.mem_cons_self
    obtain ⟨hnext, htime⟩ := hstep _ calls call.1 call.2 hs hle
    rw [List.foldl_append, List.foldl_cons, List.foldl_nil]
    refine ⟨hnext, ?_⟩
    rw [htime, List.map_append]
    exact List.mem_cons_of_mem _ (List.mem_append_right _ List.mem_cons_self)

/-- **The windows that are not over are those of the history**, at every later time. -/
theorem agrees_after (config : Config) (hsorted : (start :: calls.map (·.1) ++ [now]).Pairwise (· ≤ ·)) :
    Agrees config { after config start calls with clock := now } (failures config · calls) ∧
      Agrees config { afterKeeping config start calls with clock := now } (failures config · calls) := by
  obtain ⟨hcalls, -, hnow⟩ := List.pairwise_append.1 hsorted
  constructor
  · obtain ⟨hs, hclock⟩ := agrees_run (Shared.call config) (fun s calls t call hs ht =>
      ⟨(hs.call ht call).1, by cases call <;> first | rfl | exact foldl_count_clock ..⟩) hcalls
    exact hs.tick (hnow _ hclock now List.mem_cons_self)
  · obtain ⟨hs, hclock⟩ := agrees_run (Shared.callKeeping config) (fun s calls t call hs ht =>
      ⟨(hs.call ht call).2, by cases call <;> first | rfl | exact foldl_count_clock ..⟩) hcalls
    exact hs.tick (hnow _ hclock now List.mem_cons_self)

/-! ## Answers -/

/-- How long a key is to wait by its stored window. -/
def storedWait (config : Config) (times : List Int) (now : Int) (key : Key) : Option Int :=
  (openWindow config.window times now).bind fun w =>
    if key.kind.maxFailures ≤ w.2 % 2 ^ 32 then some (config.window - (now - w.1)) else none

theorem Agrees.check (hs : Agrees config s agreed) (keys : List Key) : s.check config keys =
    (keys.filterMap fun key => storedWait config (agreed key) s.clock key).max?.map (max second) := by
  unfold Shared.check
  congr 2
  refine List.filterMap_congr fun key _ => ?_
  let wait (w : Int × Nat) : Option Int :=
    if key.kind.maxFailures ≤ w.2 then some (config.window - (s.clock - w.1)) else none
  have hstored : ((s.windows.lookup key).bind fun window =>
      if s.Full config key window then some (config.window - (s.clock - window.since)) else none) =
      ((s.current config key).map fun window => (window.since, window.failures)).bind wait := by
    unfold Shared.current
    cases s.windows.lookup key with
    | none => rfl
    | some window =>
      by_cases hover : s.clock - window.since < config.window <;>
        simp [Option.filter, Shared.Full, hover, wait]
  rw [hstored, hs.current key, Option.bind_map]
  rfl

/-- Where the number of failures has not wrapped to less than its limit. -/
theorem storedWait_eq_some {left : Int}
    (hfits : ∀ w, openWindow config.window (failures config key calls) now = some w →
      key.kind.maxFailures ≤ w.2 → key.kind.maxFailures ≤ w.2 % 2 ^ 32) :
    storedWait config (failures config key calls) now key = some left ↔
      Blocked config calls now key left := by
  unfold storedWait Blocked
  rw [Option.bind_eq_some_iff]
  refine exists_congr fun w => and_congr_right fun hopen => ?_
  rw [Option.ite_none_right_eq_some, Option.some.injEq, eq_comm (a := left)]
  exact and_congr_left fun _ => ⟨fun h => le_trans h (Nat.mod_le _ _), hfits w hopen⟩

/-- `check` refuses exactly the blocked keys, until the last of their windows is over. -/
def AnswersRight (config : Config) (s : Shared) (calls : List (Int × Call)) : Prop :=
  ∀ keys : List (Kind × String),
    ((s.check config (config.keys keys)).isSome ↔
      ∃ key ∈ config.keys keys, ∃ left, Blocked config calls s.clock key left) ∧
    ∀ wait, s.check config (config.keys keys) = some wait ↔
      ∃ longest, IsGreatest {left | ∃ key ∈ config.keys keys, Blocked config calls s.clock key left} longest ∧
        wait = max second longest

/-- No window that is open has so many failures that their number, which wraps, is below the limit again. -/
def Fits (config : Config) (calls : List (Int × Call)) (now : Int) : Prop :=
  ∀ kind value, ∀ w, openWindow config.window (failures config (config.key kind value) calls) now = some w →
    kind.maxFailures ≤ w.2 → kind.maxFailures ≤ w.2 % 2 ^ 32

theorem Agrees.answersRight (hs : Agrees config s (failures config · calls)) :
    AnswersRight config s calls ↔ Fits config calls s.clock := by
  constructor
  · intro hright kind value w hopen hfull
    by_contra hwrapped
    have hstored : storedWait config (failures config (config.key kind value) calls) s.clock
        (config.key kind value) = none := by
      rw [storedWait, hopen]
      exact if_neg hwrapped
    have hcheck := hs.check (config.keys [(kind, value)])
    have hrefuses := (hright [(kind, value)]).1.2
      ⟨config.key kind value, List.mem_cons_self, _, w, hopen, hfull, rfl⟩
    simp only [Config.keys, List.map_cons, List.map_nil, List.filterMap_cons, hstored,
      List.filterMap_nil] at hcheck hrefuses
    rw [hcheck] at hrefuses
    cases hrefuses
  · intro hfits keys
    have hwaits : ∀ left, left ∈ ((config.keys keys).filterMap fun key =>
        storedWait config (failures config key calls) s.clock key) ↔
        ∃ key ∈ config.keys keys, Blocked config calls s.clock key left := by
      intro left
      rw [List.mem_filterMap]
      refine exists_congr fun key => and_congr_right fun hkey => storedWait_eq_some ?_
      obtain ⟨⟨kind, value⟩, -, rfl⟩ := List.mem_map.1 hkey
      exact hfits kind value
    have hwait : ∀ wait, s.check config (config.keys keys) = some wait ↔
        ∃ longest, IsGreatest {left | ∃ key ∈ config.keys keys, Blocked config calls s.clock key left} longest ∧
          wait = max second longest := by
      intro wait
      rw [hs.check, Option.map_eq_some_iff]
      refine exists_congr fun longest => and_congr ?_ eq_comm
      rw [List.max?_eq_some_iff, hwaits]
      refine and_congr_right fun _ => forall_congr' fun left => ?_
      rw [hwaits]
      rfl
    refine ⟨?_, hwait⟩
    rw [hs.check, Option.isSome_map, Option.isSome_iff_ne_none, Ne, List.max?_eq_none_iff,
      List.eq_nil_iff_forall_not_mem, not_forall]
    simp only [not_not, hwaits]
    exact ⟨fun ⟨left, key, hkey, hblocked⟩ => ⟨key, hkey, left, hblocked⟩,
      fun ⟨key, hkey, left, hblocked⟩ => ⟨left, key, hkey, hblocked⟩⟩

/-- How many failures the calls report. -/
def reported (calls : List (Int × Call)) : Nat :=
  (calls.map fun call => match call.2 with
    | .failed keys => keys.length
    | .check _ | .succeeded _ => 0).sum

theorem length_failures_le (config : Config) (key : Key) (calls : List (Int × Call)) :
    (failures config key calls).length ≤ reported calls := by
  induction calls using List.reverseRecOn with
  | nil => exact le_refl _
  | append_singleton calls call ih =>
    obtain ⟨t, call⟩ := call
    have hsum : reported (calls ++ [(t, call)]) = reported calls + reported [(t, call)] := by
      simp only [reported, List.map_append, List.sum_append]
    rw [failures_concat, hsum]
    cases call with
    | check keys => exact ih
    | failed keys =>
      have hcount := List.count_le_length (a := key) (l := config.keys keys)
      rw [Config.keys, List.length_map] at hcount
      simp only [List.length_append, List.length_replicate, reported, List.map_cons, List.map_nil,
        List.sum_cons, List.sum_nil] at ih ⊢
      exact Nat.add_le_add ih hcount
    | succeeded user =>
      simp only
      split
      · exact Nat.zero_le _
      · exact le_trans ih (Nat.le_add_right _ _)

theorem fits_of_few (h : reported calls < 2 ^ 32) : Fits config calls now := by
  intro kind value w hopen hfull
  have hcount : w.2 ≤ (failures config (config.key kind value) calls).length := by
    obtain ⟨hlast, -⟩ := Option.filter_eq_some_iff.1 hopen
    obtain ⟨since, -, rfl⟩ := Option.map_eq_some_iff.1 hlast
    exact List.countP_le_length
  have hlength := length_failures_le config (config.key kind value) calls
  rw [Nat.mod_eq_of_lt (by omega)]
  exact hfull

/-! ## Keys -/

theorem Key.text_inj : key.text = key'.text ↔ key = key' := by
  refine ⟨fun h => ?_, fun h => by rw [h]⟩
  obtain ⟨kind, value⟩ := key
  obtain ⟨kind', value'⟩ := key'
  have hchars := congrArg String.toList h
  simp only [Key.text, String.toList_append] at hchars
  cases kind <;> cases kind' <;> simp [Kind.text] at hchars ⊢ <;> exact String.toList_inj.1 hchars

/-- Blanks around a value do not count. -/
theorem key_blanks {kind : Kind} {value : String} {before after : List Char}
    (hbefore : ∀ c ∈ before, Text.isWhitespace c = true) (hafter : ∀ c ∈ after, Text.isWhitespace c = true) :
    config.key kind (.ofList (before ++ value.toList ++ after)) = config.key kind value := by
  have htrim := Trim.trimBy_append_right (p := Text.isWhitespace) (l := before ++ value.toList) hafter
  rw [Trim.trimBy_append_left hbefore] at htrim
  have hsame : Text.trim (.ofList (before ++ value.toList ++ after)) = Text.trim value := by
    rw [Text.trim, Text.trim, String.toList_ofList]
    exact congrArg String.ofList htrim
  rw [Config.key, hsame]
  rfl

/-- **The limiter answers by the failures of each window**, where their number has not wrapped; what it
has dropped does not count, and keys count together if they differ in case and blanks only. -/
theorem limiter_answers (config : Config) (start now : Int) (calls : List (Int × Call))
    (hsorted : (start :: calls.map (·.1) ++ [now]).Pairwise (· ≤ ·)) :
    (AnswersRight config { after config start calls with clock := now } calls ↔ Fits config calls now) ∧
    (∀ keys, { after config start calls with clock := now }.check config keys =
      { afterKeeping config start calls with clock := now }.check config keys) ∧
    (∀ key key' : Key, key.text = key'.text ↔ key = key') ∧
    (∀ kind value value', config.key kind value = config.key kind value' ↔
      config.lower (Text.trim value) = config.lower (Text.trim value')) ∧
    (∀ kind value before after, (∀ c ∈ before, Text.isWhitespace c = true) →
      (∀ c ∈ after, Text.isWhitespace c = true) →
      config.key kind (.ofList (before ++ value.toList ++ after)) = config.key kind value) ∧
    ∀ user address, config.key .user user ≠ config.key .address address := by
  obtain ⟨hafter, hkeeping⟩ := agrees_after config hsorted
  refine ⟨hafter.answersRight, fun keys => ?_, fun key key' => Key.text_inj, fun kind value value' => ?_,
    fun kind value before after hbefore hafter => key_blanks hbefore hafter, fun user address h => ?_⟩
  · rw [hafter.check, hkeeping.check]
  · rw [Config.key, Config.key, Key.mk.injEq, and_iff_right rfl]
  · cases congrArg Key.kind h

/-- Five minutes, and names of ASCII. -/
def fiveMinutes : Config := ⟨Text.toAsciiLowercase, 300 * second⟩

/-- Five failures, and one more when the window of the first is over. -/
def aliceCalls : List (Int × Call) :=
  List.replicate 5 (0, .failed [(.user, "Alice")]) ++ [(300 * second, .failed [(.user, " alice ")])]

theorem limiter_answers_alice :
    AnswersRight fiveMinutes { after fiveMinutes 0 aliceCalls with clock := 300 * second } aliceCalls :=
  (limiter_answers fiveMinutes 0 (300 * second) aliceCalls (by decide)).1.2 (fits_of_few (by decide))

theorem failures_replicate (config : Config) (kind : Kind) (value : String) (t : Int) (n : Nat) :
    failures config (config.key kind value) (List.replicate n (t, .failed [(kind, value)])) =
      List.replicate n t := by
  induction n with
  | zero => rfl
  | succ n ih =>
    have hone : (config.keys [(kind, value)]).count (config.key kind value) = 1 := List.count_singleton_self
    rw [List.replicate_succ', failures_concat, ih, List.replicate_succ']
    simp only
    rw [hone, List.replicate_one]

theorem begins_replicate (window t : Int) (n : Nat) : begins window (List.replicate (n + 1) t) = some t := by
  induction n with
  | zero => rfl
  | succ n ih => rw [List.replicate_succ', begins_concat, ih, Option.elim_some, ite_self]

/-- The calls of `n` failures at once. -/
def atOnce (n : Nat) : List (Int × Call) := List.replicate n (0, .failed [(.user, "alice")])

theorem sorted_atOnce (n : Nat) : ((0 : Int) :: (atOnce n).map Prod.fst ++ [0]).Pairwise (· ≤ ·) := by
  rw [atOnce, List.map_replicate, ← List.replicate_succ, ← List.replicate_succ']
  exact List.pairwise_replicate.2 (.inr le_rfl)

/-- So many failures at once that their number is below the limit again: the user is not blocked. -/
theorem wrapped_atOnce {n : Nat} (hmany : 5 ≤ n) (hwrapped : n % 2 ^ 32 < 5) :
    ¬AnswersRight fiveMinutes { after fiveMinutes 0 (atOnce n) with clock := 0 } (atOnce n) := by
  rw [(agrees_after fiveMinutes (sorted_atOnce n)).1.answersRight]
  intro hfits
  have hopen : openWindow fiveMinutes.window
      (failures fiveMinutes (fiveMinutes.key .user "alice") (atOnce n)) 0 = some (0, n) := by
    obtain ⟨m, rfl⟩ : ∃ m, n = m + 1 := ⟨n - 1, by omega⟩
    rw [atOnce, failures_replicate, openWindow, lastWindow, begins_replicate, Option.map_some,
      List.countP_replicate]
    rfl
  exact absurd (hfits .user "alice" (0, n) hopen hmany) (Nat.not_le.2 hwrapped)

/-- After 4294967296 failures in one window the user is let through. -/
theorem failures_wrap :
    ¬AnswersRight fiveMinutes { after fiveMinutes 0 (atOnce (2 ^ 32)) with clock := 0 } (atOnce (2 ^ 32)) :=
  wrapped_atOnce (by decide) (by decide)

end Server.SignInLimiter
