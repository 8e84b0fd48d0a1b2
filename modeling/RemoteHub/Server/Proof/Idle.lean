import RemoteHub.Server.Proof.Sessions

/-!
# Sessions in use, and sessions that lock

Requests and inputs write when a session was last seen at most once a minute, and an input asks the
database at most once a minute whether it may go on. A row whose session is in use was therefore seen
within the last two minutes at every arrival (`Fresh`), and within the minute before the last query
of every connection: rows only get newer (`newer_next`, `newer_outside`), unless a confirmation sets
the time back to its own beginning (`Recent`), after which no answer is older than its commit.

With arrivals at most 30 seconds apart and confirmations that are committed at most the idle time less
90 seconds after they began, a session is never found locked exactly if the idle time is three minutes
or more (`active_sessions_stay_open`). With confirmations of at most the idle time less a minute, an
input never reaches a device of a locked session exactly if the idle time is two minutes or more
(`locked_sessions_keep_input`).
-/

namespace Server.Sessions

open Model Interleave

variable {idle max longest : Int} {s s' : Shared} {f : Flight} {o : Option Flight} {e : Outside}
  {h hash : Bytes} {row row' : SessionRow}

/-! ## Rows get newer -/

theorem le_touch_seen {now : Int} : row.lastSeenAt ≤ (row.touch idle now).lastSeenAt := by
  unfold SessionRow.touch minute
  split
  · simp only
    have : (0 : Int) ≤ second := by decide
    omega
  · exact le_refl _

theorem touch_expires {now : Int} : (row.touch idle now).expiresAt = row.expiresAt := by
  unfold SessionRow.touch
  split <;> rfl

theorem touch_seen {now : Int} (hrow : ¬row.Locked idle now) :
    now - minute ≤ (row.touch idle now).lastSeenAt := by
  unfold SessionRow.Locked at hrow
  unfold SessionRow.touch
  have : (0 : Int) ≤ minute := by decide
  split
  · simp only
    omega
  · omega

/-- What the query of an input leaves. -/
theorem input_eq_some {now : Int} (hi : row.input idle now = some row') :
    row.lastSeenAt ≤ row'.lastSeenAt ∧ row'.expiresAt = row.expiresAt ∧ now < row.expiresAt ∧
      now - idle < row'.lastSeenAt ∧ now - minute ≤ row'.lastSeenAt := by
  unfold SessionRow.input at hi
  have : (0 : Int) ≤ minute := by decide
  split at hi
  · rename_i hcond
    cases hi
    by_cases hold : row.lastSeenAt < now - minute
    · simp only [if_pos hold]
      refine ⟨?_, trivial, hcond.1, ?_, ?_⟩ <;> omega
    · simp only [if_neg hold]
      refine ⟨?_, trivial, hcond.1, hcond.2, ?_⟩ <;> omega
  · cases hi

/-- A confirmation on its way began at most `longest` ago. -/
def Flight.Recent (longest : Int) (_ : Nat) (s : Shared) : Flight → Prop
  | .commit _ _ began => began ≤ s.clock ∧ s.clock ≤ began + longest
  | _ => True

/-- The row is there as it was, or seen no earlier than before, or seen at most `longest` ago. -/
def Newer (longest : Int) (s s' : Shared) (h : Bytes) : Prop :=
  ∀ row', s'.sessions.lookup h = some row' →
    (∃ row, s.sessions.lookup h = some row ∧ row.lastSeenAt ≤ row'.lastSeenAt ∧
      row'.expiresAt = row.expiresAt) ∨ s.clock - longest ≤ row'.lastSeenAt

theorem newer_next {k : Nat} (hf : f.Recent longest k s)
    (hn : Flight.next idle s f = some (s', o)) : Newer longest s s' h := by
  intro row' hrow'
  rcases next_cases hn with rfl | ⟨hash, answer, rfl, rfl⟩ | ⟨hash, right, began, rfl, rfl⟩
  · exact .inl ⟨row', hrow', le_refl _, rfl⟩
  · rw [Shared.lookup_touch] at hrow'
    split at hrow'
    · obtain ⟨row, hrow, rfl⟩ := Option.map_eq_some_iff.1 hrow'
      exact .inl ⟨row, hrow, le_touch_seen, touch_expires⟩
    · exact .inl ⟨row', hrow', le_refl _, rfl⟩
  · rw [Shared.lookup_confirm] at hrow'
    split at hrow'
    · obtain ⟨row, hrow, hc⟩ := Option.bind_eq_some_iff.1 hrow'
      unfold SessionRow.confirm at hc
      split at hc
      · cases hc
        have hrecent := hf.2
        exact .inr (by simp only; omega)
      · split at hc
        · cases hc
        · cases hc
          exact .inl ⟨row, hrow, le_refl _, rfl⟩
    · exact .inl ⟨row', hrow', le_refl _, rfl⟩

theorem newer_outside (hlongest : 0 ≤ longest) (ho : s.outside idle max e = some s') :
    Newer longest s s' h := by
  obtain ⟨-, -, hrows⟩ := outside_cases ho
  intro row' hrow'
  cases hrows h with
  | same hsame =>
    rw [hsame] at hrow'
    exact .inl ⟨row', hrow', le_refl _, rfl⟩
  | gone hnone =>
    rw [hnone] at hrow'
    cases hrow'
  | created row hnew hissued hseen _ hrow =>
    rw [hrow] at hrow'
    cases hrow'
    exact .inr (by omega)
  | input row₀ row₁ hrow₀ hinput hrow₁ =>
    rw [hrow₁] at hrow'
    cases hrow'
    obtain ⟨hle, hexpires, -⟩ := input_eq_some hinput
    exact .inl ⟨row₀, hrow₀, hle, hexpires⟩

/-! ## Conditions on runs -/

/-- The database answers, and no transaction of a confirmation lasts longer than `longest`. -/
def Prompt (longest : Int) (w : World Shared Flight) : Interleave.Event Flight Outside → Prop
  | .outside (.tick clock) => ∀ k hash right began,
      w.flights.lookup k = some (.commit hash right began) → clock ≤ began + longest
  | .outside (.input _ reachable) => reachable = true
  | _ => True

/-- The database answers. -/
def Reachable (_ : World Shared Flight) (ev : Interleave.Event Flight Outside) : Prop :=
  ∀ k reachable, ev = .outside (.input k reachable) → reachable = true

theorem Prompt.reachable {w : World Shared Flight} {ev : Interleave.Event Flight Outside}
    (h : Prompt longest w ev) : Reachable w ev := by
  rintro k reachable rfl
  exact h

/-- The session is kept alive every 30 seconds as long as it is there. -/
def Active (h : Bytes) (w : World Shared Flight) (ev : Interleave.Event Flight Outside) : Prop :=
  ∀ clock, ev = .outside (.tick clock) → h ∈ w.shared.sessions →
    ∀ arrived, w.shared.arrived.lookup h = some arrived → clock ≤ arrived + 30 * second

theorem recent_next {k : Nat} (hlongest : 0 ≤ longest)
    (hn : Flight.next idle s f = some (s', o)) : ∀ g, o = some g → g.Recent longest k s' := by
  intro g hg
  subst hg
  have hgo : ∀ {hash : Bytes} {answer : Option Bool} {t : Shared},
      Flight.goOn hash answer = some g → g.Recent longest k t := by
    intro hash answer t hgo
    obtain ⟨right, -, rfl⟩ := Option.map_eq_some_iff.1 hgo
    trivial
  cases f with
  | find hash keepAlive answer =>
    simp only [Flight.next] at hn
    split at hn
    · cases hn
    · split at hn
      · cases hn
        trivial
      · obtain ⟨-, hgo'⟩ := Prod.mk.inj (Option.some.inj hn)
        exact hgo hgo'
  | touch hash answer =>
    obtain ⟨-, hgo'⟩ := Prod.mk.inj (Option.some.inj hn)
    exact hgo hgo'
  | start hash right =>
    cases hn
    exact ⟨le_refl _, by omega⟩
  | commit hash right began => cases hn

theorem next_clock (hn : Flight.next idle s f = some (s', o)) : s'.clock = s.clock := by
  rcases next_cases hn with rfl | ⟨hash, answer, rfl, rfl⟩ | ⟨hash, right, began, rfl, rfl⟩ <;> simp

/-! ## Sessions in use -/

/-- Nothing lies in the future. -/
structure Past (s : Shared) : Prop where
  arrived : ∀ h a, s.arrived.lookup h = some a → a ≤ s.clock
  checked : ∀ k act c, s.activities.lookup k = some act → act.checked = some c → c ≤ s.clock

/-- The row was seen in the two minutes before the last arrival, and in the minute before every
query. -/
structure Seen (h : Bytes) (s : Shared) (row : SessionRow) : Prop where
  arrived : ∀ a, s.arrived.lookup h = some a → a - 2 * minute < row.lastSeenAt
  checked : ∀ k act c, s.activities.lookup k = some act → act.tokenHash = h →
    act.checked = some c → c - minute ≤ row.lastSeenAt

/-- A confirmation was committed at `c`: every answer is older, so the first arrival a minute later
asks again. -/
structure SetBack (longest : Int) (h : Bytes) (s : Shared) (row : SessionRow) (c : Int) : Prop where
  seen : c - longest ≤ row.lastSeenAt
  arrived : ∀ a, s.arrived.lookup h = some a → a < c + minute
  checked : ∀ k act d, s.activities.lookup k = some act → act.tokenHash = h →
    act.checked = some d → d ≤ c

def Fresh (longest : Int) (h : Bytes) (s : Shared) (row : SessionRow) : Prop :=
  Seen h s row ∨ ∃ c, SetBack longest h s row c

/-- The session is in use. -/
structure InUse (longest : Int) (h : Bytes) (s : Shared) : Prop where
  past : Past s
  arrived : h ∈ s.sessions → ∃ a, s.arrived.lookup h = some a ∧ s.clock ≤ a + 30 * second
  fresh : ∀ row, s.sessions.lookup h = some row → s.clock < row.expiresAt → Fresh longest h s row

theorem mem_of_lookup (hrow : s.sessions.lookup h = some row) : h ∈ s.sessions := by
  rw [← AList.lookup_isSome, hrow]
  rfl

theorem InUse.not_locked (hu : InUse longest h s) (hidle : 3 * minute ≤ idle)
    (hlongest : longest ≤ idle - 90 * second) (hrow : s.sessions.lookup h = some row)
    (hexpires : s.clock < row.expiresAt) : ¬row.Locked idle s.clock := by
  obtain ⟨a, ha, hclock⟩ := hu.arrived (mem_of_lookup hrow)
  unfold SessionRow.Locked
  rcases hu.fresh row hrow hexpires with hseen | ⟨c, hback⟩
  · have hseen := hseen.arrived a ha
    unfold minute second at *
    omega
  · have hseen := hback.seen
    have harrived := hback.arrived a ha
    unfold minute second at *
    omega

/-- What was seen in the last minute. -/
theorem Past.fresh (hp : Past s) (hseen : s.clock - minute ≤ row.lastSeenAt) :
    Fresh longest h s row := by
  refine .inl ⟨fun a ha => ?_, fun k act c hact _ hc => ?_⟩
  · have hpast := hp.arrived h a ha
    unfold minute second at *
    omega
  · have hpast := hp.checked k act c hact hc
    omega

/-- A row that a step has not made older. -/
theorem Fresh.newer {s₁ s₂ : Shared} (hf : Fresh longest h s₁ row)
    (hle : row.lastSeenAt ≤ row'.lastSeenAt) (harrived : s₂.arrived.lookup h = s₁.arrived.lookup h)
    (hactivities : ∀ k act c, s₂.activities.lookup k = some act → act.tokenHash = h →
      act.checked = some c → s₁.activities.lookup k = some act) : Fresh longest h s₂ row' := by
  rcases hf with hseen | ⟨c, hback⟩
  · refine .inl ⟨fun a ha => ?_, fun k act c hact hhash hc => ?_⟩
    · rw [harrived] at ha
      exact lt_of_lt_of_le (hseen.arrived a ha) hle
    · exact le_trans (hseen.checked k act c (hactivities k act c hact hhash hc) hhash hc) hle
  · refine .inr ⟨c, le_trans hback.seen hle, fun a ha => ?_, fun k act d hact hhash hd => ?_⟩
    · rw [harrived] at ha
      exact hback.arrived a ha
    · exact hback.checked k act d (hactivities k act d hact hhash hd) hhash hd

/-- A step that is no arrival at this session. -/
theorem InUse.frame (hu : InUse longest h s) (hpast : Past s') (hclock : s'.clock = s.clock)
    (harrived : s'.arrived.lookup h = s.arrived.lookup h)
    (hactivities : ∀ k act c, s'.activities.lookup k = some act → act.tokenHash = h →
      act.checked = some c → s.activities.lookup k = some act)
    (hmem : h ∈ s'.sessions → h ∈ s.sessions) (hnewer : Newer longest s s' h) :
    InUse longest h s' := by
  refine ⟨hpast, fun hin => ?_, fun row' hrow' hexpires => ?_⟩
  · rw [harrived, hclock]
    exact hu.arrived (hmem hin)
  · rcases hnewer row' hrow' with ⟨row, hrow, hle, heq⟩ | hrecent
    · have hfresh := hu.fresh row hrow (by rw [← heq, ← hclock]; exact hexpires)
      exact hfresh.newer hle harrived hactivities
    · refine .inr ⟨s.clock, hrecent, fun a ha => ?_, fun k act d hact _ hd => ?_⟩
      · have hpast := hpast.arrived h a ha
        rw [hclock] at hpast
        have : (0 : Int) < minute := by decide
        omega
      · exact hclock ▸ hpast.checked k act d hact hd

/-- An arrival at this session. -/
theorem InUse.arrive (hpast : Past s') (harrived : s'.arrived.lookup h = some s'.clock)
    (hfresh : ∀ row', s'.sessions.lookup h = some row' → s'.clock < row'.expiresAt →
      Fresh longest h s' row') : InUse longest h s' := by
  refine ⟨hpast, fun _ => ⟨s'.clock, harrived, ?_⟩, hfresh⟩
  unfold second
  omega

theorem past_next (hp : Past s) (hn : Flight.next idle s f = some (s', o)) : Past s' := by
  rcases next_cases hn with rfl | ⟨hash, answer, rfl, rfl⟩ | ⟨hash, right, began, rfl, rfl⟩
  · exact hp
  · refine ⟨fun h a ha => ?_, hp.checked⟩
    simp only [Shared.touch, HashMap.lookup_insert_eq] at ha
    split at ha
    · cases ha
      exact le_refl _
    · exact hp.arrived h a ha
  · unfold Shared.confirm
    split <;> exact ⟨hp.arrived, hp.checked⟩

theorem inUse_next {k : Nat} (hidle : 3 * minute ≤ idle) (hlongest : longest ≤ idle - 90 * second)
    (hu : InUse longest h s) (hf : f.Recent longest k s)
    (hn : Flight.next idle s f = some (s', o)) : InUse longest h s' := by
  have hpast := past_next hu.past hn
  have hnewer : Newer longest s s' h := newer_next hf hn
  rcases next_cases hn with rfl | ⟨hash, answer, rfl, rfl⟩ | ⟨hash, right, began, rfl, rfl⟩
  · exact hu
  · by_cases heq : h = hash
    · subst heq
      refine .arrive hpast (AList.lookup_insert _) fun row' hrow' hexpires => ?_
      rw [Shared.lookup_touch, if_pos rfl] at hrow'
      obtain ⟨row, hrow, rfl⟩ := Option.map_eq_some_iff.1 hrow'
      rw [touch_expires] at hexpires
      exact hpast.fresh (touch_seen (hu.not_locked hidle hlongest hrow hexpires))
    · refine hu.frame hpast rfl (AList.lookup_insert_ne heq) (fun k act c hact _ _ => hact) ?_
        hnewer
      exact (HashMap.mem_modify _ _ _ _).1
  · refine hu.frame hpast (by simp) ?_ ?_ ?_ hnewer
    · unfold Shared.confirm
      split <;> rfl
    · intro k act c hact _ _
      unfold Shared.confirm at hact
      split at hact <;> exact hact
    · intro hin
      rw [← AList.lookup_isSome, Shared.lookup_confirm] at hin
      rw [← AList.lookup_isSome]
      split at hin
      · obtain ⟨row', hrow'⟩ := Option.isSome_iff_exists.1 hin
        obtain ⟨row, hrow, -⟩ := Option.bind_eq_some_iff.1 hrow'
        rw [hrow]
        rfl
      · exact hin

/-- What an input does while the database answers: nothing, or its query finds the session open, or
not. -/
theorem input_cases (idle : Int) (s : Shared) (k : Nat) (a : Activity) :
    (¬a.Due s.clock ∧ s.input idle k true a =
      { s with arrived := s.arrived.insert a.tokenHash s.clock }) ∨
    (∃ row row', s.sessions.lookup a.tokenHash = some row ∧ row.input idle s.clock = some row' ∧
      s.input idle k true a =
        { s with
          arrived := s.arrived.insert a.tokenHash s.clock
          met := s.met.insert k (s.clock, some row)
          sessions := s.sessions.insert a.tokenHash row'
          activities := s.activities.insert k
            { a with checked := some s.clock, isOpen := true } }) ∨
    ((∀ row, s.sessions.lookup a.tokenHash = some row → row.input idle s.clock = none) ∧
      s.input idle k true a =
        { s with
          arrived := s.arrived.insert a.tokenHash s.clock
          met := s.met.insert k (s.clock, s.sessions.lookup a.tokenHash)
          activities := s.activities.insert k
            { a with checked := some s.clock, isOpen := false } }) := by
  unfold Shared.input
  simp only [not_true_eq_false, if_false]
  by_cases hdue : a.Due s.clock
  · rw [if_neg (not_not.2 hdue)]
    split
    · rename_i row' hquery
      obtain ⟨row, hrow, hinput⟩ := Option.bind_eq_some_iff.1 hquery
      simp only at hrow hinput
      refine .inr (.inl ⟨row, row', hrow, hinput, ?_⟩)
      simp only [hrow]
    · rename_i hquery
      refine .inr (.inr ⟨fun row hrow => ?_, rfl⟩)
      have hbind := Option.bind_eq_none_iff.1 hquery
      exact hbind row hrow
  · rw [if_pos hdue]
    exact .inl ⟨hdue, rfl⟩

/-- A cached answer is less than a minute old. -/
theorem lt_of_not_due {a : Activity} {now : Int} (hdue : ¬a.Due now) :
    ∃ c, a.checked = some c ∧ now < c + minute := by
  unfold Activity.Due at hdue
  simp only [Option.mem_def, not_forall] at hdue
  obtain ⟨c, hc, hlt⟩ := hdue
  refine ⟨c, hc, ?_⟩
  unfold minute second at *
  split at hlt <;> omega

theorem past_input {k : Nat} {a : Activity} (hp : Past s) : Past (s.input idle k true a) := by
  have harrived : ∀ h t, (s.arrived.insert a.tokenHash s.clock).lookup h = some t →
      t ≤ s.clock := by
    intro h t ht
    rw [HashMap.lookup_insert_eq] at ht
    split at ht
    · cases ht
      exact le_refl _
    · exact hp.arrived h t ht
  have hchecked : ∀ {isOpen : Bool} k' act c, (s.activities.insert k
      { a with checked := some s.clock, isOpen }).lookup k' = some act → act.checked = some c →
      c ≤ s.clock := by
    intro isOpen k' act c hact hc
    rw [HashMap.lookup_insert_eq] at hact
    split at hact
    · cases hact
      cases hc
      exact le_refl _
    · exact hp.checked k' act c hact hc
  rcases input_cases idle s k a with ⟨-, heq⟩ | ⟨row, row', -, -, heq⟩ | ⟨-, heq⟩ <;> rw [heq]
  · exact ⟨harrived, hp.checked⟩
  · exact ⟨harrived, hchecked⟩
  · exact ⟨harrived, hchecked⟩

theorem inUse_input {k : Nat} {a : Activity} (hidle : 3 * minute ≤ idle)
    (hlongest : longest ≤ idle - 90 * second) (hu : InUse longest h s)
    (ha : s.activities.lookup k = some a) (hnewer : Newer longest s (s.input idle k true a) h) :
    InUse longest h (s.input idle k true a) := by
  have hpast : Past (s.input idle k true a) := past_input hu.past
  by_cases heq : h = a.tokenHash
  · subst heq
    rcases input_cases idle s k a with ⟨hdue, hs⟩ | ⟨row, row', hrow, hinput, hs⟩ | ⟨hnone, hs⟩ <;>
      rw [hs] at hnewer hpast ⊢
    · -- an answer that holds is of the last minute
      obtain ⟨c, hc, hlt⟩ := lt_of_not_due hdue
      refine .arrive hpast (AList.lookup_insert _) fun row hrow hexpires => ?_
      rcases hu.fresh row hrow hexpires with hseen | ⟨d, hback⟩
      · have hle := hseen.checked k a c ha rfl hc
        refine .inl ⟨fun t ht => ?_, hseen.checked⟩
        cases (AList.lookup_insert _).symm.trans ht
        omega
      · have hle := hback.checked k a c ha rfl hc
        refine .inr ⟨d, hback.seen, fun t ht => ?_, hback.checked⟩
        cases (AList.lookup_insert _).symm.trans ht
        omega
    · refine .arrive hpast (AList.lookup_insert _) fun row₁ hrow₁ _ => ?_
      cases (AList.lookup_insert _).symm.trans hrow₁
      exact hpast.fresh (input_eq_some hinput).2.2.2.2
    · refine .arrive hpast (AList.lookup_insert _) fun row hrow hexpires => ?_
      have hopen := hu.not_locked hidle hlongest hrow hexpires
      have hrefused := hnone row hrow
      unfold SessionRow.input at hrefused
      rw [if_pos ⟨hexpires, Int.not_le.1 hopen⟩] at hrefused
      cases hrefused
  · have hactivities : ∀ {isOpen : Bool} k' act c, (s.activities.insert k
        { a with checked := some s.clock, isOpen }).lookup k' = some act → act.tokenHash = h →
        act.checked = some c → s.activities.lookup k' = some act := by
      intro isOpen k' act c hact hhash _
      rw [HashMap.lookup_insert_eq] at hact
      split at hact
      · cases hact
        exact absurd hhash.symm heq
      · exact hact
    rcases input_cases idle s k a with ⟨-, hs⟩ | ⟨row, row', hrow, hinput, hs⟩ | ⟨-, hs⟩ <;>
      rw [hs] at hnewer hpast ⊢
    · exact hu.frame hpast rfl (AList.lookup_insert_ne heq) (fun _ _ _ hact _ _ => hact) id hnewer
    · refine hu.frame hpast rfl (AList.lookup_insert_ne heq) hactivities ?_ hnewer
      intro hin
      exact ((AList.mem_insert _).1 hin).resolve_left heq
    · exact hu.frame hpast rfl (AList.lookup_insert_ne heq) hactivities id hnewer

theorem mem_of_filter {p : SessionRow → Bool}
    (heq : s'.sessions.lookup h = (s.sessions.lookup h).filter p) (hin : h ∈ s'.sessions) :
    h ∈ s.sessions := by
  rw [← AList.lookup_isSome, heq] at hin
  obtain ⟨row, hrow⟩ := Option.isSome_iff_exists.1 hin
  exact mem_of_lookup (Option.filter_eq_some_iff.1 hrow).1

theorem inUse_outside (hidle : 3 * minute ≤ idle) (hpositive : 0 ≤ longest)
    (hlongest : longest ≤ idle - 90 * second) (hu : InUse longest h s)
    (hreachable : ∀ k reachable, e = .input k reachable → reachable = true)
    (harrives : ∀ clock, e = .tick clock → h ∈ s.sessions →
      ∀ a, s.arrived.lookup h = some a → clock ≤ a + 30 * second)
    (ho : s.outside idle max e = some s') : InUse longest h s' := by
  have hnewer : Newer longest s s' h := newer_outside hpositive ho
  have hpast := hu.past
  cases e with
  | tick clock =>
    simp only [Shared.outside] at ho
    split at ho
    · rename_i hle
      cases ho
      refine ⟨⟨fun h a ha => le_trans (hpast.arrived h a ha) hle,
        fun k act c hact hc => le_trans (hpast.checked k act c hact hc) hle⟩, fun hin => ?_,
        fun row hrow hexpires => ?_⟩
      · obtain ⟨a, ha, -⟩ := hu.arrived hin
        exact ⟨a, ha, harrives clock rfl hin a ha⟩
      · have hfresh := hu.fresh row hrow (lt_of_le_of_lt hle hexpires)
        exact hfresh.newer (le_refl _) rfl fun _ _ _ hact _ _ => hact
    · cases ho
  | create hash user client =>
    simp only [Shared.outside] at ho
    split at ho
    · cases ho
    · cases ho
      have hpast' : ∀ h' a, (s.arrived.insert hash s.clock).lookup h' = some a → a ≤ s.clock := by
        intro h' a ha
        rw [HashMap.lookup_insert_eq] at ha
        split at ha
        · cases ha
          exact le_refl _
        · exact hpast.arrived h' a ha
      by_cases heq : h = hash
      · subst heq
        refine .arrive ⟨hpast', hpast.checked⟩ (AList.lookup_insert _) fun row hrow _ => ?_
        cases (AList.lookup_insert _).symm.trans hrow
        refine Past.fresh ⟨hpast', hpast.checked⟩ ?_
        have : (0 : Int) < minute := by decide
        simp only
        omega
      · refine hu.frame ⟨hpast', hpast.checked⟩ rfl (AList.lookup_insert_ne heq)
          (fun k act c hact _ _ => hact) ?_ hnewer
        intro hin
        exact ((AList.mem_insert _).1 hin).resolve_left heq
  | delete hash =>
    cases ho
    exact hu.frame ⟨hpast.arrived, hpast.checked⟩ rfl rfl (fun _ _ _ hact _ _ => hact)
      (fun hin => (AList.mem_erase.1 hin).2) hnewer
  | endSessions user =>
    cases ho
    exact hu.frame ⟨hpast.arrived, hpast.checked⟩ rfl rfl (fun _ _ _ hact _ _ => hact)
      (mem_of_filter Shared.lookup_endSessions) hnewer
  | block user =>
    cases ho
    exact hu.frame ⟨hpast.arrived, hpast.checked⟩ rfl rfl (fun _ _ _ hact _ _ => hact) id hnewer
  | unblock user =>
    cases ho
    exact hu.frame ⟨hpast.arrived, hpast.checked⟩ rfl rfl (fun _ _ _ hact _ _ => hact) id hnewer
  | connect k hash =>
    simp only [Shared.outside] at ho
    split at ho
    · cases ho
    · cases ho
      -- a new activity has made no query yet
      have hold : ∀ k' act c, (s.activities.insert k ({ tokenHash := hash } : Activity)).lookup k' =
          some act → act.checked = some c → s.activities.lookup k' = some act := by
        intro k' act c hact hc
        rw [HashMap.lookup_insert_eq] at hact
        split at hact
        · cases hact
          cases hc
        · exact hact
      refine hu.frame ⟨hpast.arrived, fun k' act c hact hc => ?_⟩ rfl rfl
        (fun k' act c hact _ hc => hold k' act c hact hc) id hnewer
      exact hpast.checked k' act c (hold k' act c hact hc) hc
  | input k reachable =>
    obtain ⟨a, ha, rfl⟩ := Option.map_eq_some_iff.1 ho
    obtain rfl := hreachable k reachable rfl
    exact inUse_input hidle hlongest hu ha hnewer
  | purge =>
    cases ho
    exact hu.frame ⟨hpast.arrived, hpast.checked⟩ rfl rfl (fun _ _ _ hact _ _ => hact)
      (mem_of_filter Shared.lookup_purge) hnewer

theorem Flight.Recent.later {k : Nat} (hf : f.Recent longest k s) (hle : s.clock ≤ s'.clock)
    (hrecent : ∀ hash right began, f = .commit hash right began → s'.clock ≤ began + longest) :
    f.Recent longest k s' := by
  cases f with
  | commit hash right began => exact ⟨le_trans hf.1 hle, hrecent hash right began rfl⟩
  | _ => trivial

/-- Confirmations on their way stay recent. -/
theorem recent_outside {w : World Shared Flight} (hw : ∀ k f, w.flights.lookup k = some f →
      f.Recent longest k w.shared) (hC : Prompt longest w (.outside e)) (ho : w.shared.outside idle max e = some s') :
    ∀ k g, w.flights.lookup k = some g → g.Recent longest k s' := by
  intro k g hg
  refine (hw k g hg).later (outside_cases ho).1 fun hash right began heq => ?_
  subst heq
  have hrecent := (hw k _ hg).2
  cases e with
  | tick clock =>
    simp only [Shared.outside] at ho
    split at ho
    · cases ho
      exact hC k hash right began hg
    · cases ho
  | input k' reachable =>
    obtain ⟨a, -, rfl⟩ := Option.map_eq_some_iff.1 ho
    rw [Shared.input_clock]
    exact hrecent
  | create hash' user client =>
    simp only [Shared.outside] at ho
    split at ho
    · cases ho
    · cases ho
      exact hrecent
  | connect k' hash' =>
    simp only [Shared.outside] at ho
    split at ho
    · cases ho
    · cases ho
      exact hrecent
  | _ =>
    cases ho
    exact hrecent

theorem recent_others {w : World Shared Flight} {k : Nat}
    (hw : ∀ k f, w.flights.lookup k = some f → f.Recent longest k w.shared)
    (hn : Flight.next idle w.shared f = some (s', o)) :
    ∀ k' g, k' ≠ k → w.flights.lookup k' = some g → g.Recent longest k' s' := by
  intro k' g _ hg
  have hclock := next_clock hn
  refine (hw k' g hg).later (le_of_eq hclock.symm) fun hash right began heq => ?_
  subst heq
  rw [hclock]
  exact (hw k' _ hg).2

variable {w w' : World Shared Flight} {es : List (Interleave.Event Flight Outside)}

theorem recent_start {k : Nat} (hf : f.isNew = true) : f.Recent longest k s := by
  cases f with
  | find hash keepAlive answer => trivial
  | _ => cases hf

theorem inUse_run {clock : Int} (hidle : 3 * minute ≤ idle) (hpositive : 0 ≤ longest)
    (hlongest : longest ≤ idle - 90 * second)
    (hm : Run.Meets (step (system idle max)) (fun w ev => Active h w ev ∧ Prompt longest w ev)
      (World.quiet { clock }) es)
    (hr : Run.run (step (system idle max)) (World.quiet { clock }) es = some w) :
    Holds (InUse longest h) (Flight.Recent longest) w := by
  have hstart : InUse longest h { clock } := by
    refine ⟨⟨?_, ?_⟩, ?_, ?_⟩
    · intro h a ha
      cases ha
    · intro k act c hact
      cases hact
    · intro hin
      cases hin
    · intro row hrow
      cases hrow
  refine Run.inv_of_meets (I := fun _ w => Holds (InUse longest h) (Flight.Recent longest) w)
    (Holds.quiet hstart) ?_ hm hr
  intro _ t ev t' _ hC hs ht
  refine ht.step hs (fun k f hf => recent_start hf) ?_ ?_
  · intro k f s o _ hf hn
    exact ⟨inUse_next hidle hlongest ht.shared (ht.flights k f hf) hn, recent_next hpositive hn,
      recent_others ht.flights hn⟩
  · intro e s he ho
    subst he
    refine ⟨inUse_outside hidle hpositive hlongest ht.shared ?_ ?_ ho,
      recent_outside ht.flights hC.2 ho⟩
    · intro k reachable heq
      subst heq
      exact hC.2
    · intro clock heq
      subst heq
      exact hC.1 clock rfl

/-- In the runs that meet `C`, a session in use is never found locked. -/
def StaysOpen (config : SessionConfig)
    (C : World Shared Flight → Interleave.Event Flight Outside → Prop) : Prop :=
  ∀ clock h es w,
    Run.run (step (system config.idle config.max)) (World.quiet { clock }) es = some w →
    Run.Meets (step (system config.idle config.max)) (fun w ev => Active h w ev ∧ C w ev)
      (World.quiet { clock }) es →
    ∀ session, w.shared.byHash config.idle h = some session → session.locked = false

/-- An input in the first minute changes nothing: the session was seen less than a minute ago. -/
def busyMinute : List (Interleave.Event Flight Outside) :=
  [.outside (.create [] 0 .web), .outside (.connect 0 []), .outside (.tick (30 * second)),
    .outside (.input 0 true), .outside (.tick (60 * second))]

/-- The query at the end of the first minute changes nothing, and its answer holds for the next
one. -/
def busyTwoMinutes : List (Interleave.Event Flight Outside) :=
  [.outside (.create [] 0 .web), .outside (.connect 0 []), .outside (.connect 1 []),
    .outside (.tick (30 * second)), .outside (.input 0 true),
    .outside (.tick (60 * second)), .outside (.input 1 true),
    .outside (.tick (90 * second)), .outside (.input 1 true),
    .outside (.tick (119 * second)), .outside (.input 1 true), .outside (.tick (120 * second))]

theorem step_input {k : Nat} {a : Activity} {row : SessionRow}
    (ha : w.shared.activities.lookup k = some a) (hdue : a.Due w.shared.clock)
    (hrow : w.shared.sessions.lookup a.tokenHash = some row)
    (hexpires : w.shared.clock < row.expiresAt) (hidle : w.shared.clock - idle < row.lastSeenAt)
    (hrecent : ¬row.lastSeenAt < w.shared.clock - minute) :
    step (system idle max) w (.outside (.input k true)) = some { w with shared :=
      { w.shared with
        arrived := w.shared.arrived.insert a.tokenHash w.shared.clock
        met := w.shared.met.insert k (w.shared.clock, some row)
        sessions := w.shared.sessions.insert a.tokenHash row
        activities := w.shared.activities.insert k
          { a with checked := some w.shared.clock, isOpen := true } } } := by
  simp [step, system, Shared.outside, ha, Shared.input, hdue, Shared.query, hrow, SessionRow.input,
    hexpires, hidle, hrecent]

theorem byHash_locked {row : SessionRow} (hrow : s.sessions.lookup h = some row)
    (hblocked : row.userId ∉ s.blocked) (hexpires : s.clock < row.expiresAt)
    (hclient : row.client = .web) (hlocked : row.Locked idle s.clock) :
    ∃ session, s.byHash idle h = some session ∧ session.locked = true := by
  simp [Shared.byHash, hrow, hblocked, hexpires, hclient, hlocked]

theorem active_tick {clock arrived : Int} (hquiet : w.flights = ∅)
    (harrived : w.shared.arrived.lookup h = some arrived) (hle : clock ≤ arrived + 30 * second) :
    Active h w (.outside (.tick clock)) ∧ Prompt longest w (.outside (.tick clock)) := by
  refine ⟨fun clock' heq _ arrived' harrived' => ?_, fun k hash right began hf => ?_⟩
  · cases heq
    rw [harrived] at harrived'
    cases harrived'
    exact hle
  · rw [hquiet] at hf
    cases hf

theorem locked_after_busyMinute (hmax : 60 * minute ≤ max) :
    ∃ w, Run.run (step (system minute max)) (World.quiet { clock := 0 }) busyMinute = some w ∧
      Run.Meets (step (system minute max)) (fun w ev => Active [] w ev ∧ Prompt longest w ev)
        (World.quiet { clock := 0 }) busyMinute ∧
      ∃ session, w.shared.byHash minute [] = some session ∧ session.locked = true := by
  have h30 : 30 * second < 0 + max := by unfold minute second at *; omega
  have h60 : 60 * second < 0 + max := by unfold minute second at *; omega
  have hidle : 30 * second - minute < 0 := by decide
  have hrecent : ¬(0 : Int) < 30 * second - minute := by decide
  have hlocked : (0 : Int) ≤ 60 * second - minute := by decide
  refine Run.reaches_cons rfl ⟨nofun, trivial⟩ ?_
  refine Run.reaches_cons rfl ⟨nofun, trivial⟩ ?_
  refine Run.reaches_cons rfl (active_tick rfl rfl (le_refl (30 * second))) ?_
  refine Run.reaches_cons (step_input rfl nofun rfl h30 hidle hrecent) ⟨nofun, rfl⟩ ?_
  refine Run.reaches_cons rfl (active_tick rfl rfl (le_refl (60 * second))) ?_
  exact ⟨_, rfl, trivial, byHash_locked rfl List.not_mem_nil h60 rfl hlocked⟩

theorem locked_after_busyTwoMinutes (hmax : 60 * minute ≤ max) :
    ∃ w, Run.run (step (system (2 * minute) max)) (World.quiet { clock := 0 }) busyTwoMinutes =
        some w ∧
      Run.Meets (step (system (2 * minute) max)) (fun w ev => Active [] w ev ∧ Prompt longest w ev)
        (World.quiet { clock := 0 }) busyTwoMinutes ∧
      ∃ session, w.shared.byHash (2 * minute) [] = some session ∧ session.locked = true := by
  have h30 : 30 * second < 0 + max := by unfold minute second at *; omega
  have h60 : 60 * second < 0 + max := by unfold minute second at *; omega
  have h120 : 120 * second < 0 + max := by unfold minute second at *; omega
  have hidle30 : 30 * second - 2 * minute < 0 := by decide
  have hidle60 : 60 * second - 2 * minute < 0 := by decide
  have hrecent30 : ¬(0 : Int) < 30 * second - minute := by decide
  have hrecent60 : ¬(0 : Int) < 60 * second - minute := by decide
  have hlocked : (0 : Int) ≤ 120 * second - 2 * minute := by decide
  have hsoon : 119 * second ≤ 90 * second + 30 * second := by decide
  have hsooner : 120 * second ≤ 119 * second + 30 * second := by decide
  refine Run.reaches_cons rfl ⟨nofun, trivial⟩ ?_
  refine Run.reaches_cons rfl ⟨nofun, trivial⟩ ?_
  refine Run.reaches_cons rfl ⟨nofun, trivial⟩ ?_
  refine Run.reaches_cons rfl (active_tick rfl rfl (le_refl (30 * second))) ?_
  refine Run.reaches_cons (step_input rfl nofun rfl h30 hidle30 hrecent30) ⟨nofun, rfl⟩ ?_
  refine Run.reaches_cons rfl (active_tick rfl rfl (le_refl (60 * second))) ?_
  refine Run.reaches_cons (step_input rfl nofun rfl h60 hidle60 hrecent60) ⟨nofun, rfl⟩ ?_
  refine Run.reaches_cons rfl (active_tick rfl rfl (le_refl (90 * second))) ?_
  -- the answer of the last query still holds
  refine Run.reaches_cons rfl ⟨nofun, rfl⟩ ?_
  refine Run.reaches_cons rfl (active_tick rfl rfl hsoon) ?_
  refine Run.reaches_cons rfl ⟨nofun, rfl⟩ ?_
  refine Run.reaches_cons rfl (active_tick rfl rfl hsooner) ?_
  exact ⟨_, rfl, trivial, byHash_locked rfl List.not_mem_nil h120 rfl hlocked⟩

theorem SessionConfig.hour_le_max (config : SessionConfig) : 60 * minute ≤ config.max := by
  have haccepted := config.accepted
  have hone : (1 : Int) ≤ config.maxHours := by omega
  unfold SessionConfig.max minute second
  omega

theorem not_staysOpen_of_run {config : SessionConfig}
    {C : World Shared Flight → Interleave.Event Flight Outside → Prop}
    (ev : List (Interleave.Event Flight Outside))
    (hlocked : ∃ w, Run.run (step (system config.idle config.max)) (World.quiet { clock := 0 }) ev =
        some w ∧
      Run.Meets (step (system config.idle config.max)) (fun w ev => Active [] w ev ∧ C w ev)
        (World.quiet { clock := 0 }) ev ∧
      ∃ session, w.shared.byHash config.idle [] = some session ∧ session.locked = true) :
    ¬StaysOpen config C := by
  intro hstays
  obtain ⟨w, hr, hm, session, hfound, hlocked⟩ := hlocked
  have hopen := hstays 0 [] ev w hr hm session hfound
  rw [hlocked] at hopen
  cases hopen

/-- **Active sessions stay open** exactly if the idle time is three minutes or more, where the database answers
and confirmations are committed at most the idle time less 90 seconds after they began. -/
theorem active_sessions_stay_open (config : SessionConfig) :
    StaysOpen config (Prompt (config.idle - 90 * second)) ↔ 3 ≤ config.idleMinutes := by
  constructor
  · intro hstays
    by_contra hshort
    have hidle : config.idleMinutes = 1 ∨ config.idleMinutes = 2 := by
      have haccepted := config.accepted
      omega
    rcases hidle with hone | htwo
    · have heq : config.idle = minute := by unfold SessionConfig.idle; rw [hone]; simp
      refine not_staysOpen_of_run busyMinute ?_ hstays
      rw [heq]
      exact locked_after_busyMinute config.hour_le_max
    · have heq : config.idle = 2 * minute := by unfold SessionConfig.idle; rw [htwo]; rfl
      refine not_staysOpen_of_run busyTwoMinutes ?_ hstays
      rw [heq]
      exact locked_after_busyTwoMinutes config.hour_le_max
  · intro hlong clock h es w hr hm session hfound
    have hidle : 3 * minute ≤ config.idle := by
      have hcast : (3 : Int) ≤ config.idleMinutes := by exact_mod_cast hlong
      unfold SessionConfig.idle minute second
      omega
    have hpositive : 0 ≤ config.idle - 90 * second := by
      unfold minute second at *
      omega
    have hu := (inUse_run hidle hpositive (le_refl _) hm hr).shared
    obtain ⟨row, hrow, -, hexpires, -, rfl⟩ := Shared.byHash_eq_some hfound
    simpa using hu.not_locked hidle (le_refl _) hrow hexpires

/-- An idle time of one minute. -/
def shortIdle : SessionConfig := ⟨1, 12, by decide⟩

theorem busy_session_locks : ¬StaysOpen shortIdle fun _ _ => True := by
  obtain ⟨w, hr, hm, hlocked⟩ :=
    @locked_after_busyMinute shortIdle.max minute (by decide)
  exact not_staysOpen_of_run busyMinute
    ⟨w, hr, hm.mono fun _ _ h => ⟨h.1, trivial⟩, hlocked⟩

/-! ## Input into connections -/

/-- What an activity knows: the row that its last query met, which was open if the answer was, and
then was not seen longer ago than a confirmation may last. -/
structure Knows (idle longest : Int) (s : Shared) (k : Nat) (a : Activity) (c : Int) : Prop where
  past : c ≤ s.clock
  met : ∃ found, s.met.lookup k = some (c, found) ∧
    (a.isOpen = true → ∃ row, found = some row ∧ c < row.expiresAt ∧ ¬row.Locked idle c)
  seen : a.isOpen = true → ∀ row, s.sessions.lookup a.tokenHash = some row →
    c - longest ≤ row.lastSeenAt

structure Asked (idle longest : Int) (s : Shared) : Prop where
  knows : ∀ k a c, s.activities.lookup k = some a → a.checked = some c → Knows idle longest s k a c
  asked : ∀ k c found, s.met.lookup k = some (c, found) →
    ∃ a, s.activities.lookup k = some a ∧ a.checked = some c

theorem Knows.later {k : Nat} {a : Activity} {c : Int} (hk : Knows idle longest s k a c)
    (hclock : s.clock ≤ s'.clock) (hmet : s'.met.lookup k = s.met.lookup k)
    (hnewer : Newer longest s s' a.tokenHash) : Knows idle longest s' k a c := by
  refine ⟨le_trans hk.past hclock, ?_, fun hopen row' hrow' => ?_⟩
  · rw [hmet]
    exact hk.met
  · rcases hnewer row' hrow' with ⟨row, hrow, hle, -⟩ | hrecent
    · exact le_trans (hk.seen hopen row hrow) hle
    · have hpast := hk.past
      omega

/-- A step that is no query. -/
theorem Asked.frame (ha : Asked idle longest s) (hclock : s.clock ≤ s'.clock) (hmet : s'.met = s.met)
    (hactivities : ∀ k a c, s'.activities.lookup k = some a → a.checked = some c →
      s.activities.lookup k = some a)
    (hkept : ∀ k a, s.activities.lookup k = some a → s'.activities.lookup k = some a)
    (hnewer : ∀ h, Newer longest s s' h) : Asked idle longest s' := by
  refine ⟨fun k a c hact hc => ?_, fun k c found hfound => ?_⟩
  · exact (ha.knows k a c (hactivities k a c hact hc) hc).later hclock (by rw [hmet])
      (hnewer a.tokenHash)
  · rw [hmet] at hfound
    obtain ⟨a, hact, hc⟩ := ha.asked k c found hfound
    exact ⟨a, hkept k a hact, hc⟩

theorem asked_next {k : Nat} (ha : Asked idle longest s) (hf : f.Recent longest k s)
    (hn : Flight.next idle s f = some (s', o)) : Asked idle longest s' := by
  have hnewer : ∀ h, Newer longest s s' h := fun h => newer_next hf hn
  rcases next_cases hn with rfl | ⟨hash, answer, rfl, rfl⟩ | ⟨hash, right, began, rfl, rfl⟩
  · exact ha
  · exact ha.frame (le_refl _) rfl (fun _ _ _ hact _ => hact) (fun _ _ hact => hact) hnewer
  · unfold Shared.confirm at hnewer ⊢
    split at hnewer <;>
      exact ha.frame (le_refl _) rfl (fun _ _ _ hact _ => hact) (fun _ _ hact => hact) hnewer

/-- A query, whatever it finds. -/
theorem Asked.query {k : Nat} {a : Activity} {isOpen : Bool} {found : Option SessionRow}
    {sessions : HashMap Bytes SessionRow} {arrived : HashMap Bytes Int} (ha : Asked idle longest s)
    (hopen : isOpen = true → ∃ row, found = some row ∧ s.clock < row.expiresAt ∧
      ¬row.Locked idle s.clock)
    (hseen : isOpen = true → ∀ row, sessions.lookup a.tokenHash = some row →
      s.clock - longest ≤ row.lastSeenAt)
    (hnewer : ∀ h, Newer longest s { s with sessions } h) :
    Asked idle longest { s with
      sessions, arrived
      met := s.met.insert k (s.clock, found)
      activities := s.activities.insert k { a with checked := some s.clock, isOpen } } := by
  refine ⟨fun k' a' c hact hc => ?_, fun k' c found' hfound => ?_⟩
  · rw [HashMap.lookup_insert_eq] at hact
    by_cases heq : k' = k
    · subst heq
      rw [if_pos rfl] at hact
      cases hact
      cases hc
      exact ⟨le_refl _, ⟨found, AList.lookup_insert _, hopen⟩, hseen⟩
    · rw [if_neg heq] at hact
      refine (ha.knows k' a' c hact hc).later (le_refl _) (AList.lookup_insert_ne heq) ?_
      exact hnewer a'.tokenHash
  · rw [HashMap.lookup_insert_eq] at hfound
    simp only [HashMap.lookup_insert_eq]
    by_cases heq : k' = k
    · subst heq
      rw [if_pos rfl] at hfound
      cases hfound
      exact ⟨_, if_pos rfl, rfl⟩
    · rw [if_neg heq] at hfound ⊢
      exact ha.asked k' c found' hfound

theorem asked_input {k : Nat} {a : Activity} (hlongest : minute ≤ longest) (ha : Asked idle longest s)
    (hnewer : ∀ h, Newer longest s (s.input idle k true a) h) : Asked idle longest (s.input idle k true a) := by
  rcases input_cases idle s k a with ⟨-, hs⟩ | ⟨row, row', hrow, hinput, hs⟩ | ⟨-, hs⟩ <;>
    rw [hs] at hnewer ⊢
  · exact ha.frame (le_refl _) rfl (fun _ _ _ hact _ => hact) (fun _ _ hact => hact) hnewer
  · obtain ⟨-, -, hexpires, -, hseen⟩ := input_eq_some hinput
    refine ha.query (fun _ => ⟨row, rfl, hexpires, ?_⟩) (fun _ row₁ hrow₁ => ?_) hnewer
    · intro hlocked
      rw [input_of_locked hlocked] at hinput
      cases hinput
    · cases (AList.lookup_insert _).symm.trans hrow₁
      omega
  · exact ha.query (fun hopen => by cases hopen) (fun hopen => by cases hopen) hnewer

theorem asked_outside (hlongest : minute ≤ longest) (ha : Asked idle longest s)
    (hreachable : ∀ k reachable, e = .input k reachable → reachable = true)
    (ho : s.outside idle max e = some s') : Asked idle longest s' := by
  have hnewer : ∀ h, Newer longest s s' h := fun h => newer_outside (le_trans (by decide) hlongest) ho
  have hclock := (outside_cases ho).1
  cases e with
  | tick clock =>
    simp only [Shared.outside] at ho
    split at ho
    · cases ho
      exact ha.frame hclock rfl (fun _ _ _ hact _ => hact) (fun _ _ hact => hact) hnewer
    · cases ho
  | create hash user client =>
    simp only [Shared.outside] at ho
    split at ho
    · cases ho
    · cases ho
      exact ha.frame hclock rfl (fun _ _ _ hact _ => hact) (fun _ _ hact => hact) hnewer
  | connect k hash =>
    simp only [Shared.outside] at ho
    split at ho
    · cases ho
    · rename_i hnew
      cases ho
      refine ha.frame hclock rfl (fun k' a c hact hc => ?_) (fun k' a hact => ?_) hnewer
      · rw [HashMap.lookup_insert_eq] at hact
        split at hact
        · cases hact
          cases hc
        · exact hact
      · rw [HashMap.lookup_insert_eq, if_neg, hact]
        intro heq
        subst heq
        rw [← AList.lookup_isSome, hact] at hnew
        exact hnew rfl
  | input k reachable =>
    obtain ⟨a, -, rfl⟩ := Option.map_eq_some_iff.1 ho
    obtain rfl := hreachable k reachable rfl
    exact asked_input hlongest ha hnewer
  | _ =>
    cases ho
    exact ha.frame hclock rfl (fun _ _ _ hact _ => hact) (fun _ _ hact => hact) hnewer

theorem asked_run {clock : Int} (hlongest : minute ≤ longest)
    (hm : Run.Meets (step (system idle max)) (Prompt longest) (World.quiet { clock }) es)
    (hr : Run.run (step (system idle max)) (World.quiet { clock }) es = some w) :
    Asked idle longest w.shared := by
  have hstart : Asked idle longest { clock } := by
    refine ⟨?_, ?_⟩
    · intro k a c hact
      cases hact
    · intro k c found hfound
      cases hfound
  refine (Run.inv_of_meets (I := fun _ w => Holds (Asked idle longest) (Flight.Recent longest) w)
    (Holds.quiet hstart) ?_ hm hr).shared
  intro _ t ev t' _ hC hs ht
  refine ht.step hs (fun k f hf => recent_start hf) ?_ ?_
  · intro k f s o _ hf hn
    exact ⟨asked_next ht.shared (ht.flights k f hf) hn,
      recent_next (le_trans (by decide) hlongest) hn, recent_others ht.flights hn⟩
  · intro e s he ho
    subst he
    refine ⟨asked_outside hlongest ht.shared ?_ ho, recent_outside ht.flights hC ho⟩
    intro k reachable heq
    subst heq
    exact hC

/-- What `input` answers: an answer that it may go on comes from a session that is not locked and
whose row was there within the last minute, and a session that was locked at the last query and is
locked now gets none. The runs are those that meet `C`. -/
def KeepsInput (config : SessionConfig)
    (C : World Shared Flight → Interleave.Event Flight Outside → Prop) : Prop :=
  ∀ clock es w,
    Run.run (step (system config.idle config.max)) (World.quiet { clock }) es = some w →
    Run.Meets (step (system config.idle config.max)) C (World.quiet { clock }) es →
    ∀ k w' a, step (system config.idle config.max) w (.outside (.input k true)) = some w' →
      w'.shared.activities.lookup k = some a →
      (a.isOpen = true →
        (∀ row, w'.shared.sessions.lookup a.tokenHash = some row →
          ¬row.Locked config.idle w'.shared.clock) ∧
        ∃ c row, w'.shared.met.lookup k = some (c, some row) ∧ w'.shared.clock - 60 * second < c ∧
          c ≤ w'.shared.clock ∧ c < row.expiresAt) ∧
      ∀ row c before, w.shared.sessions.lookup a.tokenHash = some row →
        row.Locked config.idle w.shared.clock → w.shared.met.lookup k = some (c, some before) →
        before.Locked config.idle c → a.isOpen = false

/-- The answer of a query in the first minute holds beyond it. -/
def staleAnswer : List (Interleave.Event Flight Outside) :=
  [.outside (.create [] 0 .web), .outside (.connect 0 []), .outside (.tick second),
    .outside (.input 0 true), .outside (.tick (60 * second))]

theorem open_after_staleAnswer (hmax : 60 * minute ≤ max) :
    ∃ w w' a, Run.run (step (system minute max)) (World.quiet { clock := 0 }) staleAnswer = some w ∧
      Run.Meets (step (system minute max)) (Prompt longest) (World.quiet { clock := 0 })
        staleAnswer ∧
      step (system minute max) w (.outside (.input 0 true)) = some w' ∧
      w'.shared.activities.lookup 0 = some a ∧ a.isOpen = true ∧
      ∃ row, w'.shared.sessions.lookup a.tokenHash = some row ∧
        row.Locked minute w'.shared.clock := by
  have hsecond : (1000000 : Int) < max := by unfold minute second at hmax; omega
  simp [-AList.insert_empty, staleAnswer, Run.run, Run.Meets, Prompt, step, system,
    Shared.outside, World.quiet, Shared.input, Shared.query, Activity.Due, SessionRow.input,
    SessionRow.Locked, second, minute, hsecond]

theorem not_keepsInput_of_minute {config : SessionConfig} (hone : config.idleMinutes = 1)
    {C : World Shared Flight → Interleave.Event Flight Outside → Prop}
    (hC : ∀ w ev, Prompt (config.idle - minute) w ev → C w ev) : ¬KeepsInput config C := by
  intro hkeeps
  have heq : config.idle = minute := by unfold SessionConfig.idle; rw [hone]; simp
  obtain ⟨w, w', a, hr, hm, hs, ha, hopen, row, hrow, hlocked⟩ :=
    open_after_staleAnswer config.hour_le_max
  rw [← heq] at hr hm hs hlocked
  exact ((hkeeps 0 staleAnswer w hr (hm.mono hC) 0 w' a hs ha).1 hopen).1 row hrow hlocked

/-- An answer that an input may go on. -/
theorem Asked.answer {k : Nat} {a a' : Activity} (ha : Asked idle longest s)
    (hact : s.activities.lookup k = some a) (hlongest : longest ≤ idle - minute)
    (hact' : (s.input idle k true a).activities.lookup k = some a') (hopen : a'.isOpen = true) :
    (∀ row, (s.input idle k true a).sessions.lookup a'.tokenHash = some row →
      ¬row.Locked idle s.clock) ∧
    ∃ c row, (s.input idle k true a).met.lookup k = some (c, some row) ∧ s.clock - minute < c ∧
      c ≤ s.clock ∧ c < row.expiresAt := by
  rcases input_cases idle s k a with ⟨hdue, hs⟩ | ⟨row, row', hrow, hinput, hs⟩ | ⟨-, hs⟩ <;>
    rw [hs] at hact' ⊢
  · cases hact.symm.trans hact'
    obtain ⟨c, hc, hlt⟩ := lt_of_not_due hdue
    obtain ⟨hpast, ⟨found, hmet, hrow⟩, hseen⟩ := ha.knows k a c hact hc
    obtain ⟨row, rfl, hexpires, -⟩ := hrow hopen
    refine ⟨fun row₁ hrow₁ hlocked => ?_, c, row, hmet, by omega, hpast, hexpires⟩
    have hseen := hseen hopen row₁ hrow₁
    unfold SessionRow.Locked at hlocked
    omega
  · cases (AList.lookup_insert _).symm.trans hact'
    obtain ⟨-, -, hexpires, hafter, -⟩ := input_eq_some hinput
    have : (0 : Int) < minute := by decide
    refine ⟨fun row₁ hrow₁ => ?_, s.clock, row, AList.lookup_insert _, by omega, le_refl _, hexpires⟩
    cases (AList.lookup_insert _).symm.trans hrow₁
    exact Int.not_le.2 hafter
  · cases (AList.lookup_insert _).symm.trans hact'
    cases hopen

/-- A session that was locked at the last query and is locked now. -/
theorem Asked.refusal {k : Nat} {a a' : Activity} {c : Int} {before : SessionRow}
    (ha : Asked idle longest s) (hact : s.activities.lookup k = some a)
    (hact' : (s.input idle k true a).activities.lookup k = some a')
    (hrow : s.sessions.lookup a'.tokenHash = some row) (hlocked : row.Locked idle s.clock)
    (hmet : s.met.lookup k = some (c, some before)) (hbefore : before.Locked idle c) :
    a'.isOpen = false := by
  rcases input_cases idle s k a with ⟨-, hs⟩ | ⟨row₀, row', hrow₀, hinput, hs⟩ | ⟨-, hs⟩ <;>
    rw [hs] at hact'
  · cases hact.symm.trans hact'
    obtain ⟨a₀, hact₀, hc⟩ := ha.asked k c (some before) hmet
    cases hact.symm.trans hact₀
    obtain ⟨found, hfound, hopen⟩ := (ha.knows k a c hact hc).met
    cases hmet.symm.trans hfound
    cases hanswer : a.isOpen with
    | false => rfl
    | true =>
      obtain ⟨row₁, hrow₁, -, hnot⟩ := hopen hanswer
      cases hrow₁
      exact absurd hbefore hnot
  · cases (AList.lookup_insert _).symm.trans hact'
    cases hrow₀.symm.trans hrow
    rw [input_of_locked hlocked] at hinput
    cases hinput
  · cases (AList.lookup_insert _).symm.trans hact'
    rfl

/-- **A locked session keeps input from devices** exactly if the idle time is two minutes or more, where the
database answers and confirmations are committed at most the idle time less a minute after they began. -/
theorem locked_sessions_keep_input (config : SessionConfig) :
    KeepsInput config (Prompt (config.idle - minute)) ↔ 2 ≤ config.idleMinutes := by
  constructor
  · intro hkeeps
    by_contra hshort
    have haccepted := config.accepted
    exact not_keepsInput_of_minute (by omega) (fun _ _ h => h) hkeeps
  · intro hlong clock es w hr hm k w' a' hs ha'
    have hidle : 2 * minute ≤ config.idle := by
      have hcast : (2 : Int) ≤ config.idleMinutes := by exact_mod_cast hlong
      unfold SessionConfig.idle minute second
      omega
    have hasked := asked_run (by omega) hm hr
    obtain ⟨s', ho, rfl⟩ := Option.map_eq_some_iff.1 hs
    obtain ⟨a, hact, rfl⟩ := Option.map_eq_some_iff.1 ho
    refine ⟨fun hopen => ?_, fun row c before hrow hlocked hmet hbefore => ?_⟩
    · simp only [Shared.input_clock]
      exact hasked.answer hact (le_refl _) ha' hopen
    · exact hasked.refusal hact ha' hrow hlocked hmet hbefore

theorem stale_answer_reaches_device : ¬KeepsInput shortIdle Reachable :=
  not_keepsInput_of_minute rfl fun _ _ h => h.reachable

end Server.Sessions
