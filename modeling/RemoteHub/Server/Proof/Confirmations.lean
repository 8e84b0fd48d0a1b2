import RemoteHub.Server.Confirmations
import RemoteHub.Server.Proof.Sessions

/-!
# Confirmations behave like one after the other

Who has written a session's row has locked it, and the row is still the one it found (`Ready`); so
each commit is a step of the sequential machine on what was committed before (`Counted`).
`exists_iff` reads the machine: a session is there until five wrong answers in a row. The row keeps
the time at which the last right attempt began, not its commit (`confirmed_at_is_not_the_commit`).
-/

namespace Server.Confirmations

open Model Sessions Interleave

variable {idle max : Int} {s s' : Shared} {k k' : Nat} {f : Flight} {o : Option Flight} {e : Outside}
  {h hash : Bytes} {row : SessionRow}

/-! ## The sequential machine -/

/-- The wrong answers since the last right one. -/
def wrongSince (answers : List Bool) : Nat := (answers.reverse.takeWhile (! ·)).length

theorem wrongSince_right (l : List Bool) : wrongSince (l ++ [true]) = 0 := by
  simp [wrongSince]

theorem wrongSince_wrong (l : List Bool) : wrongSince (l ++ [false]) = wrongSince l + 1 := by
  simp [wrongSince]

theorem replicate_suffix_iff (n : Nat) (l : List Bool) :
    List.replicate n false <:+ l ↔ n ≤ wrongSince l := by
  induction l using List.reverseRecOn generalizing n with
  | nil =>
    cases n with
    | zero => simp [wrongSince]
    | succ n => simp [wrongSince]
  | append_singleton l a ih =>
    cases n with
    | zero => simp
    | succ n =>
      rw [List.replicate_succ', List.suffix_concat_iff]
      cases a with
      | true => simp [wrongSince_right]
      | false =>
        rw [wrongSince_wrong, Nat.add_le_add_iff_right, ← ih n]
        simp

/-- Five wrong answers in a row. -/
def FiveWrong (answers : List Bool) : Prop := List.replicate 5 false <:+: answers

theorem fiveWrong_concat (l : List Bool) (a : Bool) :
    FiveWrong (l ++ [a]) ↔ FiveWrong l ∨ 5 ≤ wrongSince (l ++ [a]) := by
  unfold FiveWrong
  rw [List.infix_concat_iff, replicate_suffix_iff, or_comm]

theorem answers_append (l : List Commit) (c : Commit) :
    answers (l ++ [c]) = answers l ++ (answers [c]) := by
  simp [answers, List.filterMap_append]

theorem lastRight_right (l : List Commit) (began committed : Int) :
    lastRight (l ++ [.attempt true began committed]) = some (began, committed) := by
  simp [lastRight]

theorem lastRight_wrong (l : List Commit) (began committed : Int) :
    lastRight (l ++ [.attempt false began committed]) = lastRight l := by
  simp [lastRight]

/-- What the machine has counted. -/
theorem machine_spec (l : List Commit) :
    (∀ c, l.foldl Count.step (some {}) = some c → Commit.ended ∉ l ∧ ¬FiveWrong (answers l) ∧
      c.failures = wrongSince (answers l) ∧ c.confirmedAt = (lastRight l).map (·.1)) ∧
    (l.foldl Count.step (some {}) = none → Commit.ended ∈ l ∨ FiveWrong (answers l)) := by
  induction l using List.reverseRecOn with
  | nil =>
    refine ⟨fun c hc => ?_, fun hnone => ?_⟩
    · cases hc
      simp [answers, FiveWrong, wrongSince, lastRight]
    · cases hnone
  | append_singleton l entry ih =>
    rw [List.foldl_append, List.foldl_cons, List.foldl_nil]
    cases hfold : l.foldl Count.step (some {}) with
    | none =>
      refine ⟨fun c hc => (by cases hc), fun _ => ?_⟩
      rcases ih.2 hfold with hended | hfive
      · exact .inl (List.mem_append_left _ hended)
      · rw [answers_append]
        exact .inr (hfive.trans (List.prefix_append _ _).isInfix)
    | some c₀ =>
      obtain ⟨hended, hfive, hfailures, hconfirmed⟩ := ih.1 c₀ hfold
      cases entry with
      | ended =>
        refine ⟨fun c hc => (by cases hc), fun _ => ?_⟩
        exact .inl (List.mem_append_right _ List.mem_cons_self)
      | attempt right began committed =>
        have hanswers : answers (l ++ [.attempt right began committed]) = answers l ++ [right] :=
          answers_append l _
        rw [hanswers, fiveWrong_concat]
        cases right with
        | true =>
          rw [wrongSince_right, lastRight_right]
          refine ⟨fun c hc => ?_, fun hnone => by cases hnone⟩
          cases hc
          exact ⟨by simp [hended], by simp [hfive], rfl, rfl⟩
        | false =>
          rw [wrongSince_wrong, lastRight_wrong]
          simp only [Count.step]
          split
          · refine ⟨fun c hc => (by cases hc), fun _ => .inr (.inr ?_)⟩
            omega
          · rename_i hfew
            refine ⟨fun c hc => ?_, fun hnone => by cases hnone⟩
            cases hc
            refine ⟨by simp [hended], ?_, by simp [hfailures], hconfirmed⟩
            rintro (hbefore | hmany)
            · exact hfive hbefore
            · omega

theorem logOf_same (log : List (Bytes × Commit)) (c : Commit) :
    logOf (log ++ [(hash, c)]) hash = logOf log hash ++ [c] := by
  simp [logOf]

theorem logOf_other (log : List (Bytes × Commit)) (c : Commit) (hne : h ≠ hash) :
    logOf (log ++ [(hash, c)]) h = logOf log h := by
  simp [logOf, Ne.symm hne]

/-! ## Every commit is a step of the machine -/

/-- The rows are where the machine is after what was committed about each session. -/
structure Counted (s : Shared) : Prop where
  issued : Issued s.store
  counts : ∀ h ∈ s.store.issued, (s.store.sessions.lookup h).map Count.of =
    (logOf s.log h).foldl Count.step (some {})
  fresh : ∀ h, h ∉ s.store.issued → logOf s.log h = []
  locked : ∀ h k, s.locks h = some k → h ∈ s.store.issued

/-- What an attempt on its way relies on. -/
def Ready (k : Nat) (s : Shared) : Flight → Prop
  | .confirm .. => True
  | .start hash _ | .checked hash _ _ => hash ∈ s.store.issued
  | .written hash right _ none =>
    hash ∈ s.store.issued ∧ right = true ∧ s.store.sessions.lookup hash = none
  | .written hash _ _ (some row) =>
    s.locks hash = some k ∧ s.store.sessions.lookup hash = some row

/-- What a step leaves alone: what others have locked, and what is gone. -/
structure Keeps (s s' : Shared) (others : Nat → Prop) : Prop where
  issued : ∀ h ∈ s.store.issued, h ∈ s'.store.issued
  locks : ∀ k' h, others k' → s.locks h = some k' → s'.locks h = some k'
  rows : ∀ k' h, others k' → s.locks h = some k' →
    s'.store.sessions.lookup h = s.store.sessions.lookup h
  gone : ∀ h ∈ s.store.issued, s.store.sessions.lookup h = none →
    s'.store.sessions.lookup h = none

theorem Keeps.refl (s : Shared) (others : Nat → Prop) : Keeps s s others :=
  ⟨fun _ h => h, fun _ _ _ h => h, fun _ _ _ _ => rfl, fun _ _ h => h⟩

theorem Ready.later {others : Nat → Prop} (hf : Ready k s f) (hk : Keeps s s' others)
    (hother : others k) : Ready k s' f := by
  cases f with
  | confirm hash right => trivial
  | start hash right => exact hk.issued hash hf
  | checked hash right began => exact hk.issued hash hf
  | written hash right began before =>
    cases before with
    | none => exact ⟨hk.issued hash hf.1, hf.2.1, hk.gone hash hf.1 hf.2.2⟩
    | some row => exact ⟨hk.locks k hash hother hf.1, (hk.rows k hash hother hf.1).trans hf.2⟩

theorem counts_of_confirm {began committed : Int} {right : Bool} :
    (row.confirm began right).map Count.of =
      Count.step (some (Count.of row)) (.attempt right began committed) := by
  unfold SessionRow.confirm
  cases right with
  | true => rfl
  | false =>
    simp only [Bool.false_eq_true, if_false, Count.step, Count.of, maxFailures]
    by_cases hmany : 5 ≤ row.confirmFailures + 1 <;> simp [hmany, Count.of]

/-- The commit of an attempt is a step of the machine. -/
theorem counted_commit {right : Bool} {began : Int} {before : Option SessionRow} (hc : Counted s)
    (hf : Ready k s (.written hash right began before)) :
    Counted (s.commit hash right began before) ∧
      Keeps s (s.commit hash right began before) (· ≠ k) := by
  have hrow : s.store.sessions.lookup hash = before := by
    cases before with
    | none => exact hf.2.2
    | some row => exact hf.2
  have hin : hash ∈ s.store.issued := by
    cases before with
    | none => exact hf.1
    | some row => exact hc.issued hash row hf.2
  have hafter : ∀ h, (s.commit hash right began before).store.sessions.lookup h =
      if h = hash then before.bind (·.confirm began right) else s.store.sessions.lookup h := by
    intro h
    unfold Shared.commit
    cases before with
    | none =>
      simp only [Option.bind_none]
      split
      · rename_i heq
        subst heq
        exact hrow
      · rfl
    | some row =>
      simp only [Option.bind_some]
      split
      · rename_i row' hconfirm
        rw [HashMap.lookup_insert_eq, hconfirm]
      · rename_i hconfirm
        by_cases heq : h = hash
        · subst heq
          simp [hconfirm]
        · simp [heq, AList.lookup_erase_ne heq]
  have hlog : (s.commit hash right began before).log =
      s.log ++ [(hash, .attempt right began s.store.clock)] := rfl
  have hissued : (s.commit hash right began before).store.issued = s.store.issued := rfl
  refine ⟨⟨?_, ?_, ?_, hc.locked⟩, ?_⟩
  · intro h row hrow'
    rw [hissued]
    rw [hafter] at hrow'
    split at hrow'
    · rename_i heq
      subst heq
      exact hin
    · exact hc.issued h row hrow'
  · intro h hmem
    rw [hissued] at hmem
    have hbefore := hc.counts h hmem
    rw [hafter, hlog]
    by_cases heq : h = hash
    · subst heq
      rw [if_pos rfl, logOf_same, List.foldl_append, ← hbefore, hrow]
      cases before with
      | none => rfl
      | some row => exact counts_of_confirm
    · rw [if_neg heq, logOf_other _ _ heq]
      exact hbefore
  · intro h hnot
    rw [hissued] at hnot
    have hne : h ≠ hash := fun heq => hnot (heq ▸ hin)
    rw [hlog, logOf_other _ _ hne]
    exact hc.fresh h hnot
  · refine ⟨fun h hmem => hmem, fun k' h _ hlock => hlock, fun k' h hne hlock => ?_,
      fun h _ hnone => ?_⟩
    · rw [hafter]
      split
      · rename_i heq
        subst heq
        cases before with
        | none => exact hrow.symm
        | some row =>
          have hmine := hf.1
          rw [hlock] at hmine
          exact absurd (Option.some.inj hmine) hne
      · rfl
    · rw [hafter]
      split
      · rename_i heq
        subst heq
        rw [hnone] at hrow
        subst hrow
        rfl
      · exact hnone

theorem keeps_close (hk : Keeps s s' (· ≠ k)) :
    Keeps s { s' with locks := s'.locks.release k } (· ≠ k) :=
  ⟨hk.issued, fun k' h hne hlock => Locks.release_others hne (hk.locks k' h hne hlock), hk.rows,
    hk.gone⟩

theorem counted_next (hc : Counted s) (hf : Ready k s f)
    (hn : Flight.next idle k s f = some (s', o)) :
    Counted s' ∧ (∀ g, o = some g → Ready k s' g) ∧ Keeps s s' (· ≠ k) := by
  have hover : ∀ t : Shared, Counted t → Keeps s t (· ≠ k) → t.close k = some (s', o) →
      Counted s' ∧ (∀ g, o = some g → Ready k s' g) ∧ Keeps s s' (· ≠ k) := by
    intro t ht hk hover
    cases hover
    refine ⟨⟨ht.issued, ht.counts, ht.fresh, fun h k' hlock => ?_⟩, fun g hg => (by cases hg),
      keeps_close hk⟩
    refine ht.locked h k' ?_
    simp only [Locks.release] at hlock
    split at hlock
    · cases hlock
    · exact hlock
  unfold Flight.next at hn
  split at hn
  · exact hover s hc (Keeps.refl s _) hn
  · cases f with
    | confirm hash right =>
      simp only [Flight.statement] at hn
      split at hn
      · rename_i session hfound
        split at hn
        · cases hn
          obtain ⟨row, hrow, -⟩ := Sessions.Shared.byHash_eq_some hfound
          refine ⟨hc, fun g hg => ?_, Keeps.refl s _⟩
          cases hg
          exact hc.issued hash row hrow
        · exact hover s hc (Keeps.refl s _) hn
      · exact hover s hc (Keeps.refl s _) hn
    | start hash right =>
      cases hn
      refine ⟨hc, fun g hg => ?_, Keeps.refl s _⟩
      cases hg
      exact hf
    | checked hash right began =>
      simp only [Flight.statement] at hn
      split at hn
      · rename_i row hrow
        obtain ⟨locks, hlocks, heq⟩ := Option.map_eq_some_iff.1 hn
        cases heq
        refine ⟨⟨hc.issued, hc.counts, hc.fresh, fun h k' hlock => ?_⟩, fun g hg => ?_, fun _ h => h,
          fun k' h _ hlock => Locks.acquire_keeps hlocks hlock, fun _ _ _ _ => rfl, fun _ _ h => h⟩
        · by_cases heq : h = hash
          · rw [heq]
            exact hf
          · refine hc.locked h k' ?_
            simpa [(Locks.acquire_eq_some hlocks).2, heq] using hlock
        · cases hg
          exact ⟨Locks.acquire_held hlocks, hrow⟩
      · rename_i hnone
        split at hn
        · rename_i hright
          cases hn
          refine ⟨hc, fun g hg => ?_, Keeps.refl s _⟩
          cases hg
          exact ⟨hf, hright, hnone⟩
        · exact hover s hc (Keeps.refl s _) hn
    | written hash right began before =>
      obtain ⟨hcounted, hkeeps⟩ := counted_commit hc hf
      exact hover _ hcounted hkeeps hn

/-- A step that leaves the rows, the locks and the log alone. -/
theorem counted_of_same (hc : Counted s) (hsessions : s'.store.sessions = s.store.sessions)
    (hissued : s'.store.issued = s.store.issued) (hlocks : s'.locks = s.locks)
    (hlog : s'.log = s.log) : Counted s' ∧ Keeps s s' fun _ => True := by
  refine ⟨⟨?_, ?_, ?_, ?_⟩, ?_, ?_, ?_, ?_⟩
  · unfold Issued
    rw [hsessions, hissued]
    exact hc.issued
  · rw [hsessions, hissued, hlog]
    exact hc.counts
  · rw [hissued, hlog]
    exact hc.fresh
  · rw [hissued, hlocks]
    exact hc.locked
  · rw [hissued]
    exact fun _ h => h
  · rw [hlocks]
    exact fun _ _ _ h => h
  · rw [hsessions]
    exact fun _ _ _ _ => rfl
  · rw [hsessions]
    exact fun _ _ h => h

theorem counted_create {user : Uuid} {client : Client} {store : Sessions.Shared} (hc : Counted s)
    (hstore : s.store.outside idle max (.create hash user client) = some store) :
    Counted { s with store } ∧ Keeps s { s with store } fun _ => True := by
  have hissued := issued_outside hc.issued hstore
  simp only [Sessions.Shared.outside] at hstore
  split at hstore
  · cases hstore
  · rename_i hnew
    cases hstore
    have hne : ∀ h ∈ s.store.issued, h ≠ hash := by
      intro h hmem heq
      subst heq
      exact hnew hmem
    refine ⟨⟨hissued, fun h hmem => ?_, fun h hnot => ?_, fun h k hlock => ?_⟩,
      fun h hmem => .tail _ hmem, fun _ _ _ h => h, fun k' h _ hlock => ?_, fun h hmem hnone => ?_⟩
    · rcases List.mem_cons.1 hmem with rfl | hmem
      · simp only [AList.lookup_insert, hc.fresh h hnew]
        rfl
      · simp only [AList.lookup_insert_ne (hne h hmem)]
        exact hc.counts h hmem
    · exact hc.fresh h fun hmem => hnot (.tail _ hmem)
    · exact .tail _ (hc.locked h k hlock)
    · exact AList.lookup_insert_ne (hne h (hc.locked h k' hlock))
    · exact (AList.lookup_insert_ne (hne h hmem)).trans hnone

theorem counted_delete (hc : Counted s) (hfree : s.locks hash = none)
    (hin : hash ∈ s.store.sessions) (hs' : s' = { s with
      store := { s.store with sessions := s.store.sessions.erase hash }
      log := s.log ++ [(hash, .ended)] }) : Counted s' ∧ Keeps s s' fun _ => True := by
  subst hs'
  obtain ⟨row, hrow⟩ := Option.isSome_iff_exists.1 (AList.lookup_isSome.2 hin)
  have hmem : hash ∈ s.store.issued := hc.issued hash row hrow
  refine ⟨⟨fun h row' hrow' => ?_, fun h hmem' => ?_, fun h hnot => ?_, hc.locked⟩,
    fun _ h => h, fun _ _ _ h => h, fun k' h _ hlock => ?_, fun h _ hnone => ?_⟩
  · exact hc.issued h row' (HashMap.of_lookup_erase hrow').2
  · by_cases heq : h = hash
    · subst heq
      rw [AList.lookup_erase, logOf_same, List.foldl_append, ← hc.counts h hmem', hrow]
      rfl
    · rw [AList.lookup_erase_ne heq, logOf_other _ _ heq]
      exact hc.counts h hmem'
  · have hne : h ≠ hash := by
      intro heq
      rw [heq] at hnot
      exact hnot hmem
    rw [logOf_other _ _ hne]
    exact hc.fresh h hnot
  · refine AList.lookup_erase_ne fun heq => ?_
    rw [heq, hfree] at hlock
    cases hlock
  · by_cases heq : h = hash
    · rw [heq, AList.lookup_erase]
    · rw [AList.lookup_erase_ne heq]
      exact hnone

theorem count_touch {now : Int} : Count.of (row.touch idle now) = Count.of row := by
  unfold SessionRow.touch
  split <;> rfl

theorem counted_touch (hc : Counted s) (hfree : s.locks hash = none) :
    Counted { s with store := s.store.touch idle hash } ∧
      Keeps s { s with store := s.store.touch idle hash } fun _ => True := by
  refine ⟨⟨fun h row hrow => ?_, fun h hmem => ?_, hc.fresh, hc.locked⟩, fun _ h => h,
    fun _ _ _ h => h, fun k' h _ hlock => ?_, fun h _ hnone => ?_⟩
  · rw [Sessions.Shared.lookup_touch] at hrow
    split at hrow
    · obtain ⟨row₀, hrow₀, -⟩ := Option.map_eq_some_iff.1 hrow
      exact hc.issued h row₀ hrow₀
    · exact hc.issued h row hrow
  · have hcount := hc.counts h hmem
    simp only [Sessions.Shared.lookup_touch]
    rw [← hcount]
    split
    · rw [Option.map_map]
      exact congrArg (Option.map · _) (funext fun _ => count_touch)
    · rfl
  · simp only [Sessions.Shared.lookup_touch]
    rw [if_neg]
    intro heq
    rw [heq, hfree] at hlock
    cases hlock
  · simp only [Sessions.Shared.lookup_touch, hnone, Option.map_none, ite_self]

/-- Statements of others leave the locked rows alone, and create no session anew. -/
theorem counted_outside (hc : Counted s) (ho : s.outside idle max e = some s') :
    Counted s' ∧ Keeps s s' fun _ => True := by
  cases e with
  | tick clock =>
    obtain ⟨store, hstore, rfl⟩ := Option.map_eq_some_iff.1 ho
    simp only [Sessions.Shared.outside] at hstore
    split at hstore
    · cases hstore
      exact counted_of_same hc rfl rfl rfl rfl
    · cases hstore
  | create hash user client =>
    obtain ⟨store, hstore, rfl⟩ := Option.map_eq_some_iff.1 ho
    exact counted_create hc hstore
  | delete hash =>
    simp only [Shared.outside] at ho
    split at ho
    · rename_i hcond
      cases ho
      exact counted_delete hc hcond.1 hcond.2 rfl
    · cases ho
  | touch hash =>
    simp only [Shared.outside] at ho
    split at ho
    · rename_i hfree
      cases ho
      exact counted_touch hc hfree
    · cases ho
  | block user =>
    cases ho
    exact counted_of_same hc rfl rfl rfl rfl
  | unblock user =>
    cases ho
    exact counted_of_same hc rfl rfl rfl rfl
  | cancel k =>
    cases ho
    exact counted_of_same hc rfl rfl rfl rfl

theorem invariant (idle max : Int) :
    Invariant (system idle max) (fun _ _ => True) Counted Ready where
  start k s f _ hf := by
    cases f with
    | confirm hash right => trivial
    | _ => cases hf
  next w k f s o hw _ hf hn := by
    obtain ⟨hcounted, hready, hkeeps⟩ := counted_next hw.shared (hw.flights k f hf) hn
    exact ⟨hcounted, hready, fun k' g hne _ hg => hg.later hkeeps hne⟩
  outside w e s hw _ ho := by
    obtain ⟨hcounted, hkeeps⟩ := counted_outside hw.shared ho
    exact ⟨hcounted, fun k g hg => hg.later hkeeps trivial⟩

/-! ## Runs -/

variable {w w' : World Shared Flight} {es es' : List (Interleave.Event Flight Outside)}

theorem exists_iff (hc : Counted s) (hin : h ∈ s.store.issued) :
    h ∈ s.store.sessions ↔
      Commit.ended ∉ logOf s.log h ∧ ¬FiveWrong (answers (logOf s.log h)) := by
  have hcount := hc.counts h hin
  obtain ⟨hsome, hnone⟩ := machine_spec (logOf s.log h)
  rw [← AList.lookup_isSome]
  cases hrow : s.store.sessions.lookup h with
  | none =>
    rw [hrow] at hcount
    have hgone := hnone hcount.symm
    simp only [Option.isSome_none, Bool.false_eq_true, false_iff, not_and, not_not]
    exact fun hended => hgone.resolve_left hended
  | some row =>
    rw [hrow] at hcount
    obtain ⟨hended, hfive, -⟩ := hsome _ hcount.symm
    simp [hended, hfive]

/-- A session that is gone stays gone. -/
theorem gone_run (hw : Holds Counted Ready w) (hin : h ∈ w.shared.store.issued)
    (hgone : h ∉ w.shared.store.sessions)
    (hr : Run.run (step (system idle max)) w es = some w') : h ∉ w'.shared.store.sessions := by
  have hall := Run.inv_of_run (I := fun _ w => Holds Counted Ready w ∧ h ∈ w.shared.store.issued ∧
    w.shared.store.sessions.lookup h = none) ⟨hw, hin, AList.lookup_eq_none.2 hgone⟩ ?_ hr
  · exact AList.lookup_eq_none.1 hall.2.2
  · intro _ t ev t' _ hs ht
    obtain ⟨hholds, hin, hnone⟩ := ht
    refine ⟨(invariant idle max).step hholds trivial hs, ?_⟩
    rcases step_cases hs with ⟨k, f, rfl, -, -, rfl⟩ | ⟨k, f, s, o, rfl, hf, hn, rfl⟩ |
      ⟨e, s, rfl, ho, rfl⟩
    · exact ⟨hin, hnone⟩
    · have hkeeps := (counted_next hholds.shared (hholds.flights k f hf) hn).2.2
      exact ⟨hkeeps.issued h hin, hkeeps.gone h hin hnone⟩
    · have hkeeps := (counted_outside hholds.shared ho).2
      exact ⟨hkeeps.issued h hin, hkeeps.gone h hin hnone⟩

/-- **Confirmations behave like one after the other**, in the order of their commits: the session is
there until five wrong ones in a row and never again, a right one sets the count to zero, and the row
keeps the time at which the last right one began. -/
theorem confirmations_in_order (idle max clock : Int)
    (hr : Run.run (step (system idle max)) (World.quiet { store := { clock } }) es = some w) :
    ∀ h ∈ w.shared.store.issued,
      (w.shared.store.sessions.lookup h).map Count.of =
        (logOf w.shared.log h).foldl Count.step (some {}) ∧
      (h ∈ w.shared.store.sessions ↔ Commit.ended ∉ logOf w.shared.log h ∧
        ¬FiveWrong (answers (logOf w.shared.log h))) ∧
      (∀ row, w.shared.store.sessions.lookup h = some row →
        row.confirmFailures = wrongSince (answers (logOf w.shared.log h)) ∧
        row.confirmedAt = (lastRight (logOf w.shared.log h)).map (·.1)) ∧
      ∀ es' w', h ∉ w.shared.store.sessions →
        Run.run (step (system idle max)) w es' = some w' → h ∉ w'.shared.store.sessions := by
  have hstart : Counted { store := { clock } } := by
    refine ⟨?_, ?_, ?_, ?_⟩
    · intro h row hrow
      cases hrow
    · intro h hin
      cases hin
    · intro h _
      rfl
    · intro h k hlock
      cases hlock
  have hw := (invariant idle max).run hstart (Run.meets_of_forall (fun _ _ => trivial) _ _) hr
  intro h hin
  have hcount := hw.shared.counts h hin
  refine ⟨hcount, exists_iff hw.shared hin, fun row hrow => ?_, fun es' w' hgone hr' => ?_⟩
  · rw [hrow] at hcount
    obtain ⟨-, -, hfailures, hconfirmed⟩ := (machine_spec (logOf w.shared.log h)).1 _ hcount.symm
    exact ⟨hfailures, hconfirmed⟩
  · exact gone_run hw hin hgone hr'

/-- An attempt, all at once. -/
def attempt (k : Nat) (hash : Bytes) (right : Bool) : List (Interleave.Event Flight Outside) :=
  [.start k (.confirm hash right), .next k, .next k, .next k, .next k]

/-- Five wrong attempts in one session, the first two at the same time, and a right one and a wrong one in
another between them. -/
def twoSessions : List (Interleave.Event Flight Outside) :=
  [.outside (.create [1] 7 .web), .outside (.create [2] 7 .web), .start 0 (.confirm [1] false),
    .start 1 (.confirm [1] false), .next 0, .next 1, .next 0, .next 1, .next 0, .start 2 (.confirm [2] true),
    .next 2, .next 2, .outside (.tick second), .next 0, .next 1, .next 2, .next 1, .next 2] ++
  attempt 3 [1] false ++ attempt 4 [2] false ++ attempt 5 [1] false ++ attempt 6 [1] false

theorem confirmations_in_order_twoSessions :
    ∃ w, Run.run (step (system (30 * minute) (60 * minute)))
        (World.quiet { store := { clock := 0 } }) twoSessions = some w ∧
      [1] ∉ w.shared.store.sessions ∧
      (w.shared.store.sessions.lookup [2]).map Count.of = some { failures := 1, confirmedAt := some 0 } := by
  have hr : Run.run (step (system (30 * minute) (60 * minute)))
    (World.quiet { store := { clock := 0 } }) twoSessions = some _ := rfl
  have hin : ∀ h ∈ [[1], [2]], h ∈ ([[2], [1]] : List Bytes) := by decide
  obtain ⟨-, hthere, -⟩ := confirmations_in_order _ _ 0 hr [1] (hin [1] (by decide))
  obtain ⟨hcount, -⟩ := confirmations_in_order _ _ 0 hr [2] (hin [2] (by decide))
  refine ⟨_, hr, fun h => (hthere.1 h).2 ?_, hcount.trans ?_⟩
  · unfold FiveWrong
    decide
  · decide

/-- An attempt that takes a second. -/
def slowAttempt : List (Interleave.Event Flight Outside) :=
  [.outside (.create [1] 7 .web), .start 0 (.confirm [1] true), .next 0, .next 0, .next 0,
    .outside (.tick second), .next 0]

/-- `now()` is the beginning of the transaction. -/
theorem confirmed_at_is_not_the_commit :
    ¬∀ (es : List (Interleave.Event Flight Outside)) (w : World Shared Flight),
      Run.run (step (system (30 * minute) (60 * minute))) (World.quiet { store := { clock := 0 } }) es =
        some w →
      ∀ h row, w.shared.store.sessions.lookup h = some row →
        row.confirmedAt = (lastRight (logOf w.shared.log h)).map (·.2) := by
  intro hall
  have hcommit := hall slowAttempt _ rfl [1] _ rfl
  revert hcommit
  decide

end Server.Confirmations
