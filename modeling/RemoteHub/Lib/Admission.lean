import RemoteHub.Lib.Interleave

/-!
# Room for processes

`w.underWay p` counts the processes with `p`. `room s a` says how many processes may still take a
place at `a`, and `holds f a` that a process has taken one. `underWay_le_room`: the processes under
way fit into the room, if one enters only where there is room for it, and a process that leaves takes
no more than its own place with it.
-/

namespace Interleave

variable {σ φ ε α : Type}

/-- How many processes have `p`. -/
def World.underWay (w : World σ φ) (p : φ → Bool) : Nat := w.flights.entries.countP fun e => p e.2

variable {S : System σ φ ε} {w w' : World σ φ} {p : φ → Bool}

theorem countP_kerase (l : List (Sigma fun _ : Nat => φ)) (k : Nat) :
    (l.kerase k).countP (fun e => p e.2) + ((l.dlookup k).elim 0 fun f => (p f).toNat) =
      l.countP fun e => p e.2 := by
  induction l with
  | nil => rfl
  | cons e l ih =>
    obtain ⟨k', f⟩ := e
    by_cases hk : k = k'
    · subst hk
      have hrest : (⟨k, f⟩ :: l : List (Sigma fun _ : Nat => φ)).kerase k = l :=
        List.kerase_cons_eq rfl
      rw [hrest, List.dlookup_cons_eq, List.countP_cons]
      cases hp : p f <;> simp [hp]
    · have hrest : (⟨k', f⟩ :: l : List (Sigma fun _ : Nat => φ)).kerase k = ⟨k', f⟩ :: l.kerase k :=
        List.kerase_cons_ne hk
      have hlookup : (⟨k', f⟩ :: l : List (Sigma fun _ : Nat => φ)).dlookup k = l.dlookup k :=
        List.dlookup_cons_ne _ _ hk
      rw [hrest, hlookup, List.countP_cons, List.countP_cons]
      omega

/-- Process `k` goes on from `f` to `o`. -/
theorem underWay_put {s : σ} {k : Nat} {o : Option φ} :
    (World.mk s (put w.flights k o)).underWay p +
        ((w.flights.lookup k).elim 0 fun f => (p f).toNat) =
      w.underWay p + o.elim 0 fun f => (p f).toNat := by
  have hcount := countP_kerase (p := p) w.flights.entries k
  cases o with
  | none =>
    have herase : (w.flights.erase k).entries = w.flights.entries.kerase k := rfl
    simp only [World.underWay, put, herase, AList.lookup, Option.elim_none] at hcount ⊢
    omega
  | some f =>
    simp only [World.underWay, put, AList.insert, List.kinsert_def, List.countP_cons,
      AList.lookup] at hcount ⊢
    cases hp : p f <;> simp [hp] <;> omega

theorem underWay_pos {k : Nat} {f : φ} (hf : w.flights.lookup k = some f) (hp : p f = true) :
    0 < w.underWay p := by
  rw [World.underWay, List.countP_pos_iff]
  exact ⟨⟨k, f⟩, HashMap.lookup_eq_some.1 hf, hp⟩

/-- Whether there is a process, and it has taken a place. -/
def places (holds : φ → α → Bool) (o : Option φ) (a : α) : Nat :=
  o.elim 0 fun f => (holds f a).toNat

variable {room : σ → α → Nat} {holds : φ → α → Bool}

/-- **The processes fit into the room**, step by step: one without a place begins, a process that
takes a place finds room for it, and else the room shrinks at most by the place that is left. -/
theorem underWay_le_room {ev : Event φ ε} (hw : ∀ a, w.underWay (holds · a) ≤ room w.shared a)
    (hs : step S w ev = some w') (hstart : ∀ f a, S.starts f = true → holds f a = false)
    (hnext : ∀ k f s o, ev = .next k → w.flights.lookup k = some f →
      S.next k w.shared f = some (s, o) → ∀ a,
        (holds f a = false ∧ w.underWay (holds · a) + 1 ≤ room s a) ∨
          places holds o a + room w.shared a ≤ room s a + (holds f a).toNat)
    (houtside : ∀ e s, ev = .outside e → S.outside w.shared e = some s →
      ∀ a, room w.shared a ≤ room s a) :
    ∀ a, w'.underWay (holds · a) ≤ room w'.shared a := by
  intro a
  rcases step_cases hs with ⟨k, f, rfl, hnew, hf, rfl⟩ | ⟨k, f, s, o, rfl, hf, hn, rfl⟩ |
    ⟨e, s, rfl, ho, rfl⟩
  · have hput := underWay_put (p := (holds · a)) (w := w) (s := w.shared) (k := k) (o := some f)
    rw [AList.lookup_eq_none.2 hnew] at hput
    simp only [put, Option.elim, hstart f a hf, Bool.toNat_false, Nat.add_zero] at hput
    rw [hput]
    exact hw a
  · have hput := underWay_put (p := (holds · a)) (w := w) (s := s) (k := k) (o := o)
    rw [hf] at hput
    simp only [Option.elim_some] at hput
    have hroom := hw a
    rcases hnext k f s o rfl hf hn a with ⟨hout, henter⟩ | hleave
    · rw [hout] at hput
      have hone : o.elim 0 (fun f => (holds f a).toNat) ≤ 1 := by
        cases o with
        | none => exact Nat.zero_le _
        | some g => exact Bool.toNat_le _
      simp only [Bool.toNat_false] at hput ⊢
      omega
    · simp only [places] at hleave
      simp only
      omega
  · exact le_trans (hw a) (houtside e s rfl ho a)

end Interleave
