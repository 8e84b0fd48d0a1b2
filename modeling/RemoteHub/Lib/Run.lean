import Mathlib.Data.List.Induction

/-!
# Runs of a step function

`step : σ → ε → Option σ` says what an event does in a state, `none` when it cannot happen there.
`run step s es` is the state after the events `es`, `Meets step C s es` says that every step of the
run meets the condition `C` on the state before it, `Visits step s es t` that the run goes through
`t`.

Invariants of all runs come from `inv_of_run`: what holds at the start and is kept by every step
holds at the end of every run; `inv_of_meets` is the rule for runs whose steps all meet `C`. The
invariant may speak of the events so far. Where `C` says exactly when a step keeps an invariant,
`meets_iff_visits` says exactly when a run does.
-/

namespace Run

variable {σ ε : Type*} {step : σ → ε → Option σ}

/-- The state after the events. -/
def run (step : σ → ε → Option σ) : σ → List ε → Option σ
  | s, [] => some s
  | s, e :: es => (step s e).bind fun s' => run step s' es

/-- Every step meets `C` in the state before it. -/
def Meets (step : σ → ε → Option σ) (C : σ → ε → Prop) : σ → List ε → Prop
  | _, [] => True
  | s, e :: es => C s e ∧ ∀ s' ∈ step s e, Meets step C s' es

instance decidableMeets (C : σ → ε → Prop) [∀ s e, Decidable (C s e)] :
    ∀ s es, Decidable (Meets step C s es)
  | _, [] => .isTrue trivial
  | s, e :: es =>
    match h : step s e with
    | none => decidable_of_iff (C s e) (by simp [Meets, h])
    | some s' =>
      have := decidableMeets C s' es
      decidable_of_iff (C s e ∧ Meets step C s' es) (by simp [Meets, h])

/-- The run goes through `t`. -/
def Visits (step : σ → ε → Option σ) (s : σ) (es : List ε) (t : σ) : Prop :=
  ∃ es', es' <+: es ∧ run step s es' = some t

theorem run_append (s : σ) (es es' : List ε) :
    run step s (es ++ es') = (run step s es).bind fun t => run step t es' := by
  induction es generalizing s with
  | nil => rfl
  | cons e es ih =>
    simp only [List.cons_append, run]
    cases step s e with
    | none => rfl
    | some s' => exact ih s'

theorem run_concat {s t : σ} {es : List ε} {e : ε} :
    run step s (es ++ [e]) = some t ↔ ∃ u, run step s es = some u ∧ step u e = some t := by
  rw [run_append, Option.bind_eq_some_iff]
  simp [run]

theorem meets_concat {C : σ → ε → Prop} {s : σ} {es : List ε} {e : ε}
    (h : Meets step C s (es ++ [e])) :
    Meets step C s es ∧ ∀ t, run step s es = some t → C t e := by
  induction es generalizing s with
  | nil =>
    refine ⟨trivial, fun t ht => ?_⟩
    cases ht
    exact h.1
  | cons e' es ih =>
    refine ⟨⟨h.1, fun s' hs' => (ih (h.2 s' hs')).1⟩, fun t ht => ?_⟩
    obtain ⟨s', hs', ht'⟩ := Option.bind_eq_some_iff.1 ht
    exact (ih (h.2 s' hs')).2 t ht'

/-- A weaker condition. -/
theorem Meets.mono {C C' : σ → ε → Prop} (hC : ∀ t e, C t e → C' t e) {s : σ} {es : List ε}
    (h : Meets step C s es) : Meets step C' s es := by
  induction es generalizing s with
  | nil => trivial
  | cons e es ih => exact ⟨hC s e h.1, fun t ht => ih (h.2 t ht)⟩

/-- What follows from a condition and an invariant that it keeps. -/
theorem Meets.of_inv {C C' : σ → ε → Prop} {I : σ → Prop} {s : σ} {es : List ε} (h0 : I s)
    (hkeep : ∀ t e t', I t → C t e → step t e = some t' → I t') (hC : ∀ t e, I t → C t e → C' t e)
    (h : Meets step C s es) : Meets step C' s es := by
  induction es generalizing s with
  | nil => trivial
  | cons e es ih => exact ⟨hC s e h0 h.1, fun t ht => ih (hkeep s e t h0 h.1 ht) (h.2 t ht)⟩

/-- A condition that always holds. -/
theorem meets_of_forall {C : σ → ε → Prop} (h : ∀ s e, C s e) (s : σ) (es : List ε) :
    Meets step C s es := by
  induction es generalizing s with
  | nil => trivial
  | cons e es ih => exact ⟨h s e, fun s' _ => ih s'⟩

/-- A run that meets `C`, from its first step on. -/
theorem reaches_cons {C : σ → ε → Prop} {P : σ → Prop} {s s' : σ} {e : ε} {es : List ε}
    (hs : step s e = some s') (hC : C s e)
    (h : ∃ t, run step s' es = some t ∧ Meets step C s' es ∧ P t) :
    ∃ t, run step s (e :: es) = some t ∧ Meets step C s (e :: es) ∧ P t := by
  obtain ⟨t, hr, hm, ht⟩ := h
  refine ⟨t, ?_, ⟨hC, fun s'' hs'' => ?_⟩, ht⟩
  · rw [run, hs]
    exact hr
  · rw [Option.mem_def, hs] at hs''
    cases hs''
    exact hm

theorem Visits.last {s t : σ} {es : List ε} (h : run step s es = some t) : Visits step s es t :=
  ⟨es, List.prefix_refl es, h⟩

theorem Visits.concat {s t : σ} {es : List ε} (h : Visits step s es t) (e : ε) :
    Visits step s (es ++ [e]) t := by
  obtain ⟨es', hp, hr⟩ := h
  exact ⟨es', hp.trans (List.prefix_append es [e]), hr⟩

/-- **Invariants of runs**: `I` holds at the start and every step keeps it. -/
theorem inv_of_run {I : List ε → σ → Prop} {s : σ} (h0 : I [] s)
    (hstep : ∀ es t e t', run step s es = some t → step t e = some t' → I es t → I (es ++ [e]) t')
    {es : List ε} {t : σ} (hr : run step s es = some t) : I es t := by
  induction es using List.reverseRecOn generalizing t with
  | nil => cases hr; exact h0
  | append_singleton es e ih =>
    obtain ⟨u, hu, hut⟩ := run_concat.1 hr
    exact hstep es u e t hu hut (ih hu)

/-- **Invariants under a condition**: `I` holds at the start and every step that meets `C` keeps
it. -/
theorem inv_of_meets {C : σ → ε → Prop} {I : List ε → σ → Prop} {s : σ} (h0 : I [] s)
    (hstep : ∀ es t e t', run step s es = some t → C t e → step t e = some t' → I es t →
      I (es ++ [e]) t') {es : List ε} {t : σ} (hm : Meets step C s es)
    (hr : run step s es = some t) : I es t := by
  refine inv_of_run (I := fun es t => Meets step C s es → I es t) (fun _ => h0) ?_ hr hm
  intro es t e t' ht htt ih hm'
  obtain ⟨hes, hC⟩ := meets_concat hm'
  exact hstep es t e t' ht (hC t ht) htt (ih hes)

theorem visits_cons {s s' u : σ} {e : ε} {es : List ε} (hs : step s e = some s') :
    Visits step s (e :: es) u ↔ u = s ∨ Visits step s' es u := by
  constructor
  · intro h
    obtain ⟨es', hp, hr⟩ := h
    cases es' with
    | nil =>
      cases hr
      exact .inl rfl
    | cons e' es' =>
      obtain ⟨rfl, hp'⟩ := List.cons_prefix_cons.1 hp
      rw [run, hs] at hr
      exact .inr ⟨es', hp', hr⟩
  · intro h
    rcases h with rfl | ⟨es', hp, hr⟩
    · exact ⟨[], List.nil_prefix, rfl⟩
    · refine ⟨e :: es', List.cons_prefix_cons.2 ⟨rfl, hp⟩, ?_⟩
      rw [run, hs]
      exact hr

/-- **Exact conditions**: if `C` says of every step from a state with `I` whether it keeps `I`, then
the runs that keep `I` throughout are those whose steps all meet `C`. -/
theorem meets_iff_visits {C : σ → ε → Prop} {I : σ → Prop}
    (hstep : ∀ t e t', step t e = some t' → I t → (C t e ↔ I t')) {s t : σ} {es : List ε}
    (h0 : I s) (hr : run step s es = some t) :
    Meets step C s es ↔ ∀ u, Visits step s es u → I u := by
  induction es generalizing s with
  | nil =>
    refine ⟨fun _ u hu => ?_, fun _ => trivial⟩
    obtain ⟨es', hp, hu⟩ := hu
    rw [List.prefix_nil.1 hp] at hu
    cases hu
    exact h0
  | cons e es ih =>
    obtain ⟨s', hs, hr⟩ := Option.bind_eq_some_iff.1 hr
    have hkeeps := hstep s e s' hs h0
    constructor
    · intro hm u hu
      have hs' : I s' := hkeeps.1 hm.1
      rcases (visits_cons hs).1 hu with rfl | hu
      · exact h0
      · exact (ih hs' hr).1 (hm.2 s' hs) u hu
    · intro hv
      have hs' : I s' := hv s' ((visits_cons hs).2 (.inr ⟨[], List.nil_prefix, rfl⟩))
      refine ⟨hkeeps.2 hs', fun s'' hs'' => ?_⟩
      rw [Option.mem_def, hs] at hs''
      cases hs''
      exact (ih hs' hr).2 fun u hu => hv u ((visits_cons hs).2 (.inr hu))

end Run
