import Mathlib.Data.List.Basic

/-!
# Computations that keep a log

`Logs log I x Q`: from a state with the invariant `I`, the computation `x` keeps `I` and adds events to
the log, of which, with the result, `Q` holds. `Logs.bind` composes: the second computation starts with what
the first one is known to have logged.
-/

namespace Logged

variable {σ ε α β ι : Type} {log : σ → List ε} {I : σ → Prop} {x : StateM σ α} {f : α → StateM σ β}
  {Q Q' : α → List ε → Prop} {R : β → List ε → Prop}

def Logs (log : σ → List ε) (I : σ → Prop) (x : StateM σ α) (Q : α → List ε → Prop) : Prop :=
  ∀ s, I s → ∃ a s' es, x.run s = (a, s') ∧ I s' ∧ log s' = log s ++ es ∧ Q a es

theorem Logs.pure {a : α} (h : Q a []) : Logs log I (pure a) Q :=
  fun s hs => ⟨a, s, [], rfl, hs, (List.append_nil _).symm, h⟩

theorem Logs.mono (hx : Logs log I x Q) (h : ∀ a es, Q a es → Q' a es) : Logs log I x Q' := by
  intro s hs
  obtain ⟨a, s', es, hrun, hs', hlog, hQ⟩ := hx s hs
  exact ⟨a, s', es, hrun, hs', hlog, h a es hQ⟩

theorem Logs.and (h : Logs log I x Q) (h' : Logs log I x Q') :
    Logs log I x fun a es => Q a es ∧ Q' a es := by
  intro s hs
  obtain ⟨a, s', es, hrun, hs', hlog, hQ⟩ := h s hs
  obtain ⟨b, t', fs, hrun', -, hlog', hQ'⟩ := h' s hs
  cases hrun.symm.trans hrun'
  cases List.append_cancel_left (hlog.symm.trans hlog')
  exact ⟨a, s', es, hrun, hs', hlog, hQ, hQ'⟩

theorem Logs.bind (hx : Logs log I x Q)
    (hf : ∀ a es, Q a es → Logs log I (f a) fun b fs => R b (es ++ fs)) :
    Logs log I (x >>= f) R := by
  intro s hs
  obtain ⟨a, s', es, hrun, hs', hlog, hQ⟩ := hx s hs
  obtain ⟨b, s'', fs, hrun', hs'', hlog', hR⟩ := hf a es hQ s' hs'
  refine ⟨b, s'', es ++ fs, ?_, hs'', ?_, hR⟩
  · have hbind : (x >>= f).run s = (f (x.run s).1).run (x.run s).2 := rfl
    rw [hbind, hrun]
    exact hrun'
  · rw [hlog', hlog, List.append_assoc]

/-- A change that leaves the log as it was. -/
theorem Logs.modify {g : σ → σ} {Q : PUnit → List ε → Prop} (hI : ∀ s, I s → I (g s))
    (hlog : ∀ s, log (g s) = log s) (h : Q ⟨⟩ []) : Logs log I (modify g) Q :=
  fun s hs => ⟨⟨⟩, g s, [], rfl, hI s hs, by rw [hlog, List.append_nil], h⟩

/-- A look at the state. -/
theorem Logs.get {Q : σ → List ε → Prop} (h : ∀ s, I s → Q s []) : Logs log I get Q :=
  fun s hs => ⟨s, s, [], rfl, hs, (List.append_nil _).symm, h s hs⟩

/-- A loop adds the events of each turn. -/
theorem Logs.forM {g : ι → StateM σ Unit} {event : ι → ε → Prop} {is : List ι}
    (h : ∀ i ∈ is, Logs log I (g i) fun _ es => ∃ e, event i e ∧ es = [e]) :
    Logs log I (is.forM g) fun _ es => List.Forall₂ event is es := by
  induction is with
  | nil => exact .pure .nil
  | cons i is ih =>
    refine Logs.bind (h i List.mem_cons_self) fun _ es hes => ?_
    obtain ⟨e, he, rfl⟩ := hes
    exact (ih fun j hj => h j (List.mem_cons_of_mem i hj)).mono fun _ fs hfs => .cons he hfs

end Logged
