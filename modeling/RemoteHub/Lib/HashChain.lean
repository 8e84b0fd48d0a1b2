import Mathlib.Data.List.Induction
import Mathlib.Data.List.Range
import Mathlib.Data.Int.Cast.Defs
import Mathlib.Tactic.ByContra

/-!
# Hash chains

The entries of a log are numbered from one, and each stores the hash of its predecessor, the first
one a given start, and its own hash. `Fits before e`: `e` is what may stand after `before`;
`Intact`: every entry fits.

* `eq_of_hash`: where the digest tells the entries apart, two intact logs that end in the same hash
  are the same.
* `exists_first`: a log that is not intact has a first entry that does not fit.
-/

namespace HashChain

variable {α H : Type*}

/-- What an entry stores, and its digest. -/
structure Form (α H : Type*) where
  number : α → Int
  link : α → H
  hash : α → H
  digest : α → H

namespace Form

variable (F : Form α H) (start : H)

/-- What the next entry links to. -/
def lastHash (before : List α) : H := (before.getLast?.map F.hash).getD start

def Fits (before : List α) (e : α) : Prop :=
  F.hash e = F.digest e ∧ F.link e = F.lastHash start before ∧ F.number e = before.length + 1

def Intact (es : List α) : Prop := ∀ before e after, es = before ++ e :: after → F.Fits start before e

end Form

variable {F : Form α H} {start : H} {es es' : List α} {e e' : α}

theorem intact_nil : F.Intact start [] := by
  intro before e after h
  exact absurd h.symm (List.append_ne_nil_of_right_ne_nil before (List.cons_ne_nil e after))

theorem intact_concat : F.Intact start (es ++ [e]) ↔ F.Intact start es ∧ F.Fits start es e := by
  constructor
  · intro h
    refine ⟨fun before e' after heq => ?_, h es e [] rfl⟩
    exact h before e' (after ++ [e]) (by rw [heq]; simp)
  · intro h before e' after heq
    rcases List.eq_nil_or_concat' after with rfl | ⟨after, x, rfl⟩
    · obtain ⟨rfl, hlast⟩ := List.append_inj' heq rfl
      cases hlast
      exact h.2
    · rw [← List.cons_append, ← List.append_assoc] at heq
      obtain ⟨hes, _⟩ := List.append_inj' heq rfl
      exact h.1 before e' after hes

theorem intact_of_append (h : F.Intact start (es ++ es')) : F.Intact start es := by
  intro before e after heq
  exact h before e (after ++ es') (by rw [heq]; simp)

/-- The numbers of an intact log. -/
theorem numbers_intact (h : F.Intact start es) :
    es.map F.number = (List.range es.length).map fun i : Nat => (i : Int) + 1 := by
  induction es using List.reverseRecOn with
  | nil => rfl
  | append_singleton es e ih =>
    obtain ⟨hes, _, _, hnumber⟩ := intact_concat.1 h
    rw [List.map_append, ih hes, List.length_append, List.length_singleton, List.range_succ,
      List.map_append, List.map_singleton, hnumber, List.map_singleton]

/-- **What the last hash says**: all of the log. -/
theorem eq_of_hash (h : F.Intact start (es ++ [e])) (h' : F.Intact start (es' ++ [e']))
    (hdigest : ∀ a ∈ es ++ [e], ∀ b ∈ es' ++ [e'], F.hash a = F.hash b → F.digest a = F.digest b →
      a = b)
    (hlast : F.hash e = F.hash e') : es ++ [e] = es' ++ [e'] := by
  induction es using List.reverseRecOn generalizing es' e e' with
  | nil =>
    obtain ⟨_, hfits, _, hnumber⟩ := intact_concat.1 h
    obtain ⟨_, hfits', _, hnumber'⟩ := intact_concat.1 h'
    have hsame : e = e' := hdigest e (by simp) e' (by simp) hlast (by rw [← hfits, ← hfits', hlast])
    subst hsame
    have hlength : es'.length = 0 := by
      rw [hnumber, List.length_nil] at hnumber'
      omega
    rw [List.length_eq_zero_iff.1 hlength]
  | append_singleton es d ih =>
    obtain ⟨hes, hfits, hlink, hnumber⟩ := intact_concat.1 h
    obtain ⟨hes', hfits', hlink', hnumber'⟩ := intact_concat.1 h'
    have hsame : e = e' := hdigest e (by simp) e' (by simp) hlast (by rw [← hfits, ← hfits', hlast])
    subst hsame
    rcases List.eq_nil_or_concat' es' with rfl | ⟨es', d', rfl⟩
    · rw [hnumber, List.length_append, List.length_singleton, List.length_nil] at hnumber'
      omega
    · rw [hlink] at hlink'
      have hprevious : F.hash d = F.hash d' := by simpa [Form.lastHash] using hlink'
      rw [ih hes hes' (fun a ha b hb => hdigest a (by simp at ha ⊢; tauto) b
        (by simp at hb ⊢; tauto)) hprevious]

/-- The first entry that does not fit. -/
theorem exists_first (h : ¬F.Intact start es) : ∃ before e after, es = before ++ e :: after ∧
    F.Intact start before ∧ ¬F.Fits start before e := by
  induction es using List.reverseRecOn with
  | nil => exact absurd intact_nil h
  | append_singleton es e ih =>
    by_cases hes : F.Intact start es
    · exact ⟨es, e, [], rfl, hes, fun hfits => h (intact_concat.2 ⟨hes, hfits⟩)⟩
    · obtain ⟨before, e', after, rfl, hbefore, hfirst⟩ := ih hes
      exact ⟨before, e', after ++ [e], by simp, hbefore, hfirst⟩

end HashChain
