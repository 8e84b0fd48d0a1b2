import Mathlib.Data.List.Chain
import Mathlib.Data.Fintype.Basic
import Mathlib.Tactic.FinCases

/-!
# Texts of JSON strings

`quote` is a string in JSON, as PostgreSQL writes it. A quoted string is read off the front of a text
(`quote_append_inj`), because `unescape` gives back each character and the closing quote is none;
and off the end of a text where a blank stands before it (`append_quote_inj`), because a quote
inside it follows a backslash. `orNull` writes `null` for a string that is not there.
-/

namespace JsonText

open List

/-- How a character stands in a JSON string. -/
def escape (c : Char) : List Char :=
  if c = '"' then ['\\', '"']
  else if c = '\\' then ['\\', '\\']
  else if c.toNat = 8 then ['\\', 'b']
  else if c.toNat = 12 then ['\\', 'f']
  else if c = '\n' then ['\\', 'n']
  else if c = '\r' then ['\\', 'r']
  else if c = '\t' then ['\\', 't']
  else if c.toNat < 32 then ['\\', 'u', '0', '0', (c.toNat / 16).digitChar, (c.toNat % 16).digitChar]
  else [c]

def quote (s : List Char) : List Char := '"' :: s.flatMap escape ++ ['"']

def orNull : Option (List Char) → List Char
  | none => ['n', 'u', 'l', 'l']
  | some s => quote s

/-- The value of a hexadecimal digit. -/
def hexValue (c : Char) : Nat := if c.isDigit then c.toNat - 48 else c.toNat - 87

/-- The first character of a JSON string's inside, and the rest; none at the closing quote. -/
def unescape : List Char → Option (Char × List Char)
  | '\\' :: 'b' :: r => some (Char.ofNat 8, r)
  | '\\' :: 'f' :: r => some (Char.ofNat 12, r)
  | '\\' :: 'n' :: r => some ('\n', r)
  | '\\' :: 'r' :: r => some ('\r', r)
  | '\\' :: 't' :: r => some ('\t', r)
  | '\\' :: 'u' :: _ :: _ :: x :: y :: r => some (Char.ofNat (hexValue x * 16 + hexValue y), r)
  | '\\' :: c :: r => some (c, r)
  | '"' :: _ => none
  | c :: r => some (c, r)
  | [] => none

theorem unescape_control (n : Fin 32) (r : List Char) :
    unescape (escape (Char.ofNat n) ++ r) = some (Char.ofNat n, r) := by
  fin_cases n <;> rfl

theorem escape_plain {c : Char} (hquote : c ≠ '"') (hback : c ≠ '\\') (hplain : 32 ≤ c.toNat) :
    escape c = [c] := by
  have hsmall : ∀ d : Char, d.toNat < 32 → c ≠ d := by
    intro d hd hcd
    rw [hcd] at hplain
    omega
  unfold escape
  rw [if_neg hquote, if_neg hback, if_neg (by omega), if_neg (by omega), if_neg (hsmall _ (by decide)),
    if_neg (hsmall _ (by decide)), if_neg (hsmall _ (by decide)), if_neg (by omega)]

theorem unescape_escape (c : Char) (r : List Char) : unescape (escape c ++ r) = some (c, r) := by
  by_cases hcontrol : c.toNat < 32
  · rw [← Char.ofNat_toNat c]
    exact unescape_control ⟨c.toNat, hcontrol⟩ r
  · by_cases hquote : c = '"'
    · rw [hquote]
      rfl
    · by_cases hback : c = '\\'
      · rw [hback]
        rfl
      · rw [escape_plain hquote hback (by omega)]
        unfold unescape
        split <;> simp_all

theorem unescape_quote (r : List Char) : unescape ('"' :: r) = none := rfl

theorem escape_append_inj {c d : Char} {r r' : List Char} (h : escape c ++ r = escape d ++ r') :
    c = d ∧ r = r' := by
  have hread := congrArg unescape h
  rw [unescape_escape, unescape_escape] at hread
  cases hread
  exact ⟨rfl, rfl⟩

theorem escape_ne_quote {c : Char} {r r' : List Char} : escape c ++ r ≠ '"' :: r' := by
  intro h
  have hread := congrArg unescape h
  rw [unescape_escape, unescape_quote] at hread
  cases hread

/-- The inside of a string up to the closing quote. -/
theorem escaped_append_inj {s t r r' : List Char}
    (h : s.flatMap escape ++ '"' :: r = t.flatMap escape ++ '"' :: r') : s = t ∧ r = r' := by
  induction s generalizing t with
  | nil =>
    cases t with
    | nil => exact ⟨rfl, (List.cons.inj h).2⟩
    | cons d t =>
      rw [flatMap_cons, append_assoc] at h
      exact absurd h.symm escape_ne_quote
  | cons c s ih =>
    cases t with
    | nil =>
      rw [flatMap_cons, append_assoc] at h
      exact absurd h escape_ne_quote
    | cons d t =>
      rw [flatMap_cons, flatMap_cons, append_assoc, append_assoc] at h
      obtain ⟨hhead, htail⟩ := escape_append_inj h
      obtain ⟨hs, hr⟩ := ih htail
      exact ⟨by rw [hhead, hs], hr⟩

/-- **A quoted string is read off the front.** -/
theorem quote_append_inj {s t r r' : List Char} (h : quote s ++ r = quote t ++ r') :
    s = t ∧ r = r' := by
  simp only [quote, cons_append, append_assoc, nil_append] at h
  exact escaped_append_inj (List.cons.inj h).2

theorem orNull_append_inj {o p : Option (List Char)} {r r' : List Char}
    (h : orNull o ++ r = orNull p ++ r') : o = p ∧ r = r' := by
  cases o with
  | none =>
    cases p with
    | none => exact ⟨rfl, append_cancel_left h⟩
    | some t => exact absurd (List.cons.inj h).1 (by decide)
  | some s =>
    cases p with
    | none => exact absurd (List.cons.inj h).1 (by decide)
    | some t =>
      obtain ⟨rfl, hr⟩ := quote_append_inj h
      exact ⟨rfl, hr⟩

/-! ## From the end -/

/-- A quote follows a backslash. -/
def Escaped (x y : Char) : Prop := y = '"' → x = '\\'

theorem isChain_escape (c : Char) : IsChain Escaped (escape c) := by
  unfold escape
  split_ifs
  all_goals simp [Escaped]

theorem isChain_escaped (s : List Char) : IsChain Escaped (s.flatMap escape) := by
  induction s with
  | nil => exact .nil
  | cons c s ih =>
    rw [flatMap_cons]
    refine isChain_append.2 ⟨isChain_escape c, ih, ?_⟩
    intro x _ y hy hquote
    subst hquote
    cases s with
    | nil => cases hy
    | cons d s =>
      obtain ⟨r, hr⟩ := head?_eq_some_iff.1 hy
      rw [flatMap_cons] at hr
      exact absurd hr escape_ne_quote

/-- A blank and a quote are nowhere inside a string. -/
theorem not_blank_quote (s : List Char) : ¬[' ', '"'] <:+: s.flatMap escape := by
  intro h
  obtain ⟨before, after, hs⟩ := h
  have hchain := isChain_escaped s
  rw [← hs] at hchain
  have hpair := (isChain_append.1 (isChain_append.1 hchain).1).2.1
  simp [Escaped] at hpair

/-- A pair of different elements that is not in the rest is cut at its last place. -/
theorem cut_pair {α : Type*} {x y : α} {d d' e e' : List α} (hxy : x ≠ y) (he : ¬[x, y] <:+: e)
    (he' : ¬[x, y] <:+: e') (h : d ++ x :: y :: e = d' ++ x :: y :: e') : d = d' ∧ e = e' := by
  have hwithin : ∀ {t e e' : List α}, ¬[x, y] <:+: e → x :: y :: e = t ++ x :: y :: e' →
      t = [] := by
    intro t e e' he h
    cases t with
    | nil => rfl
    | cons a t =>
      cases t with
      | nil => exact absurd (List.cons.inj (List.cons.inj h).2).1.symm hxy
      | cons b t =>
        have hrest : e = t ++ x :: y :: e' := (List.cons.inj (List.cons.inj h).2).2
        exact absurd ⟨t, e', by rw [hrest]; simp⟩ he
  rcases append_eq_append_iff.1 h with ⟨t, hd, hrest⟩ | ⟨t, hd, hrest⟩
  · rw [hwithin he hrest, append_nil] at hd
    rw [hwithin he hrest] at hrest
    exact ⟨hd.symm, (List.cons.inj (List.cons.inj hrest).2).2⟩
  · rw [hwithin he' hrest, append_nil] at hd
    rw [hwithin he' hrest] at hrest
    exact ⟨hd, (List.cons.inj (List.cons.inj hrest).2).2.symm⟩

/-- **A quoted string after a blank is read off the end.** -/
theorem append_quote_inj {d d' s t : List Char} (h : d ++ ' ' :: quote s = d' ++ ' ' :: quote t) :
    d = d' ∧ s = t := by
  have h : (d ++ ' ' :: '"' :: s.flatMap escape) ++ ['"'] =
      (d' ++ ' ' :: '"' :: t.flatMap escape) ++ ['"'] := by
    simpa [quote] using h
  obtain ⟨hd, hs⟩ := cut_pair (by decide) (not_blank_quote s) (not_blank_quote t)
    (append_cancel_right h)
  have hs : s.flatMap escape ++ '"' :: [] = t.flatMap escape ++ '"' :: [] := by rw [hs]
  exact ⟨hd, (escaped_append_inj hs).1⟩

theorem getLast_quote (s : List Char) : (quote s).getLast? = some '"' := getLast?_concat

theorem append_orNull_inj {d d' : List Char} {o p : Option (List Char)}
    (h : d ++ ' ' :: orNull o = d' ++ ' ' :: orNull p) : d = d' ∧ o = p := by
  have hlast : (orNull o).getLast? = (orNull p).getLast? := by
    have hne : ∀ o, orNull o ≠ [] := by
      intro o
      cases o <;> simp [orNull, quote]
    have := congrArg getLast? h
    rwa [getLast?_append_cons, getLast?_append_cons, getLast?_cons, getLast?_cons,
      getLast?_eq_some_getLast (hne o), getLast?_eq_some_getLast (hne p), Option.getD_some,
      Option.getD_some, ← getLast?_eq_some_getLast, ← getLast?_eq_some_getLast] at this
  cases o with
  | none =>
    cases p with
    | none => exact ⟨append_cancel_right h, rfl⟩
    | some t =>
      rw [orNull, orNull, getLast_quote] at hlast
      exact absurd hlast (by decide)
  | some s =>
    cases p with
    | none =>
      rw [orNull, orNull, getLast_quote] at hlast
      exact absurd hlast (by decide)
    | some t =>
      obtain ⟨hd, hs⟩ := append_quote_inj h
      exact ⟨hd, by rw [hs]⟩

end JsonText
