import RemoteHub.Lib.Sampling
import RemoteHub.Web.Generate
import Mathlib.Data.List.FinRange

/-!
# Every password is equally likely

Drawing with `below` is rejection sampling (`run_eq`): `limit` leaves every index equally many values
(`card_symbol`), and a password without a character of every chosen set is drawn again as a whole. So
`Sampling.ways_word` applies: the passwords that the settings allow are equally likely, however many
values have been drawn.

The server keeps only settings that allow some password (`Settings.Good`, `Good.allowed`), and a page shows
nobody the settings of another user (`Own`).
-/

namespace Web.Generate

open Model Except
open Server.Generator (Request Settings Stored Table getOrganisation)
open Sampling (run word)

/-! ## Indices -/

section
variable {k : Nat} {value : Value} {values left : List Value} {n : Nat}

/-- The index that a value gives, if it gives one. -/
def symbol (k : Nat) (value : Value) : Option (Fin k) :=
  if limit k ≤ value then none else if h : 0 < k then some ⟨value % k, Nat.mod_lt _ h⟩ else none

theorem limit_le (k : Nat) : limit k ≤ 2 ^ 32 := Nat.div_mul_le_self _ _

/-- Every index has equally many values. -/
theorem card_symbol (c : Fin k) : (Finset.univ.filter fun value => symbol k value = some c).card = 2 ^ 32 / k := by
  have hk : 0 < k := Nat.zero_lt_of_lt c.2
  have hlt : ∀ q : Fin (2 ^ 32 / k), q.1 * k + c < limit k := by
    intro q
    have hq : (q.1 + 1) * k ≤ 2 ^ 32 / k * k := Nat.mul_le_mul_right k q.2
    rw [Nat.succ_mul] at hq
    have := c.2
    unfold limit
    omega
  let value (q : Fin (2 ^ 32 / k)) : Value := ⟨q.1 * k + c, (hlt q).trans_le (limit_le k)⟩
  have hvalue : Function.Injective value := by
    intro q q' heq
    have hsum : q.1 * k + c = q'.1 * k + c := Fin.mk.inj heq
    exact Fin.ext (Nat.eq_of_mul_eq_mul_right hk (Nat.add_right_cancel hsum))
  have hfilter : (Finset.univ.filter fun v => symbol k v = some c) = Finset.univ.image value := by
    ext v
    simp only [Finset.mem_filter, Finset.mem_univ, true_and, Finset.mem_image, symbol, dif_pos hk]
    constructor
    · intro hv
      split at hv
      · cases hv
      · rename_i hnot
        have hmod : v.1 % k = c := congrArg Fin.val (Option.some.inj hv)
        have hdiv : v.1 / k < 2 ^ 32 / k := Nat.div_lt_of_lt_mul (by
          rw [Nat.mul_comm]
          exact Nat.lt_of_not_le hnot)
        refine ⟨⟨v.1 / k, hdiv⟩, Fin.ext ?_⟩
        show v.1 / k * k + c = v.1
        rw [← hmod]
        exact Nat.div_add_mod' v.1 k
    · intro hv
      obtain ⟨q, rfl⟩ := hv
      rw [if_neg (Nat.not_le.2 (hlt q))]
      refine congrArg some (Fin.ext ?_)
      show (q.1 * k + c) % k = c
      rw [Nat.mul_add_mod', Nat.mod_eq_of_lt c.2]
  rw [hfilter, Finset.card_image_of_injective _ hvalue, Finset.card_univ, Fintype.card_fin]

theorem below_of_none (h : symbol k value = none) : below k (value :: values) = below k values := by
  unfold symbol at h
  rw [below, if_pos]
  by_contra hnot
  rw [if_neg hnot] at h
  split at h
  · cases h
  · rename_i hk
    obtain rfl : k = 0 := by omega
    rw [limit, Nat.mul_zero] at hnot
    exact hnot (Nat.zero_le _)

theorem below_of_some {c : Fin k} (h : symbol k value = some c) :
    below k (value :: values) = some (c.1, values) := by
  unfold symbol at h
  split at h
  · cases h
  · rename_i hnot
    split at h
    · cases h
      rw [below, if_neg hnot]
    · cases h

/-! ## Draws -/

/-- Drawing items is drawing indices. -/
theorem drawMany_get {α : Type} (items : List α) :
    drawMany items n values =
      (drawMany (List.finRange items.length) n values).map fun drawn => (drawn.1.map items.get, drawn.2) := by
  induction n generalizing values with
  | zero => rfl
  | succ n ih =>
    simp only [drawMany, List.length_finRange]
    cases hbelow : below items.length values with
    | none => rfl
    | some drawn =>
      obtain ⟨index, left⟩ := drawn
      simp only [Option.bind_some]
      by_cases h : index < items.length
      · have hrange : (List.finRange items.length)[index]? = some ⟨index, h⟩ := by
          rw [List.getElem?_eq_getElem (by rwa [List.length_finRange]), List.getElem_finRange]
          rfl
        rw [hrange, List.getElem?_eq_getElem h, Option.bind_some, Option.bind_some, ih, Option.map_map,
          Option.map_map]
        rfl
      · rw [List.getElem?_eq_none (by omega), List.getElem?_eq_none (by
          rw [List.length_finRange]
          omega)]
        rfl

/-- One index more. -/
theorem drawMany_succ (k n : Nat) (values : List Value) : drawMany (List.finRange k) (n + 1) values =
    (below k values).bind fun drawn => (List.finRange k)[drawn.1]?.bind fun c =>
      (drawMany (List.finRange k) n drawn.2).map fun rest => (c :: rest.1, rest.2) := by
  rw [drawMany, List.length_finRange]

theorem drawMany_nil : drawMany (List.finRange k) (n + 1) [] = none := rfl

theorem drawMany_of_none (h : symbol k value = none) :
    drawMany (List.finRange k) (n + 1) (value :: values) = drawMany (List.finRange k) (n + 1) values := by
  rw [drawMany_succ, drawMany_succ, below_of_none h]

theorem drawMany_of_some {c : Fin k} (h : symbol k value = some c) :
    drawMany (List.finRange k) (n + 1) (value :: values) =
      (drawMany (List.finRange k) n values).map fun drawn => (c :: drawn.1, drawn.2) := by
  have hrange : (List.finRange k)[c.1]? = some c := by
    rw [List.getElem?_eq_getElem (by
      rw [List.length_finRange]
      exact c.2), List.getElem_finRange]
    rfl
  rw [drawMany_succ, below_of_some h, Option.bind_some, hrange, Option.bind_some]

/-- What is drawn has its length, and every item takes a value. -/
theorem drawMany_length {drawn : List (Fin k)} (h : drawMany (List.finRange k) n values = some (drawn, left)) :
    drawn.length = n ∧ left.length + n ≤ values.length := by
  induction values generalizing n drawn with
  | nil =>
    cases n with
    | zero =>
      cases h
      exact ⟨rfl, le_refl _⟩
    | succ n => cases h
  | cons value values ih =>
    cases n with
    | zero =>
      cases h
      exact ⟨rfl, le_refl _⟩
    | succ n =>
      cases hsymbol : symbol k value with
      | none =>
        rw [drawMany_of_none hsymbol] at h
        obtain ⟨hlength, hleft⟩ := ih h
        rw [List.length_cons]
        exact ⟨hlength, by omega⟩
      | some c =>
        rw [drawMany_of_some hsymbol] at h
        obtain ⟨⟨rest, left'⟩, hrest, heq⟩ := Option.map_eq_some_iff.1 h
        cases heq
        obtain ⟨hlength, hleft⟩ := ih hrest
        dsimp only at hlength hleft ⊢
        rw [List.length_cons, List.length_cons]
        exact ⟨by omega, by omega⟩

/-- The sampler draws what is left of a word, and begins anew after one that is not good. -/
theorem run_eq (good : List (Fin k) → Bool) (drawn : List (Fin k)) (hlt : drawn.length < n) :
    run (word (symbol k) n good) drawn values =
      (drawMany (List.finRange k) (n - drawn.length) values).bind fun rest =>
        if good (drawn ++ rest.1) then some (drawn ++ rest.1)
        else run (word (symbol k) n good) [] rest.2 := by
  induction values generalizing drawn with
  | nil =>
    obtain ⟨m, hm⟩ : ∃ m, n - drawn.length = m + 1 := ⟨n - drawn.length - 1, by omega⟩
    rw [hm, drawMany_nil]
    rfl
  | cons value values ih =>
    obtain ⟨m, hm⟩ : ∃ m, n - drawn.length = m + 1 := ⟨n - drawn.length - 1, by omega⟩
    rw [hm]
    cases hsymbol : symbol k value with
    | none =>
      rw [drawMany_of_none hsymbol, ← hm, ← ih drawn hlt]
      exact Sampling.run_of_inl (Sampling.word_of_none hsymbol drawn)
    | some c =>
      rw [drawMany_of_some hsymbol, Option.bind_map]
      have hword : word (symbol k) n good drawn value = _ := Sampling.word_of_some hsymbol drawn
      have hlength : (drawn ++ [c]).length = drawn.length + 1 := by
        rw [List.length_append, List.length_singleton]
      rw [Sampling.drawn] at hword
      by_cases hmore : (drawn ++ [c]).length < n
      · have hm' : n - (drawn ++ [c]).length = m := by omega
        rw [if_pos hmore] at hword
        rw [Sampling.run_of_inl hword, ih _ hmore, hm']
        simp only [Function.comp_def, List.append_assoc, List.singleton_append]
      · obtain rfl : m = 0 := by omega
        rw [if_neg hmore] at hword
        simp only [drawMany, Option.bind_some, Function.comp_def]
        by_cases hgood : good (drawn ++ [c]) = true
        · rw [if_pos hgood] at hword
          rw [Sampling.run_of_inr hword, if_pos hgood]
        · rw [if_neg hgood] at hword
          rw [Sampling.run_of_inl hword, if_neg hgood]

end

/-! ## Passwords -/

/-- What `s` asks of a password. -/
structure Allowed (s : Settings) (password : List Char) : Prop where
  length : password.length = s.length.toNat
  chars : ∀ c ∈ password, c ∈ characters s
  each : hasEach s password = true

section
variable {s : Settings} {wordlist : List String} {values : List Value} {n rounds : Nat}

/-- The texts of `SETS`. -/
def texts : List String := (allSets .builtIn).map (·.2)

/-- A set as it is chosen. -/
def usable (s : Settings) (text : String) : List Char :=
  if s.lookAlikes then text.toList else text.toList.filter (· ∉ lookAlikes)

theorem usable_sublist (s : Settings) (text : String) : (usable s text).Sublist text.toList := by
  unfold usable
  split
  · exact List.Sublist.refl _
  · exact List.filter_sublist

theorem usable_ne_nil {text : String} (h : text ∈ texts) : usable s text ≠ [] := by
  have hall : ∀ text ∈ texts, text.toList.filter (· ∉ lookAlikes) ≠ [] := by decide
  have hne := hall text h
  unfold usable
  split
  · exact fun heq => hne (by rw [heq]; rfl)
  · exact hne

theorem sets_eq (s : Settings) : sets s = (((allSets s).filter (·.1)).map (·.2)).map (usable s) := by
  rw [List.map_map]
  rfl

theorem chosen_sublist (s : Settings) : (((allSets s).filter (·.1)).map (·.2)).Sublist texts :=
  List.filter_sublist.map _

theorem characters_sublist (s : Settings) : (characters s).Sublist (texts.map String.toList).flatten := by
  have hflatten : ∀ chosen all : List String, chosen.Sublist all →
      (chosen.map (usable s)).flatten.Sublist (all.map String.toList).flatten := by
    intro chosen all h
    induction h with
    | slnil => exact List.Sublist.refl _
    | cons text _ ih => exact ih.trans (List.sublist_append_right _ _)
    | cons_cons text _ ih => exact (usable_sublist s text).append ih
  rw [characters, sets_eq]
  exact hflatten _ _ (chosen_sublist s)

theorem nodup_characters (s : Settings) : (characters s).Nodup := by
  have hall : (texts.map String.toList).flatten.Nodup := by decide +kernel
  exact hall.sublist (characters_sublist s)

theorem length_characters (s : Settings) : (characters s).length ≤ 71 := (characters_sublist s).length_le

theorem length_sets (s : Settings) : (sets s).length ≤ 4 ∧ ∀ set ∈ sets s, set ≠ [] := by
  rw [sets_eq]
  refine ⟨?_, fun set hset => ?_⟩
  · rw [List.length_map]
    exact (chosen_sublist s).length_le
  · obtain ⟨text, htext, rfl⟩ := List.mem_map.1 hset
    exact usable_ne_nil ((chosen_sublist s).subset htext)

theorem sets_ne_nil (h : (s.lower || s.upper || s.digits || s.symbols) = true) : sets s ≠ [] := by
  obtain ⟨set, hset, hchosen⟩ : ∃ set ∈ allSets s, set.1 = true := by
    simp only [Bool.or_eq_true] at h
    simp only [allSets, List.mem_cons, exists_eq_or_imp]
    tauto
  intro heq
  rw [sets, List.map_eq_nil_iff] at heq
  have hmem : set ∈ (allSets s).filter (·.1) := List.mem_filter.2 ⟨hset, hchosen⟩
  rw [heq] at hmem
  cases hmem

/-- Items are the items at some indices. -/
theorem exists_indices {α : Type} {items l : List α} (h : ∀ a ∈ l, a ∈ items) :
    ∃ indices : List (Fin items.length), indices.map items.get = l := by
  have hrange : l ∈ Set.range (List.map items.get) := by
    rw [Set.range_list_map]
    intro a ha
    rw [Set.range_list_get]
    exact h a ha
  exact hrange

/-- The password of the indices has a character of every set. -/
def good (s : Settings) (indices : List (Fin (characters s).length)) : Bool :=
  hasEach s (indices.map (characters s).get)

/-- `attempts` is the sampler. -/
theorem attempts_eq (hlength : 0 < s.length.toNat) (hrounds : values.length ≤ rounds) :
    attempts s rounds values =
      (run (word (symbol (characters s).length) s.length.toNat (good s)) [] values).map
        (·.map (characters s).get) := by
  induction rounds generalizing values with
  | zero =>
    rw [List.eq_nil_of_length_eq_zero (Nat.le_zero.1 hrounds)]
    rfl
  | succ rounds ih =>
    rw [attempts, drawMany_get, run_eq (good s) [] hlength, List.length_nil, Nat.sub_zero, Option.bind_map]
    cases hdrawn : drawMany (List.finRange (characters s).length) s.length.toNat values with
    | none => rfl
    | some drawn =>
      obtain ⟨indices, left⟩ := drawn
      have hleft := (drawMany_length hdrawn).2
      simp only [Option.bind_some, Function.comp_def, List.nil_append]
      by_cases hgood : good s indices = true
      · have heach : hasEach s (indices.map (characters s).get) = true := hgood
        rw [if_pos hgood, if_pos heach]
        rfl
      · have heach : ¬hasEach s (indices.map (characters s).get) = true := hgood
        rw [if_neg hgood, if_neg heach]
        exact ih (by omega)

theorem generate_password (hkind : s.kind ≠ "passphrase") (hsome : characters s ≠ [])
    (hlength : 0 < s.length.toNat) : generate wordlist s values =
      (run (word (symbol (characters s).length) s.length.toNat (good s)) [] values).map fun indices =>
        .ofList (indices.map (characters s).get) := by
  rw [generate, if_neg hkind, if_neg hsome, attempts_eq hlength (le_refl _), Option.map_map]
  rfl

/-- Equal passwords have equal indices. -/
theorem map_get_inj {α : Type} {items : List α} (h : items.Nodup) {indices indices' : List (Fin items.length)} :
    indices.map items.get = indices'.map items.get ↔ indices = indices' :=
  (List.map_injective_iff.2 (List.nodup_iff_injective_get.1 h)).eq_iff

/-- The ways to a password. -/
theorem card_password (hkind : s.kind ≠ "passphrase") (hsome : characters s ≠ []) (hlength : 0 < s.length.toNat)
    (indices : List (Fin (characters s).length)) :
    Fintype.card {v : Fin n → Value // generate wordlist s (List.ofFn v) =
        some (.ofList (indices.map (characters s).get))} =
      Sampling.ways (word (symbol (characters s).length) s.length.toNat (good s)) n [] indices := by
  rw [Sampling.ways_eq_card]
  refine Fintype.card_congr (Equiv.subtypeEquivRight fun v => ?_)
  rw [generate_password hkind hsome hlength, Option.map_eq_some_iff]
  constructor
  · intro h
    obtain ⟨indices', hrun, heq⟩ := h
    rw [String.ofList_inj, map_get_inj (nodup_characters s)] at heq
    rw [hrun, heq]
  · exact fun h => ⟨indices, h, rfl⟩

/-- An index has a value. -/
theorem exists_values {k : Nat} (hk : k ≤ 2 ^ 32) (indices : List (Fin k)) :
    ∃ values, List.Forall₂ (fun value c => symbol k value = some c) values indices := by
  induction indices with
  | nil => exact ⟨[], .nil⟩
  | cons c indices ih =>
    obtain ⟨values, hvalues⟩ := ih
    have hpos : 0 < k := Nat.zero_lt_of_lt c.2
    have hone : 1 ≤ 2 ^ 32 / k := (Nat.one_le_div_iff hpos).2 hk
    have hlimit : c.1 < limit k := c.2.trans_le (Nat.le_mul_of_pos_left k hone)
    refine ⟨⟨c.1, c.2.trans_le hk⟩ :: values, .cons ?_ hvalues⟩
    rw [symbol, if_neg (Nat.not_le.2 hlimit), dif_pos hpos]
    exact congrArg some (Fin.ext (Nat.mod_eq_of_lt c.2))

theorem allowed_of_generate {text : String} (hkind : s.kind ≠ "passphrase") (hsome : characters s ≠ [])
    (hlength : 0 < s.length.toNat) (h : generate wordlist s values = some text) : Allowed s text.toList := by
  rw [generate_password hkind hsome hlength] at h
  obtain ⟨indices, hrun, rfl⟩ := Option.map_eq_some_iff.1 h
  obtain ⟨hindices, hgood⟩ := Sampling.of_run_word hlength hrun
  rw [String.toList_ofList]
  refine ⟨by rw [List.length_map, hindices], fun c hc => ?_, hgood⟩
  obtain ⟨index, -, rfl⟩ := List.mem_map.1 hc
  exact List.get_mem _ _

/-- Every password that `s` allows can come. -/
theorem generate_allowed {password : List Char} (hkind : s.kind ≠ "passphrase") (hsome : characters s ≠ [])
    (hlength : 0 < s.length.toNat) (h : Allowed s password) :
    ∃ values, generate wordlist s values = some (.ofList password) := by
  obtain ⟨indices, rfl⟩ := exists_indices h.chars
  have hcount : (characters s).length ≤ 2 ^ 32 := (length_characters s).trans (by decide)
  obtain ⟨values, hvalues⟩ := exists_values hcount indices
  refine ⟨values, ?_⟩
  have hindices : ([] ++ indices).length = s.length.toNat := by
    rw [List.nil_append, ← h.length, List.length_map]
  rw [generate_password hkind hsome hlength,
    Sampling.run_word_of_forall₂ hvalues hlength hindices h.each]
  rfl

/-- Settings with a set allow a password of at least four characters. -/
theorem exists_allowed (hsets : sets s ≠ []) (hlength : 4 ≤ s.length.toNat) : ∃ password, Allowed s password := by
  obtain ⟨hcount, hne⟩ := length_sets s
  obtain ⟨c, hc⟩ : ∃ c, c ∈ characters s := by
    obtain ⟨set, hset⟩ := List.exists_mem_of_ne_nil _ hsets
    obtain ⟨c, hc⟩ := List.exists_mem_of_ne_nil _ (hne set hset)
    exact ⟨c, List.mem_flatten_of_mem hset hc⟩
  -- a character of each set, and one more as often as needed
  let first (set : List Char) : Char := set.headD c
  have hfirst : ∀ set ∈ sets s, first set ∈ set := by
    intro set hset
    obtain ⟨head, tail, rfl⟩ := List.exists_cons_of_ne_nil (hne set hset)
    exact List.mem_cons_self
  refine ⟨(sets s).map first ++ List.replicate (s.length.toNat - (sets s).length) c, ?_, fun c' hc' => ?_, ?_⟩
  · rw [List.length_append, List.length_map, List.length_replicate]
    omega
  · rcases List.mem_append.1 hc' with hmem | hmem
    · obtain ⟨set, hset, rfl⟩ := List.mem_map.1 hmem
      exact List.mem_flatten_of_mem hset (hfirst set hset)
    · rw [List.eq_of_mem_replicate hmem]
      exact hc
  · rw [hasEach, List.all_eq_true]
    intro set hset
    rw [List.any_eq_true]
    exact ⟨first set, List.mem_append_left _ (List.mem_map_of_mem hset), decide_eq_true (hfirst set hset)⟩

/-! ## Passphrases -/

theorem phrase_eq (hwords : 0 < s.words.toNat) : phrase wordlist s values =
    (run (word (symbol wordlist.length) s.words.toNat fun _ => true) [] values).map
      (·.map wordlist.get) := by
  rw [phrase, drawMany_get, run_eq _ [] hwords, List.length_nil, Nat.sub_zero]
  cases drawMany (List.finRange wordlist.length) s.words.toNat values with
  | none => rfl
  | some drawn => rfl

/-- The ways to a list of words. -/
theorem card_phrase (hnodup : wordlist.Nodup) (hwords : 0 < s.words.toNat)
    (indices : List (Fin wordlist.length)) :
    Fintype.card {v : Fin n → Value // phrase wordlist s (List.ofFn v) = some (indices.map wordlist.get)} =
      Sampling.ways (word (symbol wordlist.length) s.words.toNat fun _ => true) n [] indices := by
  rw [Sampling.ways_eq_card]
  refine Fintype.card_congr (Equiv.subtypeEquivRight fun v => ?_)
  rw [phrase_eq hwords, Option.map_eq_some_iff]
  constructor
  · intro h
    obtain ⟨indices', hrun, heq⟩ := h
    rw [map_get_inj hnodup] at heq
    rw [hrun, heq]
  · exact fun h => ⟨indices, h, rfl⟩

/-- A list of so many words. -/
structure Phrase (wordlist : List String) (s : Settings) (words : List String) : Prop where
  length : words.length = s.words.toNat
  words : ∀ word ∈ words, word ∈ wordlist

theorem phrase_of_phrase {words : List String} (hwords : 0 < s.words.toNat)
    (h : phrase wordlist s values = some words) : Phrase wordlist s words := by
  rw [phrase_eq hwords] at h
  obtain ⟨indices, hrun, rfl⟩ := Option.map_eq_some_iff.1 h
  refine ⟨by rw [List.length_map, (Sampling.of_run_word hwords hrun).1], fun word hword => ?_⟩
  obtain ⟨index, -, rfl⟩ := List.mem_map.1 hword
  exact List.get_mem _ _

theorem exists_phrase (hsome : wordlist ≠ []) (hcount : wordlist.length ≤ 2 ^ 32) (hwords : 0 < s.words.toNat) :
    ∃ values words, phrase wordlist s values = some words := by
  have hpos : 0 < wordlist.length := List.length_pos_of_ne_nil hsome
  let indices := List.replicate s.words.toNat (⟨0, hpos⟩ : Fin wordlist.length)
  obtain ⟨values, hvalues⟩ := exists_values hcount indices
  refine ⟨values, indices.map wordlist.get, ?_⟩
  have hlength : ([] ++ indices).length = s.words.toNat := List.length_replicate
  rw [phrase_eq hwords, Sampling.run_word_of_forall₂ hvalues hwords hlength rfl]
  rfl

end

/-! ## Settings that are kept -/

/-- Settings that the generator can follow. -/
structure Good (s : Settings) : Prop where
  kind : s.kind = "password" ∨ s.kind = "passphrase"
  length : 8 ≤ s.length
  some : (s.lower || s.upper || s.digits || s.symbols) = true
  words : 3 ≤ s.words

theorem good_of_checked {s s' : Settings} (h : s.checked = .ok s') : Good s' := by
  unfold Settings.checked at h
  obtain ⟨_, hkind, h⟩ := bind_eq_ok.1 h
  obtain ⟨_, hlength, h⟩ := bind_eq_ok.1 h
  obtain ⟨_, hsome, h⟩ := bind_eq_ok.1 h
  obtain ⟨_, hwords, h⟩ := bind_eq_ok.1 h
  obtain ⟨_, -, h⟩ := bind_eq_ok.1 h
  rw [refuse_eq_ok, not_not] at hkind hlength hwords
  rw [refuse_eq_ok, Bool.not_eq_true, Bool.not_eq_false'] at hsome
  cases pure_eq_ok.1 h
  simp only [List.mem_cons, List.not_mem_nil, or_false] at hkind
  exact ⟨hkind, hlength.1, hsome, hwords.1⟩

theorem good_builtIn : Good .builtIn := ⟨.inl rfl, by decide, rfl, by decide⟩

/-- Every row is good. -/
def Rows (table : Table) : Prop := ∀ key s, table.lookup key = some s → Good s

section
variable {table table' : Table} {w w' : World} {e : Event} {es : List Event} {user who : Uuid}

theorem Rows.insert {key : Option Uuid} {s : Settings} (h : Rows table) (hs : Good s) :
    Rows (table.insert key s) := by
  intro key' s' hs'
  rw [HashMap.lookup_insert_eq] at hs'
  split at hs'
  · cases hs'
    exact hs
  · exact h key' s' hs'

theorem Rows.step {r : Request} (h : Rows table) (hs : Server.Generator.step table r = some table') :
    Rows table' := by
  cases hs
  cases hanswer : r.handle table with
  | error problem => exact h
  | ok table₁ =>
    show Rows table₁
    cases r with
    | saveOwn user input =>
      obtain ⟨s, hchecked, heq⟩ := bind_eq_ok.1 hanswer
      rw [← pure_eq_ok.1 heq]
      exact h.insert (good_of_checked hchecked)
    | removeOwn user =>
      rw [← pure_eq_ok.1 hanswer]
      exact fun key s hs => h key s (HashMap.of_lookup_erase hs).2
    | saveOrganisation isAdmin input =>
      obtain ⟨_, -, hanswer⟩ := bind_eq_ok.1 hanswer
      obtain ⟨s, hchecked, heq⟩ := bind_eq_ok.1 hanswer
      rw [← pure_eq_ok.1 heq]
      exact h.insert (good_of_checked hchecked)

/-- `organisation` is what the server's first statement found at some moment. -/
def Read (user : Uuid) (es : List Event) (organisation : Settings) : Prop :=
  ∃ es₁ es₂ u, es = es₁ ++ es₂ ∧ Run.run step { user } es₁ = some u ∧
    organisation = getOrganisation u.table

/-- `stored` is what the server kept for `who`: the organisation's settings at some moment, and the user's own
at that moment or a later one. -/
def Answered (user : Uuid) (es : List Event) (who : Uuid) (stored : Stored) : Prop :=
  ∃ es₁ es₂ v, es = es₁ ++ es₂ ∧ Run.run step { user } es₁ = some v ∧
    Read user es₁ stored.organisation ∧ stored.own = Server.Generator.stored v.table (some who)

theorem Read.later {organisation : Settings} (h : Read user es organisation) (e : Event) :
    Read user (es ++ [e]) organisation := by
  obtain ⟨es₁, es₂, u, rfl, hu, heq⟩ := h
  exact ⟨es₁, es₂ ++ [e], u, List.append_assoc _ _ _, hu, heq⟩

theorem Answered.later {stored : Stored} (h : Answered user es who stored) (e : Event) :
    Answered user (es ++ [e]) who stored := by
  obtain ⟨es₁, es₂, v, rfl, hv, hread, heq⟩ := h
  exact ⟨es₁, es₂ ++ [e], v, List.append_assoc _ _ _, hv, hread, heq⟩

/-- What a page has is what the server answered the user it has loaded it for. -/
structure Own (user : Uuid) (es : List Event) (w : World) : Prop where
  rows : Rows w.table
  reads : ∀ load ∈ w.loads, ∀ organisation ∈ load.organisation, Read user es organisation
  loads : ∀ load ∈ w.loads, ∀ stored ∈ load.answer, Answered user es load.who stored
  stored : ∀ stored ∈ w.stored, ∃ who, w.loadedFor = some who ∧ Answered user es who stored

theorem Own.later (h : Own user es w) (e : Event) : Own user (es ++ [e]) w where
  rows := h.rows
  reads load hload organisation horg := (h.reads load hload organisation horg).later e
  loads load hload stored hstored := (h.loads load hload stored hstored).later e
  stored stored hstored := by
    obtain ⟨who, hwho, hanswered⟩ := h.stored stored hstored
    exact ⟨who, hwho, hanswered.later e⟩

theorem Own.loadDefaults (h : Own user es w) : Own user es w.loadDefaults := by
  -- what was loaded for another user is forgotten
  have hfor : Own user es (if w.loadedFor = some w.user then w
      else { w with loadedFor := some w.user, stored := none, loading := false }) := by
    split
    · exact h
    · exact ⟨h.rows, h.reads, h.loads, fun stored hstored => by cases hstored⟩
  unfold World.loadDefaults
  generalize (if w.loadedFor = some w.user then w
    else { w with loadedFor := some w.user, stored := none, loading := false }) = w₁ at hfor
  dsimp only
  split
  · exact hfor
  · refine ⟨hfor.rows, fun load hload organisation horg => ?_, fun load hload stored hstored => ?_,
      hfor.stored⟩
    · rcases List.mem_append.1 hload with hload | hload
      · exact hfor.reads load hload organisation horg
      · rw [List.mem_singleton.1 hload] at horg
        cases horg
    · rcases List.mem_append.1 hload with hload | hload
      · exact hfor.loads load hload stored hstored
      · rw [List.mem_singleton.1 hload] at hstored
        cases hstored

theorem Own.step (h : Own user es w) (hw : Run.run step { user } es = some w) (hs : step w e = some w') :
    Own user (es ++ [e]) w' := by
  have hlater := h.later e
  cases e with
  | request r =>
    rw [step] at hs
    obtain ⟨table, htable, rfl⟩ := Option.map_eq_some_iff.1 hs
    exact ⟨h.rows.step htable, hlater.reads, hlater.loads, hlater.stored⟩
  | signIn user =>
    cases hs
    exact ⟨hlater.rows, hlater.reads, hlater.loads, hlater.stored⟩
  | loadDefaults =>
    cases hs
    exact hlater.loadDefaults
  | reads load =>
    obtain ⟨l, hl, rfl⟩ := Option.map_eq_some_iff.1 hs
    have hmem := List.mem_of_getElem? hl
    refine ⟨hlater.rows, fun load' hload' organisation horg => ?_, fun load' hload' stored hstored => ?_,
      hlater.stored⟩
    · rcases List.mem_or_eq_of_mem_set hload' with hload' | rfl
      · exact hlater.reads load' hload' organisation horg
      · cases horg
        exact ⟨es, [_], w, rfl, hw, rfl⟩
    · rcases List.mem_or_eq_of_mem_set hload' with hload' | rfl
      · exact hlater.loads load' hload' stored hstored
      · exact hlater.loads l hmem stored hstored
  | answer load =>
    obtain ⟨l, hl, hs⟩ := Option.bind_eq_some_iff.1 hs
    obtain ⟨organisation, horg, rfl⟩ := Option.map_eq_some_iff.1 hs
    have hmem := List.mem_of_getElem? hl
    refine ⟨hlater.rows, fun load' hload' organisation' horg' => ?_, fun load' hload' stored hstored => ?_,
      hlater.stored⟩
    · rcases List.mem_or_eq_of_mem_set hload' with hload' | rfl
      · exact hlater.reads load' hload' organisation' horg'
      · exact hlater.reads l hmem organisation' horg'
    · rcases List.mem_or_eq_of_mem_set hload' with hload' | rfl
      · exact hlater.loads load' hload' stored hstored
      · cases hstored
        exact ⟨es, [_], w, rfl, hw, h.reads l hmem organisation horg, rfl⟩
  | arrives load =>
    obtain ⟨l, hl, hs⟩ := Option.bind_eq_some_iff.1 hs
    obtain ⟨stored, hstored, rfl⟩ := Option.map_eq_some_iff.1 hs
    have hanswered := hlater.loads l (List.mem_of_getElem? hl) stored hstored
    split
    · rename_i hfor
      refine ⟨hlater.rows, hlater.reads, hlater.loads, fun stored' hstored' => ?_⟩
      cases hstored'
      exact ⟨l.who, hfor.symm, hanswered⟩
    · exact hlater
  | fails load =>
    obtain ⟨l, hl, rfl⟩ := Option.map_eq_some_iff.1 hs
    split
    · exact ⟨hlater.rows, hlater.reads, hlater.loads, hlater.stored⟩
    · exact hlater

theorem own_of_run (hr : Run.run step { user } es = some w) : Own user es w := by
  refine Run.inv_of_run (I := Own user) ?_ (fun es t e t' ht hstep h => h.step ht hstep) hr
  exact ⟨fun key s hs => (by cases hs), fun load hload => (by cases hload), fun load hload => (by cases hload),
    fun stored hs => (by cases hs)⟩

/-- The settings in use at a page: the built-in ones, or those that the server's two statements found for the
user it has loaded them for. -/
inductive Used (user : Uuid) (es : List Event) (w : World) : Settings → Prop
  | builtIn : Used user es w .builtIn
  | stored (who : Uuid) {stored : Stored} (loaded : w.loadedFor = some who)
    (answered : Answered user es who stored) : Used user es w (stored.own.getD stored.organisation)

theorem used_current (hr : Run.run step { user } es = some w) : Used user es w w.current := by
  unfold World.current
  cases hstored : w.stored with
  | none => exact .builtIn
  | some stored =>
    obtain ⟨who, hwho, hanswered⟩ := (own_of_run hr).stored stored hstored
    exact .stored who hwho hanswered

theorem Read.good {organisation : Settings} (h : Read user es organisation) : Good organisation := by
  obtain ⟨es₁, es₂, u, -, hu, rfl⟩ := h
  show Good ((u.table.lookup none).getD .builtIn)
  cases horg : u.table.lookup none with
  | none => exact good_builtIn
  | some s => exact (own_of_run hu).rows none s horg

theorem Used.good {s : Settings} (h : Used user es w s) : Good s := by
  cases h with
  | builtIn => exact good_builtIn
  | stored who loaded answered =>
    obtain ⟨es₁, es₂, v, -, hv, hread, hown⟩ := answered
    rw [hown]
    show Good ((v.table.lookup (some who)).getD _)
    cases hkept : v.table.lookup (some who) with
    | none => exact hread.good
    | some s => exact (own_of_run hv).rows (some who) s hkept

end

/-- **Equally likely passwords.** However the settings are changed while a page loads them, its generator uses
the built-in ones or what the server kept for the user it loaded them for, and can follow them: it ends for
some values. It makes the passwords that they allow and no others, and all of them are equally likely; so are
the lists of words of a passphrase. -/
theorem defaults_equally_likely (wordlist : List String) (hcount : wordlist.length = 2048)
    (hnodup : wordlist.Nodup) (user : Uuid) (es : List Event) (w : World)
    (hr : Run.run step { user } es = some w) :
    Used user es w w.current ∧ (∃ values text, generate wordlist w.current values = some text) ∧
      (w.current.kind = "password" →
        (∀ password, (∃ values, generate wordlist w.current values = some (.ofList password)) ↔
            Allowed w.current password) ∧
          ∀ n password password', Allowed w.current password → Allowed w.current password' →
            Fintype.card {v : Fin n → Value //
                generate wordlist w.current (List.ofFn v) = some (.ofList password)} =
              Fintype.card {v : Fin n → Value //
                generate wordlist w.current (List.ofFn v) = some (.ofList password')}) ∧
      (w.current.kind = "passphrase" →
        (∀ values text, generate wordlist w.current values = some text →
          ∃ words, Phrase wordlist w.current words ∧ text = w.current.separator.intercalate words) ∧
          ∀ n words words', Phrase wordlist w.current words → Phrase wordlist w.current words' →
            Fintype.card {v : Fin n → Value // phrase wordlist w.current (List.ofFn v) = some words} =
              Fintype.card {v : Fin n → Value // phrase wordlist w.current (List.ofFn v) = some words'}) := by
  have hused := used_current hr
  refine ⟨hused, ?_⟩
  have hgood := hused.good
  generalize w.current = s at hgood ⊢
  have hlength : 8 ≤ s.length := hgood.length
  have hfour : 4 ≤ s.length.toNat := by omega
  have hpos : 0 < s.length.toNat := by omega
  have hwords : 0 < s.words.toNat := by
    have := hgood.words
    omega
  have hsets := sets_ne_nil hgood.some
  obtain ⟨password₀, hallowed⟩ := exists_allowed hsets hfour
  have hsome : characters s ≠ [] := by
    intro heq
    obtain ⟨c, hc⟩ := List.exists_mem_of_ne_nil password₀ fun hnil => by
      rw [← hallowed.length, hnil] at hpos
      exact Nat.lt_irrefl 0 hpos
    have hmem := hallowed.chars c hc
    rw [heq] at hmem
    cases hmem
  refine ⟨?_, fun hkind => ⟨fun password => ⟨fun hvalues => ?_, fun hp => ?_⟩, fun n password password' hp hp' => ?_⟩,
    fun hkind => ⟨fun values text htext => ?_, fun n words words' hw hw' => ?_⟩⟩
  · by_cases hkind : s.kind = "passphrase"
    · have hlist : wordlist ≠ [] := by
        rintro rfl
        cases hcount
      obtain ⟨values, words, hphrase⟩ := exists_phrase hlist (by rw [hcount]; decide) hwords
      refine ⟨values, s.separator.intercalate words, ?_⟩
      rw [generate, if_pos hkind, hphrase]
      rfl
    · obtain ⟨values, hvalues⟩ : ∃ values, generate wordlist s values = some (.ofList password₀) :=
        generate_allowed hkind hsome hpos hallowed
      exact ⟨values, _, hvalues⟩
  · have hkind' : s.kind ≠ "passphrase" := by
      rw [hkind]
      decide
    obtain ⟨values, hvalues⟩ := hvalues
    have hallowed' := allowed_of_generate hkind' hsome hpos hvalues
    rwa [String.toList_ofList] at hallowed'
  · have hkind' : s.kind ≠ "passphrase" := by
      rw [hkind]
      decide
    exact generate_allowed hkind' hsome hpos hp
  · have hkind' : s.kind ≠ "passphrase" := by
      rw [hkind]
      decide
    obtain ⟨indices, rfl⟩ := exists_indices hp.chars
    obtain ⟨indices', rfl⟩ := exists_indices hp'.chars
    rw [card_password hkind' hsome hpos, card_password hkind' hsome hpos]
    have hindices := hp.length
    have hindices' := hp'.length
    rw [List.length_map] at hindices hindices'
    exact Sampling.ways_word hpos card_symbol hindices hp.each hindices' hp'.each n
  · rw [generate, if_pos hkind] at htext
    obtain ⟨words, hphrase, rfl⟩ := Option.map_eq_some_iff.1 htext
    exact ⟨words, phrase_of_phrase hwords hphrase, rfl⟩
  · obtain ⟨indices, rfl⟩ := exists_indices hw.words
    obtain ⟨indices', rfl⟩ := exists_indices hw'.words
    rw [card_phrase hnodup hwords, card_phrase hnodup hwords]
    have hindices := hw.length
    have hindices' := hw'.length
    rw [List.length_map] at hindices hindices'
    exact Sampling.ways_word hwords card_symbol hindices rfl hindices' rfl n

/-- The organisation asks for eight letters and digits, and a user loads that while it asks for more again. -/
def shortPasswords : List Event :=
  [.request (.saveOrganisation true { Settings.builtIn with length := 8, symbols := false }), .loadDefaults,
    .reads 0, .request (.saveOrganisation true .builtIn), .answer 0, .arrives 0]

/-- Different words. -/
def longerWords : List String := (List.range 2048).map fun n => .ofList (List.replicate n 'a')

theorem defaults_equally_likely_short :
    Fintype.card {v : Fin 9 → Value // generate longerWords
        { Settings.builtIn with length := 8, symbols := false } (List.ofFn v) = some (.ofList "aaaaaaA2".toList)} =
      Fintype.card {v : Fin 9 → Value // generate longerWords
        { Settings.builtIn with length := 8, symbols := false } (List.ofFn v) = some (.ofList "Xe7nRw4q".toList)} := by
  have hrun : ((Run.run step { user := 1 } shortPasswords).map (·.current)) =
      some { Settings.builtIn with length := 8, symbols := false } := by decide
  obtain ⟨w, hw, hcurrent⟩ := Option.map_eq_some_iff.1 hrun
  have hcount : longerWords.length = 2048 := by rw [longerWords, List.length_map, List.length_range]
  have hnodup : longerWords.Nodup := by
    refine List.nodup_range.map fun n n' heq => ?_
    have hlength := congrArg List.length (String.ofList_injective heq)
    rwa [List.length_replicate, List.length_replicate] at hlength
  have hlikely := (defaults_equally_likely longerWords hcount hnodup 1 shortPasswords w hw).2.2.1
  rw [hcurrent] at hlikely
  exact (hlikely rfl).2 9 _ _ ⟨by decide, by decide, by decide⟩
    ⟨by decide, by decide, by decide⟩

end Web.Generate
